/-
  The batch of `SendTransactionsAsync`, and whether what has been accepted can be persisted.

  Two validators look at a description.  `IsInvalid` counts UTF-16 units and nothing else; the
  column counts characters, of which there are never more than units, and takes no U+0000.  So the
  one thing an accepted transaction can be refused for is a U+0000 in its description
  (`accepted_fits_iff`), and since a batch is one transaction of the database, every row of the
  batch is then refused with it (`batch_with_nul_is_dropped`).
-/
import RinhaBackend.Table
import RinhaBackend.TransactionService
import RinhaBackend.SaveInBackground

namespace Rinha

namespace SaveInBackground

open Table

/-! ## The batch -/

/-- The parameters of `BATCH_INSERT_TRANSACTION_COMMAND` for one transaction; neither a null
    description nor a time in UTC can be sent. -/
def batchCommand (transaction : Transaction) : Option InsertCommand := do
  let realizadaEm ← timestamp transaction.realizadaEm
  let descricao ← transaction.descricao
  return ⟨transaction.accountId.toInt, transaction.limite.toInt, transaction.saldo.toInt,
    realizadaEm, [transaction.tipo], transaction.valor.toInt, descricao⟩

/-- The row a transaction becomes. -/
def batchRow (transaction : Transaction) : Option Row :=
  (batchCommand transaction).bind insertRow

/-- `ExecuteNonQueryAsync` of the batch: all its rows or, with an exception, none. -/
def executeNonQueryAsync (transactionsToSave : List Transaction) (table : List Row) :
    Option (List Row) :=
  (transactionsToSave.mapM batchRow).map (table ++ ·)

theorem mapM_batchRow_isSome_iff (ts : List Transaction) :
    (ts.mapM batchRow).isSome ↔ ∀ t ∈ ts, (batchRow t).isSome := by
  induction ts with
  | nil => simp
  | cons t ts ih =>
    rw [List.mapM_cons, List.forall_mem_cons, ← ih]
    rcases batchRow t with _ | row
    · simp
    · rcases ts.mapM batchRow with _ | rows
      · simp
      · simp

/-- A batch goes through when each of its rows does. -/
theorem executeNonQueryAsync_isSome_iff (ts : List Transaction) (table : List Row) :
    (executeNonQueryAsync ts table).isSome ↔ ∀ t ∈ ts, (batchRow t).isSome := by
  rw [executeNonQueryAsync, Option.isSome_map, mapM_batchRow_isSome_iff]

/-! ## The columns -/

/-- The values satisfy every constraint of `create-tables.sql`. -/
structure Fits (p : InsertCommand) : Prop where
  accountId : InInt32 p.accountId
  limite : InInt32 p.limite
  saldo : InInt32 p.saldo
  valor : InInt32 p.valor
  tipo : ∃ c, p.tipo = [c] ∧ c ≠ nul
  descricao : p.descricao.length ≤ 10
  storable : nul ∉ p.descricao

/-- Values that fit are inserted. -/
theorem Fits.insertRow_isSome {p : InsertCommand} (h : Fits p) : (insertRow p).isSome := by
  obtain ⟨c, htipo, hc⟩ := h.tipo
  rw [insertRow, integer, if_pos h.accountId, varchar_of_length_le h.descricao, if_neg h.storable,
    htipo, char_singleton, if_neg hc, integer, if_pos h.valor, integer, if_pos h.saldo, integer,
    if_pos h.limite]
  rfl

/-- A text with U+0000 is not. -/
theorem insertRow_of_nul_mem {p : InsertCommand} (h : nul ∈ p.descricao) : insertRow p = none := by
  have hvarchar : varchar 10 p.descricao = none := if_pos h
  rw [insertRow, hvarchar]
  rcases integer p.accountId with _ | accountId
  · rfl
  · rfl

/-- The command of an executed request that carries a description, on a local clock. -/
theorem batchCommand_execute (account : Account) {request : TransactionRequest} {now : DateTime}
    {d : Text} (hnow : now.kind = .localTime) (hd : request.descricao = some d) :
    ∃ command, batchCommand (account.execute request now).2 = some command ∧
      command.descricao = d ∧ command.tipo = [request.tipo] ∧ InInt32 command.accountId ∧
        InInt32 command.limite ∧ InInt32 command.saldo ∧ InInt32 command.valor := by
  obtain ⟨realizadaEm, htime⟩ : ∃ realizadaEm, timestamp now = some realizadaEm := by
    rw [timestamp, if_neg (by rw [hnow]; decide)]
    split
    · exact ⟨_, rfl⟩
    · exact ⟨_, rfl⟩
  have hdesc : (account.execute request now).2.descricao = some d := hd
  rw [batchCommand, Account.execute_realizadaEm, htime, hdesc]
  exact ⟨_, rfl, rfl, rfl, inInt32_toInt _, inInt32_toInt _, inInt32_toInt _, inInt32_toInt _⟩

section Accepted

variable {json : TransactionJson} {s : Stores} {id : Int32} {request : TransactionRequest}
  {account : Account} {now : DateTime}

/-- A valid request fits unless its description contains U+0000. -/
theorem fits_of_valid (hvalid : request.isInvalid = false) (hnow : now.kind = .localTime)
    (hnul : ∀ d, request.descricao = some d → nul ∉ d) :
    ∃ command, batchCommand (account.execute request now).2 = some command ∧ Fits command := by
  obtain ⟨htipo, ⟨d, hd, -, hlength⟩, -⟩ := (request.valid_iff).mp hvalid
  obtain ⟨command, hcommand, rfl, hctipo, hid, hlimite, hsaldo, hvalor⟩ :=
    batchCommand_execute account hnow hd
  refine ⟨command, hcommand, hid, hlimite, hsaldo, hvalor, ⟨_, hctipo, ?_⟩,
    (Text.length_le_length16 _).trans hlength, hnul _ hd⟩
  rcases htipo with htipo | htipo <;>
  · rw [htipo]
    decide

/-- What was accepted fits unless its description contains U+0000. -/
theorem fits_of_accepted (h : TransactionService.Accepted json s id request account)
    (hnow : now.kind = .localTime) (hnul : ∀ d, request.descricao = some d → nul ∉ d) :
    ∃ command, batchCommand (account.execute request now).2 = some command ∧ Fits command :=
  fits_of_valid h.valid hnow hnul

/-- A description with U+0000 makes a row no batch can insert. -/
theorem batchRow_of_nul_mem (hnow : now.kind = .localTime) {d : Text}
    (hd : request.descricao = some d) (hnul : nul ∈ d) :
    batchRow (account.execute request now).2 = none := by
  obtain ⟨command, hcommand, rfl, -⟩ := batchCommand_execute account hnow hd
  rw [batchRow, hcommand, Option.bind_some, insertRow_of_nul_mem hnul]

end Accepted

/-- **When what is accepted can be persisted.**  On a local clock, the row of an accepted request
    satisfies every constraint of the table, and makes no batch fail that goes through without it,
    if and only if its description has no U+0000. -/
theorem accepted_fits_iff (json : TransactionJson) (s : Stores) (id : Int32)
    (request : TransactionRequest) (account : Account) (now : DateTime)
    (h : TransactionService.Accepted json s id request account) (hnow : now.kind = .localTime) :
    ((∃ command, batchCommand (account.execute request now).2 = some command ∧ Fits command) ∧
      ∀ (before after : List Transaction) (table : List Row),
        (executeNonQueryAsync (before ++ after) table).isSome →
          (executeNonQueryAsync (before ++ (account.execute request now).2 :: after) table).isSome)
      ↔ ∀ d, request.descricao = some d → nul ∉ d := by
  constructor
  · rintro ⟨⟨command, hcommand, hfits⟩, -⟩ d hd
    obtain ⟨command', hcommand', rfl, -⟩ := batchCommand_execute account hnow hd
    obtain rfl : command = command' := Option.some.inj (hcommand.symm.trans hcommand')
    exact hfits.storable
  · intro hnul
    obtain ⟨command, hcommand, hfits⟩ := fits_of_accepted h hnow hnul
    refine ⟨⟨command, hcommand, hfits⟩, fun before after table hbatch => ?_⟩
    have hrow : (batchRow (account.execute request now).2).isSome := by
      rw [batchRow, hcommand, Option.bind_some]
      exact hfits.insertRow_isSome
    rw [executeNonQueryAsync_isSome_iff, List.forall_mem_append] at hbatch ⊢
    exact ⟨hbatch.1, List.forall_mem_cons.mpr ⟨hrow, hbatch.2⟩⟩

theorem accepted_fits_iff_credit : (executeNonQueryAsync
    [(Account.execute ⟨1, 1000, 0⟩ TransactionService.creditOfTen (.ofTicks 5 .localTime)).2]
    []).isSome :=
  ((accepted_fits_iff systemTextJson TransactionService.seededStores 1
    TransactionService.creditOfTen ⟨1, 1000, 0⟩ (.ofTicks 5 .localTime)
    TransactionService.seededStores_accepts rfl).mpr fun d hd => by cases hd; decide).2 [] [] []
    rfl

/-- A credit of 10 described by U+0000 is accepted and cannot be stored. -/
theorem accepted_nul_does_not_fit :
    ¬ ∀ (json : TransactionJson) (s : Stores) (id : Int32) (request : TransactionRequest)
        (account : Account) (now : DateTime),
      TransactionService.Accepted json s id request account → now.kind = .localTime →
      ∃ command, batchCommand (account.execute request now).2 = some command ∧ Fits command := by
  intro h
  obtain ⟨command, hcommand, hfits⟩ := h systemTextJson TransactionService.seededStores 1
    ⟨10, 'c', some [nul]⟩ ⟨1, 1000, 0⟩ (.ofTicks 5 .localTime)
    ⟨by decide, TransactionService.seededStores_read, by decide, by decide⟩ rfl
  cases hcommand
  exact absurd hfits.storable (by decide)

/-- **One such description takes the batch with it.**  The saver that executes the batch goes back
    to polling with no row inserted, whatever else it had drained. -/
theorem batch_with_nul_is_dropped (saver : Saver) (elapsed : Bool) (ts : List Transaction)
    (table : List Row) (account : Account) (request : TransactionRequest) (now : DateTime)
    (d : Text)
    (hphase : saver.phase = .executing (ts.map some))
    (hmem : (account.execute request now).2 ∈ ts) (hnow : now.kind = .localTime)
    (hd : request.descricao = some d) (hnul : nul ∈ d) :
    saver.step elapsed (executeNonQueryAsync ts table).isSome
      = some ({ saver with phase := .polling }, []) := by
  have hfails : (executeNonQueryAsync ts table).isSome = false := by
    refine Bool.eq_false_iff.mpr fun hsome => ?_
    have hrow := (executeNonQueryAsync_isSome_iff ts table).mp hsome _ hmem
    rw [batchRow_of_nul_mem hnow hd hnul] at hrow
    cases hrow
  rw [hfails, Saver.step, hphase]
  dsimp only
  rw [commands_eq_some.mpr rfl]

end SaveInBackground

end Rinha
