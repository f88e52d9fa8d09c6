/-
  `Repository`: balances and statements over the `Transactions` table.

  Both reads take the rows of an account in the order of `RealizadaEm` and look at the first of
  them: `GetAccountByIdAsync` at one row, `GetBankStatementAsync` at ten.  The statement asks for
  `ORDER BY RealizadaEm DESC` and the account for `ORDER BY RealizadaEm`, so the statement starts at
  the NEWEST row and the account is read from the OLDEST (`account_is_current_iff`).

  The order of rows with equal times is the database's (`Postgres`); a NULL comes last going up and
  first going down, as if it were later than every time.
-/
import RinhaBackend.Lib.OrderBy
import RinhaBackend.Table

namespace Rinha

open InitializeRedis (Older MostRecent)

namespace Repository

/-! ## Queries -/

/-- The `RealizadaEm` of a row as it is ordered: NULL is above every time. -/
def realizadaEmKey (row : Row) : WithTop Nat :=
  match row.realizadaEm with
  | none => ⊤
  | some t => t.ticks

/-- A database: the orders in which it returns rows. -/
structure Postgres where
  orderByRealizadaEm : OrderBy realizadaEmKey
  orderByRealizadaEmDesc : OrderBy fun row => OrderDual.toDual (realizadaEmKey row)

/-- The one that returns rows with equal times as they are stored. -/
def Postgres.stable : Postgres := ⟨.stable _, .stable _⟩

/-- `WHERE AccountId = @Id`. -/
def ofAccount (table : List Row) (id : Int32) : List Row :=
  table.filter fun row => row.accountId = id

section Reads

variable (pg : Postgres) (id : Int32) (now : DateTime) (table : List Row)

/-- `ReadAccountAsync`, over the rows the query returns. -/
def readAccountAsync (accountId : Int32) : List Row → Account
  | row :: _ => ⟨accountId, row.limite, row.saldo⟩
  | [] => ⟨0, 0, 0⟩

/-- `GetAccountByIdAsync`. -/
def getAccountByIdAsync : Account :=
  readAccountAsync id ((pg.orderByRealizadaEm.sort (ofAccount table id)).take 1)

/-- `GetTransaction`: null for a row without a description or a time. -/
def getTransaction (row : Row) : Option BankStatementTransaction :=
  match row.descricao with
  | none => none
  | some descricao =>
    match row.realizadaEm with
    | none => none
    | some realizadaEm =>
      if realizadaEm.ticks = 0 then none
      else some ⟨row.valor, row.tipo, some descricao, realizadaEm⟩

/-- `ExtractAccountBalanceFromLastAddedSnapshot`: the balance, once there is one, stays. -/
def extractAccountBalanceFromLastAddedSnapshot (row : Row) (balance : Option Balance) :
    Option Balance :=
  match balance with
  | none => some ⟨row.saldo, row.limite, now⟩
  | some balance => some balance

/-- The loop of `CreateBankStatement`. -/
def readRows : List Row → Option Balance → List BankStatementTransaction →
    Option Balance × List BankStatementTransaction
  | [], balance, transactions => (balance, transactions)
  | row :: rows, balance, transactions =>
    readRows rows (extractAccountBalanceFromLastAddedSnapshot now row balance)
      (match getTransaction row with
        | none => transactions
        | some transaction => transactions ++ [transaction])

/-- `CreateBankStatement`; `none` is the null statement. -/
def createBankStatement (reader : List Row) : Option BankStatement :=
  match readRows now reader none [] with
  | (none, _) => none
  | (some balance, transactions) => some ⟨balance, transactions⟩

/-- `GetBankStatementAsync`. -/
def getBankStatementAsync : Option BankStatement :=
  createBankStatement now ((pg.orderByRealizadaEmDesc.sort (ofAccount table id)).take 10)

end Reads

/-! ## The loop -/

theorem readRows_eq (now : DateTime) (rows : List Row) : ∀ (balance : Option Balance)
    (acc : List BankStatementTransaction),
    readRows now rows balance acc
      = (balance.or (rows.head?.map fun row => ⟨row.saldo, row.limite, now⟩),
        acc ++ rows.filterMap getTransaction) := by
  induction rows with
  | nil =>
    intro balance acc
    rw [readRows, List.filterMap_nil, List.append_nil, List.head?_nil, Option.map_none,
      Option.or_none]
  | cons row rows ih =>
    intro balance acc
    rw [readRows, ih, List.head?_cons, Option.map_some, List.filterMap_cons]
    refine Prod.ext ?_ ?_
    · rcases balance with _ | balance <;> rfl
    · rcases getTransaction row with _ | transaction
      · rfl
      · exact List.append_assoc acc [transaction] _

/-- **What a statement is made of**: the balance of the first row, and the rows that can be
    listed. -/
theorem createBankStatement_eq (now : DateTime) (reader : List Row) :
    createBankStatement now reader = reader.head?.map fun row =>
      ⟨⟨row.saldo, row.limite, now⟩, reader.filterMap getTransaction⟩ := by
  rw [createBankStatement, readRows_eq]
  rcases reader with _ | ⟨row, rows⟩ <;> rfl

/-! ## Rows with different times -/

/-- The rows of account `k` have a time each, and no two the same. -/
structure Timed (table : List Row) (k : Int32) : Prop where
  dated : ∀ row ∈ ofAccount table k, row.realizadaEm ≠ none
  distinct : (ofAccount table k).Pairwise fun a b => realizadaEmKey a ≠ realizadaEmKey b

/-- `row` is the least recent row of its account. -/
def LeastRecent (table : List Row) (row : Row) : Prop :=
  row ∈ table ∧ ∀ other ∈ table, other.accountId = row.accountId → other = row ∨ Older row other

theorem mem_ofAccount {table : List Row} {k : Int32} {row : Row} :
    row ∈ ofAccount table k ↔ row ∈ table ∧ row.accountId = k := by
  rw [ofAccount, List.mem_filter, decide_eq_true_eq]

theorem key_lt_of_older {a b : Row} (h : Older a b) : realizadaEmKey a < realizadaEmKey b := by
  obtain ⟨ta, tb, ha, hb, hlt⟩ := h
  rw [realizadaEmKey, realizadaEmKey, ha, hb]
  exact WithTop.coe_lt_coe.mpr hlt

theorem older_asymm {a b : Row} (h : Older a b) : ¬ Older b a :=
  fun h' => lt_asymm (key_lt_of_older h) (key_lt_of_older h')

theorem older_of_key_lt {a b : Row} (hb : b.realizadaEm ≠ none)
    (h : realizadaEmKey a < realizadaEmKey b) : Older a b := by
  obtain ⟨tb, htb⟩ := Option.ne_none_iff_exists'.mp hb
  rw [realizadaEmKey, realizadaEmKey, htb] at h
  rcases ha : a.realizadaEm with _ | ta
  · rw [ha] at h
    exact absurd h (not_lt.mpr le_top)
  · rw [ha] at h
    exact ⟨ta, tb, ha, htb, WithTop.coe_lt_coe.mp h⟩

/-- An account has at most one newest row. -/
theorem mostRecent_unique {table : List Row} {a b : Row} (ha : MostRecent table a)
    (hb : MostRecent table b) (hid : a.accountId = b.accountId) : a = b := by
  rcases hb.2 a ha.1 hid with hab | hab
  · exact hab
  · rcases ha.2 b hb.1 hid.symm with hba | hba
    · exact hba.symm
    · exact absurd hba (older_asymm hab)

/-- And at most one oldest row. -/
theorem leastRecent_unique {table : List Row} {a b : Row} (ha : LeastRecent table a)
    (hb : LeastRecent table b) (hid : a.accountId = b.accountId) : a = b := by
  rcases hb.2 a ha.1 hid with hab | hab
  · exact hab
  · rcases ha.2 b hb.1 hid.symm with hba | hba
    · exact hba.symm
    · exact absurd hba (older_asymm hab)

section Timed

variable {table : List Row} {k : Int32} (h : Timed table k) (pg : Postgres)

include h

/-- Going down, every row is older than those before it. -/
theorem Timed.pairwise_desc :
    (pg.orderByRealizadaEmDesc.sort (ofAccount table k)).Pairwise fun a b => Older b a := by
  have hstrict := pg.orderByRealizadaEmDesc.strict (l := ofAccount table k)
    (h.distinct.imp fun hne heq => hne (OrderDual.toDual_inj.mp heq))
  refine hstrict.imp_of_mem fun {a b} ha _ hlt => ?_
  exact older_of_key_lt (h.dated a ((OrderBy.mem_sort _).mp ha)) (OrderDual.toDual_lt_toDual.mp hlt)

/-- Going up, every row is newer than those before it. -/
theorem Timed.pairwise_asc :
    (pg.orderByRealizadaEm.sort (ofAccount table k)).Pairwise fun a b => Older a b := by
  refine (pg.orderByRealizadaEm.strict h.distinct).imp_of_mem fun {a b} _ hb hlt => ?_
  exact older_of_key_lt (h.dated b ((OrderBy.mem_sort _).mp hb)) hlt

/-- An account with a row has a newest one, the first going down. -/
theorem Timed.exists_last (hrows : ofAccount table k ≠ []) :
    ∃ last rest, pg.orderByRealizadaEmDesc.sort (ofAccount table k) = last :: rest ∧
      MostRecent table last ∧ last.accountId = k := by
  obtain ⟨last, rest, hsort, hmem, hfirst⟩ :=
    pg.orderByRealizadaEmDesc.exists_head hrows (h.pairwise_desc pg)
  obtain ⟨hin, hid⟩ := mem_ofAccount.mp hmem
  refine ⟨last, rest, hsort, ⟨hin, fun other hother hsame => ?_⟩, hid⟩
  exact hfirst other (mem_ofAccount.mpr ⟨hother, hsame.trans hid⟩)

/-- And an oldest one, the first going up. -/
theorem Timed.exists_first (hrows : ofAccount table k ≠ []) :
    ∃ first rest, pg.orderByRealizadaEm.sort (ofAccount table k) = first :: rest ∧
      LeastRecent table first ∧ first.accountId = k := by
  obtain ⟨first, rest, hsort, hmem, hfirst⟩ :=
    pg.orderByRealizadaEm.exists_head hrows (h.pairwise_asc pg)
  obtain ⟨hin, hid⟩ := mem_ofAccount.mp hmem
  refine ⟨first, rest, hsort, ⟨hin, fun other hother hsame => ?_⟩, hid⟩
  exact hfirst other (mem_ofAccount.mpr ⟨hother, hsame.trans hid⟩)

end Timed

/-! ## The account -/

/-- The account is read with the limit and balance of `last`, which the statement shows too. -/
def ReadsCurrent (pg : Postgres) (id : Int32) (now : DateTime) (table : List Row) (last : Row) :
    Prop :=
  (getAccountByIdAsync pg id table).limite = last.limite ∧
    (getAccountByIdAsync pg id table).saldo = last.saldo ∧
    ∃ statement, getBankStatementAsync pg id now table = some statement ∧
      (getAccountByIdAsync pg id table).limite = statement.saldo.limite ∧
      (getAccountByIdAsync pg id table).saldo = statement.saldo.total

/-- **The account is read from the oldest row.**  For every table in which the rows of the account
    have different times, the account read has the limit and balance of the most recent row, and so
    those of the statement, if and only if the least recent row has the same. -/
theorem account_is_current_iff (pg : Postgres) (table : List Row) (id : Int32) (now : DateTime)
    (hrows : ofAccount table id ≠ []) (htimed : Timed table id) :
    ∃ first last, LeastRecent table first ∧ first.accountId = id ∧
      MostRecent table last ∧ last.accountId = id ∧
      (ReadsCurrent pg id now table last ↔
        first.limite = last.limite ∧ first.saldo = last.saldo) := by
  obtain ⟨first, after, hasc, hfirst, hfid⟩ := htimed.exists_first pg hrows
  obtain ⟨last, before, hdesc, hlast, hlid⟩ := htimed.exists_last pg hrows
  have haccount : getAccountByIdAsync pg id table = ⟨id, first.limite, first.saldo⟩ := by
    rw [getAccountByIdAsync, hasc]
    rfl
  refine ⟨first, last, hfirst, hfid, hlast, hlid, ?_⟩
  rw [ReadsCurrent, haccount, getBankStatementAsync, hdesc, createBankStatement_eq]
  constructor
  · rintro ⟨hlimite, hsaldo, -⟩
    exact ⟨hlimite, hsaldo⟩
  · rintro ⟨hlimite, hsaldo⟩
    exact ⟨hlimite, hsaldo, _, rfl, hlimite, hsaldo⟩

/-- A debit of 10 on account 1, back to the balance of its seed. -/
def debitRow : Row := ⟨1, some ['b'], 'd', 10, 0, 1000, some (.ofTicks 30 .unspecified)⟩

/-- With a credit and a debit back to the balance of the seed an account is read as it is. -/
theorem account_is_current_iff_debitRow : ReadsCurrent .stable 1 (.ofTicks 40 .localTime)
    [InitializeRedis.seedRow, InitializeRedis.creditRow, debitRow] debitRow := by
  have hoccurs : ∀ row ∈ [InitializeRedis.seedRow, InitializeRedis.creditRow, debitRow],
      (row = InitializeRedis.seedRow ∨ Older InitializeRedis.seedRow row) ∧
        (row = debitRow ∨ Older row debitRow) := by
    intro row hrow
    simp only [List.mem_cons, List.not_mem_nil, or_false] at hrow
    rcases hrow with rfl | rfl | rfl
    · exact ⟨Or.inl rfl, Or.inr ⟨_, _, rfl, rfl, by decide⟩⟩
    · exact ⟨Or.inr ⟨_, _, rfl, rfl, by decide⟩, Or.inr ⟨_, _, rfl, rfl, by decide⟩⟩
    · exact ⟨Or.inr ⟨_, _, rfl, rfl, by decide⟩, Or.inl rfl⟩
  obtain ⟨first, last, hfirst, hfid, hlast, hlid, hiff⟩ := account_is_current_iff .stable
    [InitializeRedis.seedRow, InitializeRedis.creditRow, debitRow] 1 (.ofTicks 40 .localTime)
    (by decide) ⟨by decide, by decide⟩
  obtain rfl : first = InitializeRedis.seedRow := leastRecent_unique hfirst
    ⟨by decide, fun row hrow _ => (hoccurs row hrow).1⟩ hfid
  obtain rfl : last = debitRow := mostRecent_unique hlast
    ⟨by decide, fun row hrow _ => (hoccurs row hrow).2⟩ hlid
  exact hiff.mpr ⟨rfl, rfl⟩

/-- After a credit of 10 the account is still read with the balance of the seed row. -/
theorem account_is_read_from_the_seed : ¬ ∀ (pg : Postgres) (table : List Row) (id : Int32)
    (now : DateTime) (last : Row), ofAccount table id ≠ [] → Timed table id →
    MostRecent table last → last.accountId = id → ReadsCurrent pg id now table last := by
  intro h
  have hlast : MostRecent InitializeRedis.creditedTable InitializeRedis.creditRow := by
    refine ⟨by decide, fun other hother _ => ?_⟩
    rcases List.mem_pair.mp hother with rfl | rfl
    · exact Or.inr ⟨_, _, rfl, rfl, by decide⟩
    · exact Or.inl rfl
  obtain ⟨-, hsaldo, -⟩ := h .stable InitializeRedis.creditedTable 1 (.ofTicks 40 .localTime)
    InitializeRedis.creditRow (by decide) ⟨by decide, by decide⟩ hlast rfl
  exact absurd hsaldo (by decide)

/-! ## The statement -/

/-- What a statement shows of a row. -/
def shownOfRow (row : Row) : Int32 × Char × Option Text × Option DateTime :=
  (row.valor, row.tipo, row.descricao, row.realizadaEm)

/-- What an entry of a statement shows. -/
def shown (x : BankStatementTransaction) : Int32 × Char × Option Text × Option DateTime :=
  (x.valor, x.tipo, x.descricao, some x.realizadaEm)

/-- A row with a description: not a seed. -/
def isDescribed (row : Row) : Bool := row.descricao.isSome

/-- The rows of account `k` with a description. -/
def described (table : List Row) (k : Int32) : List Row := (ofAccount table k).filter isDescribed

/-- A row with a description and a time is listed with what it holds. -/
theorem getTransaction_of_described {row : Row} (hdesc : isDescribed row = true)
    (hdated : row.realizadaEm ≠ none) (hdefault : realizadaEmKey row ≠ 0) :
    ∃ x, getTransaction row = some x ∧ shown x = shownOfRow row := by
  obtain ⟨d, hd⟩ := Option.isSome_iff_exists.mp hdesc
  obtain ⟨t, ht⟩ := Option.ne_none_iff_exists'.mp hdated
  have hticks : t.ticks ≠ 0 := by
    intro hzero
    rw [realizadaEmKey, ht] at hdefault
    exact hdefault (congrArg _ hzero)
  refine ⟨⟨row.valor, row.tipo, some d, t⟩, ?_, by rw [shown, shownOfRow, hd, ht]⟩
  rw [getTransaction, hd, ht]
  exact if_neg hticks

theorem getTransaction_of_not_described {row : Row} (hdesc : ¬ isDescribed row = true) :
    getTransaction row = none := by
  rw [getTransaction, Option.not_isSome_iff_eq_none.mp hdesc]

/-- A statement shows the rows with a description, in the order they are read. -/
theorem shown_filterMap {rows : List Row}
    (h : ∀ row ∈ rows, row.realizadaEm ≠ none ∧ realizadaEmKey row ≠ 0) :
    (rows.filterMap getTransaction).map shown
      = (rows.filter isDescribed).map shownOfRow := by
  induction rows with
  | nil => rfl
  | cons row rows ih =>
    have hrest := ih fun r hr => h r (List.mem_cons_of_mem _ hr)
    by_cases hdesc : isDescribed row = true
    · obtain ⟨hdated, hdefault⟩ := h row List.mem_cons_self
      obtain ⟨x, hx, hshown⟩ := getTransaction_of_described hdesc hdated hdefault
      rw [List.filterMap_cons_some hx, List.filter_cons_of_pos hdesc, List.map_cons, List.map_cons,
        hshown, hrest]
    · rw [List.filterMap_cons_none (getTransaction_of_not_described hdesc),
        List.filter_cons_of_neg hdesc, hrest]

/-- The seed of account `k`, if it has one, is its oldest row. -/
def SeedOldest (table : List Row) (k : Int32) : Prop :=
  ∀ seed ∈ ofAccount table k, seed.descricao = none → ∀ row ∈ ofAccount table k,
    row = seed ∨ Older seed row

/-- In rows from newest to oldest the seed comes last, so that limiting the rows before or after
    leaving it out is the same. -/
theorem filter_take_of_seedOldest {rows : List Row}
    (hsorted : rows.Pairwise fun a b => Older b a)
    (hseed : ∀ seed ∈ rows, seed.descricao = none → ∀ row ∈ rows, row = seed ∨ Older seed row)
    (n : Nat) :
    (rows.take n).filter isDescribed = (rows.filter isDescribed).take n := by
  induction rows generalizing n with
  | nil => rw [List.take_nil, List.filter_nil, List.take_nil]
  | cons row rows ih =>
    obtain ⟨hfirst, hrest⟩ := List.pairwise_cons.mp hsorted
    cases n with
    | zero => rfl
    | succ n =>
      have hrows := ih hrest fun seed hs hdesc other ho =>
        hseed seed (List.mem_cons_of_mem _ hs) hdesc other (List.mem_cons_of_mem _ ho)
      rw [List.take_succ_cons]
      by_cases hdesc : isDescribed row = true
      · rw [List.filter_cons_of_pos hdesc, List.filter_cons_of_pos hdesc, List.take_succ_cons,
          hrows]
      · -- nothing is older than the seed, so nothing follows it
        have hnone : row.descricao = none := Option.not_isSome_iff_eq_none.mp hdesc
        have hempty : rows = [] := by
          refine List.eq_nil_iff_forall_not_mem.mpr fun other ho => ?_
          have holder := key_lt_of_older (hfirst other ho)
          rcases hseed row List.mem_cons_self hnone other (List.mem_cons_of_mem _ ho) with
            rfl | hnewer
          · exact lt_irrefl _ holder
          · exact lt_asymm holder (key_lt_of_older hnewer)
        rw [hempty, List.take_nil, List.filter_cons_of_neg hdesc, List.filter_nil, List.take_nil]

/-- **The statement is the latest ten.**  For every table in which the rows of account `k` have
    different times and its seed, if there is one, is the oldest: the statement is null exactly when
    the account has no row; otherwise it carries the balance of the most recent row and lists, of
    the rows of `k` with a description from the newest to the oldest, the first ten. -/
theorem statement_is_latest_ten (pg : Postgres) (table : List Row) (k : Int32) (now : DateTime)
    (htimed : Timed table k) (hdefault : ∀ row ∈ ofAccount table k, realizadaEmKey row ≠ 0)
    (hseed : SeedOldest table k) :
    (getBankStatementAsync pg k now table = none ↔ ofAccount table k = []) ∧
      (ofAccount table k ≠ [] →
        ∃ (last : Row) (statement : BankStatement) (newest : List Row),
        MostRecent table last ∧ last.accountId = k ∧
        getBankStatementAsync pg k now table = some statement ∧
        statement.saldo = ⟨last.saldo, last.limite, now⟩ ∧
        newest.Perm (described table k) ∧ newest.Pairwise (fun a b => Older b a) ∧
        statement.ultimasTransacoes.map shown = (newest.take 10).map shownOfRow) := by
  have hperm := pg.orderByRealizadaEmDesc.perm (ofAccount table k)
  rw [getBankStatementAsync, createBankStatement_eq]
  constructor
  · rw [Option.map_eq_none_iff, List.head?_eq_none_iff, List.take_eq_nil_iff]
    constructor
    · rintro (hten | hnil)
      · cases hten
      · rw [hnil] at hperm
        exact hperm.nil_eq.symm
    · intro hnil
      rw [hnil] at hperm ⊢
      exact Or.inr hperm.eq_nil
  · intro hrows
    obtain ⟨last, rest, hsort, hlast, hid⟩ := htimed.exists_last pg hrows
    have hdesc := htimed.pairwise_desc pg
    refine ⟨last, ⟨⟨last.saldo, last.limite, now⟩, ((last :: rest).take 10).filterMap
      getTransaction⟩, (last :: rest).filter isDescribed, hlast, hid, ?_, rfl, ?_, ?_, ?_⟩
    · rw [hsort]
      rfl
    · rw [← hsort]
      exact hperm.filter _
    · rw [← hsort]
      exact hdesc.filter _
    · have hmem : ∀ row ∈ last :: rest, row ∈ ofAccount table k := by
        intro row hrow
        rw [← hsort] at hrow
        exact (OrderBy.mem_sort _).mp hrow
      rw [hsort] at hdesc
      rw [shown_filterMap, filter_take_of_seedOldest hdesc]
      · exact fun seed hs hnone row hrow => hseed seed (hmem seed hs) hnone row (hmem row hrow)
      · intro row hrow
        have hin := hmem row (List.mem_of_mem_take hrow)
        exact ⟨htimed.dated row hin, hdefault row hin⟩

/-- A seed row of account 1 and twelve credits of 10, a microsecond apart. -/
def twelveCredits : List Row :=
  ⟨1, none, 'c', 0, 0, 1000, some (.ofTicks 10 .unspecified)⟩ ::
    (List.range 12).map fun i => ⟨1, some ['a'], 'c', 10, Int32.ofNat (10 * (i + 1)), 1000,
      some (.ofTicks (20 + 10 * i) .unspecified)⟩

theorem statement_is_latest_ten_twelveCredits :
    ∃ (statement : BankStatement) (newest : List Row),
    getBankStatementAsync .stable 1 (.ofTicks 200 .localTime) twelveCredits = some statement ∧
      newest.Perm (described twelveCredits 1) ∧ newest.length = 12 ∧
      statement.ultimasTransacoes.map shown = (newest.take 10).map shownOfRow := by
  have hseed : SeedOldest twelveCredits 1 := by
    have hkeys : ∀ seed ∈ ofAccount twelveCredits 1, seed.descricao = none →
        ∀ row ∈ ofAccount twelveCredits 1, row = seed ∨
          row.realizadaEm ≠ none ∧ realizadaEmKey seed < realizadaEmKey row := by
      decide +kernel
    intro seed hin hdesc row hrow
    exact (hkeys seed hin hdesc row hrow).imp_right fun h => older_of_key_lt h.1 h.2
  have htimed : Timed twelveCredits 1 := ⟨by decide +kernel, by decide +kernel⟩
  obtain ⟨-, hsome⟩ := statement_is_latest_ten .stable twelveCredits 1 (.ofTicks 200 .localTime)
    htimed (by decide +kernel) hseed
  obtain ⟨last, statement, newest, -, -, hstatement, -, hperm, -, hlist⟩ :=
    hsome (by decide +kernel)
  refine ⟨statement, newest, hstatement, hperm, ?_, hlist⟩
  rw [hperm.length_eq]
  decide +kernel

end Repository

end Rinha
