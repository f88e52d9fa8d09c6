/-
  What can stand in the cache.

  From a start-up over a table with at most one seed row for each account, under any interleaving of
  POST requests, statements and further start-ups, every member under the key of an account is a
  record of THAT account with the limit of its seed row, and it is the seed or a valid movement; an
  account without a seed row never gets a member (`members_are_records`).

  Nothing in `Save` checks any of it: the key is taken from the record, the limit is copied.  It
  holds because the endpoint validates, `Execute` copies, and both start from what was read
  (`inherited_recordOf`).
-/
import RinhaBackend.ServiceRun

namespace Rinha

namespace RecordInvariant

open CachedRepository InitializeRedis ServiceRun
open RequestRun (Executed)

/-- What a valid request leaves: a credit or a debit of a non-negative amount, with a description of
    1 to 10 UTF-16 units. -/
structure Movement (t : Transaction) : Prop where
  tipo : t.tipo = Transaction.credit ∨ t.tipo = Transaction.debt
  valor : 0 ≤ t.valor
  descricao : ∃ d, t.descricao = some d ∧ 1 ≤ d.length16 ∧ d.length16 ≤ 10

/-- What the start-up service stores for a row: no amount, a credit, an empty description. -/
structure Seed (row : Row) (t : Transaction) : Prop where
  record : seed? row = some t
  valor : t.valor = 0
  tipo : t.tipo = Transaction.credit
  descricao : t.descricao = some []

/-- A record of account `id`: with the limit of a seed row of the account, the record of that row or
    a movement. -/
def RecordOf (rows : List Row) (id : Int32) (t : Transaction) : Prop :=
  t.accountId = id ∧ ∃ row ∈ seedRows rows id, t.limite = row.limite ∧ (Seed row t ∨ Movement t)

theorem recordOf_seed {rows : List Row} {row : Row} (hrow : row ∈ rows) {t : Transaction}
    (h : seed? row = some t) : RecordOf rows row.accountId t := by
  obtain ⟨hdesc, realizadaEm, rfl⟩ := eq_of_seed? h
  refine ⟨rfl, row, List.mem_filter.mpr ⟨hrow, decide_eq_true ⟨rfl, hdesc⟩⟩, rfl, Or.inl ?_⟩
  exact ⟨h, rfl, rfl, rfl⟩

/-- A valid request makes a movement. -/
theorem movement_of_executed {request : TransactionRequest} {account : Account} {t : Transaction}
    (h : Executed request account t) : Movement t := by
  obtain ⟨htipo, ⟨d, hd, hpos, hle⟩, hvalor⟩ := (request.valid_iff).mp h.valid
  obtain ⟨now, rfl⟩ := h.made
  exact ⟨htipo, hvalor, d, hd, hpos, hle⟩

/-- `Execute` copies the account and its limit. -/
theorem inherited_recordOf (rows : List Row) : Inherited (RecordOf rows) where
  accountId h := h.1
  execute := by
    rintro id u request t ⟨hid, row, hrow, hlimite, -⟩ hex
    have hmovement := movement_of_executed hex
    obtain ⟨now, rfl⟩ := hex.made
    refine ⟨?_, row, hrow, ?_, Or.inr hmovement⟩
    · rw [Account.execute_accountId]
      exact hid
    · rw [Account.execute_limite]
      exact hlimite

/-- **Every member is a record of its account**, in every state reached from a seeded cache by steps
    of requests, valid or not, on any accounts and of further start-ups over the same table; and no
    member is ever stored for an account the table has no seed row of. -/
theorem members_are_records (json : TransactionJson) (rows : List Row)
    (hone : ∀ id, (seedRows rows id).length ≤ 1) (s s' : State)
    (hs : s.posts.redis = (executeAsync json rows Redis.empty).1)
    (hfresh : RequestRun.Fresh s.posts) (hstart : ∀ r ∈ s.startUps, r = rows)
    (actions : List Action) (hrun : Transition.run (step json) s actions = some s') (id : Int32) :
    (∀ e ∈ (s'.posts.redis (getBankStatementKey id)).entries, ∃ row t, seedRows rows id = [row] ∧
        e = entryOf json t ∧ t.accountId = id ∧ t.limite = row.limite ∧
        (Seed row t ∨ Movement t)) ∧
      (seedRows rows id = [] → (s'.posts.redis (getBankStatementKey id)).entries = []) := by
  have hstored : Records json (RecordOf rows) s.posts.redis := by
    rw [hs]
    exact executeAsync_records json (fun _ hrow _ h => recordOf_seed hrow h)
      fun _ _ he => nomatch he
  have hheld : ∀ c ∈ s.posts.calls, Holds (RecordOf rows) c.accountId c.phase := by
    intro c hc account haccount
    rw [hfresh c hc] at haccount
    cases haccount
  have hseeds : ∀ r ∈ s.startUps, ∀ row ∈ r, ∀ t, seed? row = some t →
      RecordOf rows row.accountId t := by
    intro r hr row hrow t h
    rw [hstart r hr] at hrow
    exact recordOf_seed hrow h
  have hend : Faithful json (RecordOf rows) s' := Transition.run_invariant (step json)
    (fun _ _ _ hI h => faithful_step (inherited_recordOf rows) hI h)
    ⟨hfresh.allSound, hstored, hheld, hseeds⟩ hrun
  have hmember : ∀ e ∈ (s'.posts.redis (getBankStatementKey id)).entries, ∃ row t,
      seedRows rows id = [row] ∧ e = entryOf json t ∧ t.accountId = id ∧ t.limite = row.limite ∧
      (Seed row t ∨ Movement t) := by
    intro e he
    obtain ⟨t, rfl, hid, row, hrow, hlimite, hkind⟩ := hend.stored id e he
    have hrows : seedRows rows id = [row] := by
      rcases hcases : seedRows rows id with _ | ⟨first, rest⟩
      · rw [hcases] at hrow
        cases hrow
      · have hlength := hone id
        rw [hcases, List.length_cons] at hlength
        obtain rfl : rest = [] := List.eq_nil_of_length_eq_zero (by omega)
        rw [hcases, List.mem_singleton] at hrow
        rw [hrow]
    exact ⟨row, t, hrows, rfl, hid, hlimite, hkind⟩
  refine ⟨hmember, fun hnone => List.eq_nil_iff_forall_not_mem.mpr fun e he => ?_⟩
  obtain ⟨row, t, hrows, -⟩ := hmember e he
  rw [hnone] at hrows
  cases hrows

/-- A credit on account 1 with a statement and a restart. -/
def busy : State :=
  ⟨⟨seededCache, [], fun _ => 0, [⟨0, 1, TransactionService.creditOfTen, .received⟩]⟩,
    [⟨1, 1, none⟩], [[seedRow]]⟩

theorem members_are_records_busy :
    ∃ s', Transition.run (step systemTextJson) busy
        (List.replicate 5 (.post ⟨0, .ofTicks 5 .localTime⟩)
          ++ [.startUp 0, .extrato 0 (.ofTicks 6 .localTime)]) = some s' ∧
      (s'.posts.redis (getBankStatementKey 1)).entries.length = 2 ∧
      (∀ e ∈ (s'.posts.redis (getBankStatementKey 1)).entries, ∃ t,
        e = entryOf systemTextJson t ∧ t.accountId = 1 ∧ t.limite = 1000 ∧
        (Seed seedRow t ∨ Movement t)) ∧
      (s'.posts.redis (getBankStatementKey 2)).entries = [] := by
  have hdone : (Transition.run (step systemTextJson) busy
      (List.replicate 5 (.post ⟨0, .ofTicks 5 .localTime⟩)
        ++ [.startUp 0, .extrato 0 (.ofTicks 6 .localTime)])).any (fun s' =>
      (s'.posts.redis (getBankStatementKey 1)).entries.length = 2) = true := by decide +kernel
  obtain ⟨s', hrun, htwo⟩ := (Option.any_eq_true _ _).mp hdone
  have hrecords := members_are_records systemTextJson [seedRow]
    (fun _ => List.length_filter_le _ _) busy s' rfl (fun c hc => by rw [List.mem_singleton.mp hc])
    (fun r hr => List.mem_singleton.mp hr) _ hrun
  refine ⟨s', hrun, of_decide_eq_true htwo, fun e he => ?_, (hrecords 2).2 (by decide)⟩
  obtain ⟨row, t, hrow, ht, hid, hlimite, hkind⟩ := (hrecords 1).1 e he
  cases hrow
  exact ⟨t, ht, hid, hlimite, hkind⟩

end RecordInvariant

end Rinha
