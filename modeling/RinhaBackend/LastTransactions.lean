/-
  What a statement lists after a sequential run.

  The window of an account mixes the seed with the records of accepted requests until ten of them
  have pushed it out, and `GetLastTransactionsAsync` skips a record with no description at index 0
  only.  So the seed is skipped while it is alone, is LISTED as long as one to nine requests have
  been accepted, and is gone from the tenth on; an account whose limit and balance are both 0 gets
  the empty statement whatever it holds.  `statement_lists_last_ten_iff` puts the four cases
  together.
-/
import RinhaBackend.SequentialRun

namespace Rinha

namespace LastTransactions

open CachedRepository SequentialRun

/-- The statement of account `k` lists exactly the last ten successes, newest first. -/
def ListsLastTen (json : TransactionJson) (k : Int32) (now : DateTime) (db : Redis)
    (log : List Served) : Prop :=
  ∃ statement, CachedRepository.getBankStatementAsync json k now db = .ok statement ∧
    statement.ultimasTransacoes = ((accepted k log).map Served.listed).reverse.take 10

theorem listsLastTen_iff {json : TransactionJson} {k : Int32} {now : DateTime} {db : Redis}
    {log : List Served} {statement : BankStatement}
    (h : CachedRepository.getBankStatementAsync json k now db = .ok statement) :
    ListsLastTen json k now db log ↔
      statement.ultimasTransacoes = ((accepted k log).map Served.listed).reverse.take 10 := by
  constructor
  · rintro ⟨statement', hstatement, hlist⟩
    rw [h] at hstatement
    cases hstatement
    exact hlist
  · exact fun hlist => ⟨statement, h, hlist⟩

/-- Records whose newest has a description are all listed, newest first. -/
theorem listed_of_records {low : List Transaction} {t : Transaction}
    (hdesc : ¬ (t.descricao = none ∨ t.descricao = some [])) :
    listedFirst t ++ low.reverse.map Transaction.listed
      = ((low ++ [t]).map Transaction.listed).reverse := by
  rw [listedFirst, if_neg hdesc, List.map_append, List.map_singleton, List.reverse_append,
    List.reverse_singleton, List.map_reverse]

section Windows

variable {json : TransactionJson} {k : Int32} {seed : Transaction} {db : Redis}

/-- Up to nine records stand on the seed. -/
theorem entries_of_short {low : List Transaction} {t : Transaction}
    (h : Window json k seed (low ++ [t]) db) (hshort : (low ++ [t]).length ≤ 9) :
    (db (getBankStatementKey k)).entries.take 11 = (seed :: low ++ [t]).map (entryOf json) := by
  rw [h, show (low ++ [t]).length - 9 = 0 by omega, List.drop_zero, List.take_of_length_le]
  · rfl
  · rw [List.length_map, List.length_cons]
    omega

/-- From ten records on, the seed is gone. -/
theorem entries_of_long {low : List Transaction} {t : Transaction}
    (h : Window json k seed (low ++ [t]) db) (hlong : 10 ≤ (low ++ [t]).length) :
    (db (getBankStatementKey k)).entries.take 11
      = (low.drop ((low ++ [t]).length - 10) ++ [t]).map (entryOf json) := by
  have hlength : (low ++ [t]).length = low.length + 1 := List.length_append
  have hdrop : (seed :: (low ++ [t])).drop ((low ++ [t]).length - 9)
      = low.drop ((low ++ [t]).length - 10) ++ [t] := by
    rw [show (low ++ [t]).length - 9 = (low ++ [t]).length - 10 + 1 by omega, List.drop_succ_cons,
      List.drop_append_of_le_length (by omega)]
  rw [h, ← List.map_drop, hdrop, List.take_of_length_le]
  rw [List.length_map, List.length_append, List.length_drop, List.length_singleton, hlength]
  omega

/-- The records of the window, against the last ten of all. -/
theorem reverse_take_ten (low : List Transaction) (t : Transaction)
    (hlong : 10 ≤ (low ++ [t]).length) :
    ((low.drop ((low ++ [t]).length - 10) ++ [t]).map Transaction.listed).reverse
      = ((low ++ [t]).map Transaction.listed).reverse.take 10 := by
  have hlength : (low ++ [t]).length = low.length + 1 := List.length_append
  rw [List.take_reverse, List.length_map, ← List.map_drop,
    List.drop_append_of_le_length (by omega)]

/-- The statement of a seed alone: it stands at index 0, and is skipped. -/
theorem statement_of_seed (now : DateTime) (h : Window json k seed [] db)
    (hdesc : seed.descricao = some []) :
    ∃ statement, CachedRepository.getBankStatementAsync json k now db = .ok statement ∧
      statement.ultimasTransacoes = [] := by
  have htake : (db (getBankStatementKey k)).entries.take 11 =
      ([] ++ [seed]).map (entryOf json) := by
    rw [h]
    rfl
  refine ⟨_, getBankStatementAsync_of_records now htake, ?_⟩
  rw [listedFirst, if_pos (Or.inr hdesc)]
  split <;> rfl

/-- The statement of up to nine records: the seed stands below them, and is listed after them. -/
theorem statement_of_short (now : DateTime) {low : List Transaction} {t : Transaction}
    (h : Window json k seed (low ++ [t]) db) (hshort : (low ++ [t]).length ≤ 9)
    (hdesc : ¬ (t.descricao = none ∨ t.descricao = some [])) :
    CachedRepository.getBankStatementAsync json k now db
      = .ok (if t.saldo = 0 ∧ t.limite = 0 then BankStatement.default now else
          ⟨⟨t.saldo, t.limite, now⟩, ((seed :: low ++ [t]).map Transaction.listed).reverse⟩) := by
  rw [getBankStatementAsync_of_records now (entries_of_short h hshort), listed_of_records hdesc]

/-- The statement of ten records or more: the last ten. -/
theorem statement_of_long (now : DateTime) {low : List Transaction} {t : Transaction}
    (h : Window json k seed (low ++ [t]) db) (hlong : 10 ≤ (low ++ [t]).length)
    (hdesc : ¬ (t.descricao = none ∨ t.descricao = some [])) :
    CachedRepository.getBankStatementAsync json k now db
      = .ok (if t.saldo = 0 ∧ t.limite = 0 then BankStatement.default now else
          ⟨⟨t.saldo, t.limite, now⟩,
            ((low ++ [t]).map Transaction.listed).reverse.take 10⟩) := by
  rw [getBankStatementAsync_of_records now (entries_of_long h hlong), listed_of_records hdesc,
    reverse_take_ten low t hlong]

end Windows

/-- **When a statement lists the last ten transactions and nothing else.**  After any sequential
    run on a seeded account, with scores that strictly increase, the statement lists exactly the
    last ten accepted requests if and only if none or at least ten have been accepted, in the
    second case unless the limit and the balance of the account are both 0. -/
theorem statement_lists_last_ten_iff (json : TransactionJson) (k : Int32) (seed : Transaction)
    (s : Stores) (posts : List Post) (now : DateTime) (hcache : SeededCache json s.redis)
    (hseed : (s.redis (getBankStatementKey k)).entries = [entryOf json seed])
    (hinc : Increasing k seed (serveAll json s posts).2) :
    ∃ account,
      getAccountByIdAsync json k (serveAll json s posts).1.redis = .ok (some account) ∧
      (ListsLastTen json k now (serveAll json s posts).1.redis (serveAll json s posts).2 ↔
        (accepted k (serveAll json s posts).2).length = 0 ∨
          10 ≤ (accepted k (serveAll json s posts).2).length ∧
            ¬ (account.saldo = 0 ∧ account.limite = 0)) := by
  obtain ⟨ts, hwindow, hposted⟩ := serveAll_of_seeded hcache hseed posts hinc
  refine ⟨_, getAccountByIdAsync_of_last hwindow.last?, ?_⟩
  rcases List.eq_nil_or_concat' ts with rfl | ⟨low, t, rfl⟩
  · obtain ⟨statement, hstatement, hempty⟩ :=
      statement_of_seed now hwindow (hcache.seedOf hseed).descricao
    rw [listsLastTen_iff hstatement, hempty, ← hposted.map_listed, ← hposted.length_eq]
    exact iff_of_true rfl (Or.inl rfl)
  have hdesc := hposted.descricao t (List.mem_append_right low (List.mem_singleton_self t))
  have hlength : (low ++ [t]).length = low.length + 1 := List.length_append
  rw [List.getLastD_concat]
  by_cases hshort : (low ++ [t]).length ≤ 9
  · -- one entry too many, or none at all
    rw [listsLastTen_iff (statement_of_short now hwindow hshort hdesc), ← hposted.map_listed,
      ← hposted.length_eq]
    refine iff_of_false (fun hlist => ?_) (by omega)
    have hcount := congrArg List.length hlist
    rw [List.length_take, List.length_reverse, List.length_map] at hcount
    split at hcount
    · rw [show (BankStatement.default now).ultimasTransacoes.length = 0 from rfl] at hcount
      omega
    · rw [List.length_reverse, List.length_map, List.length_append, List.length_cons,
        List.length_singleton] at hcount
      omega
  · rw [listsLastTen_iff (statement_of_long now hwindow (by omega) hdesc), ← hposted.map_listed,
      ← hposted.length_eq]
    by_cases hempty : t.saldo = 0 ∧ t.limite = 0
    · -- the balance is taken for that of no account
      rw [if_pos hempty]
      refine iff_of_false (fun hlist => ?_) (by rintro (hnone | ⟨-, hne⟩); omega; exact hne hempty)
      have hcount := congrArg List.length hlist
      rw [List.length_take, List.length_reverse, List.length_map,
        show (BankStatement.default now).ultimasTransacoes.length = 0 from rfl] at hcount
      omega
    · rw [if_neg hempty]
      exact iff_of_true rfl (Or.inr ⟨by omega, hempty⟩)

theorem statement_lists_last_ten_iff_ten : ListsLastTen systemTextJson 1 (.ofTicks 11 .localTime)
    (serveAll systemTextJson TransactionService.seededStores (credits 10)).1.redis
    (serveAll systemTextJson TransactionService.seededStores (credits 10)).2 := by
  have hrun : (fun r : Stores × List Served =>
      Increasing 1 InitializeRedis.seedRecord r.2 ∧ (accepted 1 r.2).length = 10 ∧
        getAccountByIdAsync systemTextJson 1 r.1.redis = .ok (some ⟨1, 1000, 100⟩))
      (serveAll systemTextJson TransactionService.seededStores (credits 10)) := by
    unfold Increasing
    decide +kernel
  obtain ⟨hinc, hten, hread⟩ := hrun
  obtain ⟨account, hread', hiff⟩ := statement_lists_last_ten_iff systemTextJson 1
    InitializeRedis.seedRecord TransactionService.seededStores (credits 10)
    (.ofTicks 11 .localTime) (seedTable_seedRow.seededCache systemTextJson)
    InitializeRedis.seededCache_entries hinc
  rw [hread] at hread'
  cases hread'
  refine hiff.mpr (Or.inr ⟨hten.ge, by decide⟩)

/-- After one accepted credit the statement lists two entries: the credit, and the seed. -/
theorem statement_lists_the_seed :
    ¬ ∀ (k : Int32) (seed : Transaction) (s : Stores) (posts : List Post) (now : DateTime),
      SeededCache systemTextJson s.redis →
      (s.redis (getBankStatementKey k)).entries = [entryOf systemTextJson seed] →
      Increasing k seed (serveAll systemTextJson s posts).2 →
      ListsLastTen systemTextJson k now (serveAll systemTextJson s posts).1.redis
        (serveAll systemTextJson s posts).2 := by
  intro h
  have hrun : (fun r : Stores × List Served => Increasing 1 InitializeRedis.seedRecord r.2 ∧
      (accepted 1 r.2).length = 1 ∧
      (CachedRepository.getBankStatementAsync systemTextJson 1 (.ofTicks 11 .localTime)
        r.1.redis).toOption.map (fun statement => statement.ultimasTransacoes.length) = some 2)
      (serveAll systemTextJson TransactionService.seededStores (credits 1)) := by
    unfold Increasing
    decide +kernel
  obtain ⟨hinc, hone, htwo⟩ := hrun
  obtain ⟨statement, hstatement, hlist⟩ := h 1 InitializeRedis.seedRecord
    TransactionService.seededStores (credits 1) (.ofTicks 11 .localTime)
    (seedTable_seedRow.seededCache systemTextJson) InitializeRedis.seededCache_entries hinc
  rw [hstatement] at htwo
  have hlength : statement.ultimasTransacoes.length = 2 := Option.some.inj htwo
  have hcount := congrArg List.length hlist
  rw [hlength, List.length_take, List.length_reverse, List.length_map, hone] at hcount
  omega

end LastTransactions

end Rinha
