/-
  Which accounts exist, according to each of the two endpoints.

  A POST finds no account when its set is empty, or when the account read is all zero, its id
  included; with no account 0 in the table the second never happens.  A statement is absent when the
  set is empty, or when the balance read is all zero, and a balance has no id.  So the endpoints
  agree on an account unless the record its statement is read from has `Saldo` and `Limite` 0
  (`endpoints_agree_iff_shown`): such an account takes POSTs and has no statement.

  Along a run the account of a seed row is a ledger: its limit stays the row's, and its balance is
  the row's moved by one posting for each request (`serveAll_refines`).  So which accounts the
  endpoints disagree on can be told from the row and the requests: those with limit 0 whose ledger
  stands at 0 (`endpoints_agree_iff`).
-/
import RinhaBackend.SequentialRun

namespace Rinha

namespace AccountExistence

open CachedRepository InitializeRedis SequentialRun
open Endpoints (makeTransactionAsync)

/-! ## No account 0 -/

/-- A record of account `id`, which is not 0. -/
def OfAccount (id : Int32) (t : Transaction) : Prop := t.accountId = id ∧ id ≠ 0

section Runs

variable {json : TransactionJson}

/-- Seed rows of accounts other than 0 leave such records. -/
theorem executeAsync_ofAccount {rows : List Row}
    (hids : ∀ row ∈ rows, row.descricao = none → row.accountId ≠ 0) :
    Records json OfAccount (executeAsync json rows Redis.empty).1 := by
  refine executeAsync_records json (fun row hrow t ht => ?_) fun id e he => by cases he
  exact ⟨accountId_of_seed? ht, hids row hrow (eq_of_seed? ht).1⟩

/-- A request saves a record of the account it reads. -/
theorem servePost_ofAccount {s : Stores} (h : Records json OfAccount s.redis) (p : Post) :
    Records json OfAccount (servePost json s p).1.redis := by
  rcases Endpoints.makeTransactionAsync_cases p.now json p.id p.request s with
    ⟨account, haccepted, hmake⟩ | ⟨hsame, -⟩
  · obtain ⟨u, -, ⟨huid, hne⟩, rfl⟩ := h.read haccepted.read
    rw [servePost, hmake]
    refine (h.saveInsert ⟨rfl, ?_⟩).saveTrim _
    rw [Account.execute_accountId, show u.account.id = p.id from huid]
    exact hne
  · rw [servePost, hsame]
    exact h

theorem serveAll_ofAccount (posts : List Post) : ∀ {s : Stores},
    Records json OfAccount s.redis → Records json OfAccount (serveAll json s posts).1.redis := by
  induction posts with
  | nil => exact id
  | cons p posts ih => exact fun h => ih (servePost_ofAccount h p)

end Runs

/-! ## What each endpoint takes for an absent account -/

section Endpoints

variable {json : TransactionJson} {s : Stores} {id : Int32}

/-- A valid POST answers 404 when the set of the account is empty. -/
theorem post_notFound_iff (h : Records json OfAccount s.redis) {request : TransactionRequest}
    (hvalid : request.isInvalid = false) (now : DateTime) :
    (makeTransactionAsync json none id request now s).2 = .ok .notFound ↔
      (s.redis (getBankStatementKey id)).entries = [] := by
  have hnot : ¬ request.isInvalid = true := by rw [hvalid]; decide
  rcases getAccountByIdAsync_of_recorded (h.recorded id) with
    ⟨hempty, hread⟩ | ⟨t, hlast, hread⟩
  · rw [makeTransactionAsync, if_neg hnot, TransactionService.tryExecuteTransactionAsync, hread]
    exact iff_of_true rfl hempty
  · refine iff_of_false (fun hfound => ?_) (List.ne_nil_of_mem (SortedSet.mem_of_last? hlast))
    obtain ⟨u, hu, huid, hne⟩ := h id _ (SortedSet.mem_of_last? hlast)
    obtain rfl := entryOf_injective json hu
    have hnonempty : (Account.mk t.accountId t.limite t.saldo).isEmpty = false :=
      decide_eq_false fun hzero => hne (huid.symm.trans hzero.1)
    by_cases hcan : (Account.mk t.accountId t.limite t.saldo).canExecute request = true
    · rw [Endpoints.makeTransactionAsync_of_accepted now ⟨hvalid, hread, hnonempty, hcan⟩] at hfound
      cases hfound
    · rw [Endpoints.makeTransactionAsync_of_refused now hvalid hread hnonempty
        (Bool.eq_false_iff.mpr hcan)] at hfound
      cases hfound

/-- A statement is absent when the set is empty, or the record it is read from all zero. -/
theorem statement_notFound_iff (h : Recorded json (s.redis (getBankStatementKey id)))
    (now : DateTime) :
    Endpoints.getBankStatementAsync json id now s = .ok .notFound ↔
      ∀ t, ((s.redis (getBankStatementKey id)).entries.take 11).getLast? = some (entryOf json t) →
        t.saldo = 0 ∧ t.limite = 0 := by
  rw [Endpoints.getBankStatementAsync, TransactionService.getBankStatementAsync]
  by_cases hempty : (s.redis (getBankStatementKey id)).entries = []
  · rw [getBankStatementAsync_of_empty now hempty, hempty]
    exact iff_of_true rfl fun t ht => by cases ht
  · obtain ⟨low, t, htake⟩ := h.exists_shown hempty
    rw [getBankStatementAsync_of_records now htake, getLast?_of_records htake]
    by_cases hzero : t.saldo = 0 ∧ t.limite = 0
    · rw [if_pos hzero]
      refine iff_of_true rfl fun u hu => ?_
      obtain rfl := entryOf_injective json (Option.some.inj hu)
      exact hzero
    · rw [if_neg hzero]
      dsimp only
      rw [BankStatement.isEmpty, Balance.isEmpty, if_neg fun hc => hzero (of_decide_eq_true hc)]
      exact iff_of_false (fun hc => by cases hc) fun hall => hzero (hall t rfl)

end Endpoints

/-- Whatever the scores and the seed rows, the endpoints agree unless the record the statement is
    read from has `Saldo` and `Limite` 0. -/
theorem endpoints_agree_iff_shown (json : TransactionJson) (rows : List Row)
    (hids : ∀ row ∈ rows, row.descricao = none → row.accountId ≠ 0) (s : Stores)
    (hs : s.redis = (executeAsync json rows Redis.empty).1) (posts : List Post) (id : Int32)
    (request : TransactionRequest) (hvalid : request.isInvalid = false) (now now' : DateTime) :
    (Endpoints.getBankStatementAsync json id now (serveAll json s posts).1 = .ok .notFound ↔
        (makeTransactionAsync json none id request now' (serveAll json s posts).1).2
          = .ok .notFound) ↔
      ∀ t, (((serveAll json s posts).1.redis (getBankStatementKey id)).entries.take 11).getLast?
        = some (entryOf json t) → ¬ (t.saldo = 0 ∧ t.limite = 0) := by
  have hstored : Records json OfAccount (serveAll json s posts).1.redis := by
    refine serveAll_ofAccount posts ?_
    rw [hs]
    exact executeAsync_ofAccount hids
  have hrecorded := hstored.recorded id
  rw [post_notFound_iff hstored hvalid, statement_notFound_iff hrecorded]
  by_cases hempty : ((serveAll json s posts).1.redis (getBankStatementKey id)).entries = []
  · rw [hempty]
    refine iff_of_true (iff_of_true (fun t ht => ?_) rfl) fun t ht => ?_
    · cases ht
    · cases ht
  · obtain ⟨low, t, htake⟩ := hrecorded.exists_shown hempty
    rw [iff_false_right hempty, getLast?_of_records htake]
    constructor
    · intro hnot u hu hzero
      obtain rfl := entryOf_injective json (Option.some.inj hu)
      refine hnot fun v hv => ?_
      obtain rfl := entryOf_injective json (Option.some.inj hv)
      exact hzero
    · exact fun hne hall => hne t rfl (hall t rfl)

/-! ## The balance of an account along a run -/

/-- The postings of the requests on account `k`, in order. -/
def postings (k : Int32) (posts : List Post) : List Ledger.Posting :=
  (posts.filter fun p => p.id = k).map fun p => p.request.posting

section Balances

variable {json : TransactionJson} {k L : Int32} {seed : Transaction}

theorem postings_cons_of_eq {p : Post} (hid : p.id = k) (posts : List Post) :
    postings k (p :: posts) = p.request.posting :: postings k posts := by
  have hkept : decide (p.id = k) = true := decide_eq_true hid
  rw [postings, List.filter_cons, hkept, if_pos rfl, List.map_cons, ← postings]

theorem postings_cons_of_ne {p : Post} (hid : p.id ≠ k) (posts : List Post) :
    postings k (p :: posts) = postings k posts := by
  have hdropped : decide (p.id = k) = false := decide_eq_false hid
  rw [postings, List.filter_cons, hdropped, if_neg Bool.false_ne_true, ← postings]

/-- **A run moves the balance of an account as a ledger does**, one posting for each request on the
    account; the requests on other accounts are nothing to it. -/
theorem serveAll_refines (hk : k ≠ 0) (posts : List Post) :
    ∀ {s : Stores} {ts : List Transaction} {b : Int}, Keyed json s.redis →
      Window json k seed ts s.redis → InOrder k seed ts (serveAll json s posts).2 →
      Refines json k L b s →
      Refines json k L (Ledger.postAll L.toInt b (postings k posts)).1
        (serveAll json s posts).1 := by
  induction posts with
  | nil => exact fun _ _ _ h => h
  | cons p posts ih =>
    intro s ts b hkeyed hwindow hinc h
    have hstep := window_step hkeyed hwindow hinc
    by_cases hid : p.id = k
    · -- a success is scored above everything stored, and the window slides on
      rw [postings_cons_of_eq hid]
      have hserve : makeTransactionAsync json none k p.request p.now s = servePost json s p := by
        rw [servePost, hid]
      have hclock : (∃ body, (servePost json s p).2 = .ok (.ok body)) →
          ∀ e ∈ (s.redis (getBankStatementKey k)).entries, SortedSet.score e < p.now.score := by
        rintro ⟨body, hbody⟩ e he
        obtain ⟨-, ⟨hno, -⟩ | ⟨-, t, -, -, hlt, -⟩⟩ := hstep
        · rw [isAccepted_of_ok hid hbody] at hno
          cases hno
        · exact (hwindow.score_le he).trans_lt hlt
      rw [← hserve] at hclock
      have hposted := (makeTransactionAsync_refines_post hk h p.request p.now hclock).2
      rw [hserve] at hposted
      obtain ⟨hkeyed', ⟨-, hwindow', hinc'⟩ | ⟨-, t, -, -, -, hwindow', hinc'⟩⟩ := hstep
      · exact ih hkeyed' hwindow' hinc' hposted
      · exact ih hkeyed' hwindow' hinc' hposted
    · -- a request on another account leaves the set of `k`
      rw [postings_cons_of_ne hid]
      obtain ⟨hkeyed', ⟨-, hwindow', hinc'⟩ | ⟨hsame, -⟩⟩ := hstep
      · refine ih hkeyed' hwindow' hinc' (h.congr ?_)
        obtain ⟨-, hset⟩ := (servePost_cases hkeyed k p).2.resolve_right fun hc => hid hc.1
        exact hset
      · exact absurd hsame hid

end Balances

/-- **When the two endpoints agree that an account exists.**  For every table with one seed row for
    each account, none of them account 0, after every sequential run with increasing scores, and for
    every id: a statement is answered with 404 exactly when a valid POST would be, if and only if
    the account has no seed row, or the limit of that row is not 0, or the ledger that starts at the
    row's balance and takes the requests of the run on the account does not stand at 0. -/
theorem endpoints_agree_iff (json : TransactionJson) (rows : List Row) (h : SeedTable rows)
    (hids : ∀ row ∈ rows, row.descricao = none → row.accountId ≠ 0) (s : Stores)
    (hs : s.redis = (executeAsync json rows Redis.empty).1) (posts : List Post) (id : Int32)
    (hinc : ∀ row ∈ seedRows rows id, ∀ seed, seed? row = some seed →
      Increasing id seed (serveAll json s posts).2)
    (request : TransactionRequest) (hvalid : request.isInvalid = false) (now now' : DateTime) :
    (Endpoints.getBankStatementAsync json id now (serveAll json s posts).1 = .ok .notFound ↔
        (makeTransactionAsync json none id request now' (serveAll json s posts).1).2
          = .ok .notFound) ↔
      ∀ row ∈ seedRows rows id, ¬ (row.limite = 0 ∧
        (Ledger.postAll row.limite.toInt row.saldo.toInt (postings id posts)).1 = 0) := by
  rw [endpoints_agree_iff_shown json rows hids s hs posts id request hvalid]
  have hkeyed : Keyed json s.redis := by
    rw [hs]
    exact (h.seededCache json).keyed
  rcases h.seedRows_cases id with hnone | ⟨row, seed, hone, hrow, hof⟩
  · -- no seed row: there is never a record of the account
    have hempty : (s.redis (getBankStatementKey id)).entries = [] := by
      rcases h.executeAsync_set id json Redis.empty with ⟨-, hset⟩ | ⟨row, -, hone, -⟩
      · rw [hs, hset]
        rfl
      · rw [hnone] at hone
        cases hone
    rw [serveAll_of_noRecord posts hkeyed hempty, hnone]
    refine iff_of_true (fun t ht => ?_) fun row hrow => ?_
    · cases ht
    · cases hrow
  · -- the account is the ledger of its row
    have hmem : row ∈ seedRows rows id := by
      rw [hone]
      exact List.mem_singleton_self row
    obtain ⟨hin, hprops⟩ := List.mem_filter.mp hmem
    obtain ⟨hid, hdesc⟩ := of_decide_eq_true hprops
    have hk : id ≠ 0 := hid ▸ hids row hin hdesc
    have hseed : (s.redis (getBankStatementKey id)).entries = [entryOf json seed] := by
      rw [hs]
      exact h.entries_of_seedRows id json hone hrow
    have hstart : Refines json id seed.limite seed.saldo.toInt s :=
      refines_of_seed hseed hof.accountId
    have hend := serveAll_refines hk posts hkeyed (window_nil hseed)
      (inOrder_nil (hinc row hmem seed hrow)) hstart
    obtain ⟨t, hshown, hlimite, hsaldo⟩ := hend.exists_shown
    obtain ⟨-, realizadaEm, rfl⟩ := eq_of_seed? hrow
    have hzero : t.saldo = 0 ↔
        (Ledger.postAll row.limite.toInt row.saldo.toInt (postings id posts)).1 = 0 := by
      rw [← Int32.toInt_inj, hsaldo]
      exact Iff.rfl
    have hlimit : t.limite = row.limite := hlimite
    rw [hshown, hone, List.forall_mem_singleton, ← hzero, ← hlimit, and_comm]
    constructor
    · exact fun hall => hall t rfl
    · intro hne u hu
      obtain rfl := entryOf_injective json (Option.some.inj hu)
      exact hne

/-- A credit, a debit past the balance, and a credit back to it. -/
def throughZero : List Post :=
  [⟨1, ⟨10, 'c', some ['a']⟩, .ofTicks 10 .localTime⟩,
    ⟨1, ⟨20, 'd', some ['b']⟩, .ofTicks 20 .localTime⟩,
    ⟨1, ⟨10, 'c', some ['c']⟩, .ofTicks 30 .localTime⟩]

theorem endpoints_agree_iff_throughZero :
    (accepted 1 (serveAll systemTextJson TransactionService.seededStores throughZero).2).length
        = 3 ∧
      (Ledger.postAll 1000 0 (postings 1 throughZero)).1 = 0 ∧
      (Endpoints.getBankStatementAsync systemTextJson 1 (.ofTicks 40 .localTime)
          (serveAll systemTextJson TransactionService.seededStores throughZero).1 = .ok .notFound ↔
        (makeTransactionAsync systemTextJson none 1 TransactionService.creditOfTen
          (.ofTicks 40 .localTime)
          (serveAll systemTextJson TransactionService.seededStores throughZero).1).2
            = .ok .notFound) := by
  have hrun : (fun r : Stores × List Served =>
      Increasing 1 InitializeRedis.seedRecord r.2 ∧ (accepted 1 r.2).length = 3)
      (serveAll systemTextJson TransactionService.seededStores throughZero) := by
    unfold Increasing
    decide +kernel
  obtain ⟨hinc, hthree⟩ := hrun
  refine ⟨hthree, by decide, (endpoints_agree_iff systemTextJson [seedRow] seedTable_seedRow
    (by decide) TransactionService.seededStores rfl throughZero 1 (fun row hrow seed hseed => ?_)
    TransactionService.creditOfTen (by decide) (.ofTicks 40 .localTime)
    (.ofTicks 40 .localTime)).mpr (by decide)⟩
  obtain rfl := List.mem_singleton.mp (List.mem_of_mem_filter hrow)
  cases hseed
  exact hinc

/-- The row of an account with no limit and no balance. -/
def zeroRow : Row := ⟨1, none, 'c', 0, 0, 0, some (.ofTicks 0 .unspecified)⟩

/-- The stores after a start-up over that row. -/
def zeroStores : Stores := ⟨(executeAsync systemTextJson [zeroRow] Redis.empty).1, [], 0⟩

theorem zeroStores_entries : (zeroStores.redis (getBankStatementKey 1)).entries
    = [entryOf systemTextJson (seedTransaction zeroRow (.ofTicks 0 .unspecified))] := rfl

theorem zeroStores_ofAccount : Records systemTextJson OfAccount zeroStores.redis :=
  executeAsync_ofAccount (by decide)

/-- Account 1 with limit and balance 0 takes a credit, and has no statement. -/
theorem account_without_statement_takes_credits :
    ¬ ∀ (rows : List Row) (s : Stores) (posts : List Post) (id : Int32)
        (request : TransactionRequest) (now now' : DateTime),
      SeedTable rows →
      (∀ row ∈ rows, row.descricao = none → row.accountId ≠ 0 ∧ 0 ≤ row.limite) →
      s.redis = (executeAsync systemTextJson rows Redis.empty).1 →
      (∀ k seed, Increasing k seed (serveAll systemTextJson s posts).2) →
      request.isInvalid = false →
      (Endpoints.getBankStatementAsync systemTextJson id now (serveAll systemTextJson s posts).1
          = .ok .notFound ↔
        (makeTransactionAsync systemTextJson none id request now'
          (serveAll systemTextJson s posts).1).2 = .ok .notFound) := by
  intro h
  have hagree := h [zeroRow] zeroStores [] 1 TransactionService.creditOfTen
    (.ofTicks 5 .localTime) (.ofTicks 5 .localTime) ⟨fun _ => List.length_filter_le _ _, by decide⟩
    (by decide) rfl (fun _ _ => List.pairwise_singleton _ _) (by decide)
  have habsent := (statement_notFound_iff (zeroStores_ofAccount.recorded 1)
    (.ofTicks 5 .localTime)).mpr fun t ht => by
      rw [zeroStores_entries, List.take_of_length_le (by decide), List.getLast?_singleton] at ht
      rw [← entryOf_injective systemTextJson (Option.some.inj ht)]
      exact ⟨rfl, rfl⟩
  have hempty := (post_notFound_iff zeroStores_ofAccount (by decide) _).mp (hagree.mp habsent)
  rw [zeroStores_entries] at hempty
  cases hempty

end AccountExistence

end Rinha
