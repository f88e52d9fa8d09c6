/-
  Exact balances over sequential runs.

  A debit that is accepted never wraps (`Account.execute_debt_exact`); a credit is not checked at
  all, and wraps when the balance and the amount pass 2^31 - 1.  So along a run every success
  carries the exact balance if and only if every accepted credit fits, and the first one that does
  not leaves a balance 2^32 too low.

  The induction is on the requests, with the balance of the top record as the exact balance so far:
  a response that is not exact ends it, since neither side of the equivalence then holds.
-/
import RinhaBackend.SequentialRun
import RinhaBackend.LostUpdate

namespace Rinha

namespace ExactBalances

open CachedRepository SequentialRun
open LostUpdate (amount)

/-- The balance `b` with the accepted credits and minus the accepted debits of account `k`, as an
    exact integer. -/
def exactSaldo (k : Int32) (b : Int) (log : List Served) : Int :=
  b + ((accepted k log).map fun x => amount x.post.request).sum

section Definitions

variable (json : TransactionJson) (k : Int32)

/-- The account is read with a balance of at least minus its limit. -/
def WithinLimit (db : Redis) : Prop :=
  ∃ account, getAccountByIdAsync json k db = .ok (some account) ∧
    -account.limite.toInt ≤ account.saldo.toInt

/-- Every success on account `k` carries the exact balance up to and including it, and no credit
    leaves the stored balance below the limit. -/
def ExactResponses (b : Int) (s : Stores) (posts : List Post) : Prop :=
  ∀ n x body, (serveAll json s posts).2[n]? = some x → x.post.id = k →
    x.outcome = .ok (.ok body) →
      body.saldo.toInt = exactSaldo k b ((serveAll json s posts).2.take (n + 1)) ∧
        (x.post.request.tipo = Transaction.credit →
          WithinLimit json k (serveAll json s (posts.take (n + 1))).1.redis)

/-- A credit that is about to be accepted on account `k` fits the balance stored. -/
def CreditFits (s : Stores) (p : Post) : Prop :=
  p.id = k → p.request.tipo = Transaction.credit → ∀ account,
    TransactionService.Accepted json s k p.request account →
      account.saldo.toInt + p.request.valor.toInt < 2 ^ 31

end Definitions

/-! ## One record -/

section Records

variable {u t : Transaction} {p : Post}

/-- **When a record is exact**: always for a debit, and for a credit if the sum fits. -/
theorem saldo_exact_iff (h : Makes u p t) (hL : 0 ≤ u.limite) :
    t.saldo.toInt = u.saldo.toInt + amount p.request ↔
      (p.request.tipo = Transaction.credit → u.saldo.toInt + p.request.valor.toInt < 2 ^ 31) := by
  have hv : 0 ≤ p.request.valor := ((p.request.valid_iff).mp h.valid).2.2
  have hv' : 0 ≤ p.request.valor.toInt := Int32.le_iff_toInt_le.mp hv
  have hge := Int32.le_toInt u.saldo
  rw [h.made, amount]
  rcases ((p.request.valid_iff).mp h.valid).1 with hcredit | hdebt
  · rw [if_pos hcredit, Account.execute_saldo_credit _ _ _ hcredit, forall_prop_of_true hcredit]
    constructor
    · intro hexact
      have hlt := Int32.toInt_lt (u.account.saldo + p.request.valor)
      omega
    · exact fun hlt => toInt_add_of_inInt32 ⟨show -2 ^ 31 ≤ u.saldo.toInt + _ by omega, hlt⟩
  · have hnc := Account.debt_ne_credit hdebt
    rw [if_neg hnc]
    refine iff_of_true ?_ fun hcredit => absurd hcredit hnc
    exact (u.account.execute_debt_exact p.request p.now hdebt hL hv h.can).1

/-- An exact record is within the limit, if the one before it was. -/
theorem limit_le_of_exact (h : Makes u p t) (hL : 0 ≤ u.limite)
    (hlow : -u.limite.toInt ≤ u.saldo.toInt)
    (hexact : t.saldo.toInt = u.saldo.toInt + amount p.request) :
    -t.limite.toInt ≤ t.saldo.toInt := by
  have hv : 0 ≤ p.request.valor := ((p.request.valid_iff).mp h.valid).2.2
  rcases ((p.request.valid_iff).mp h.valid).1 with hcredit | hdebt
  · have hv' : 0 ≤ p.request.valor.toInt := Int32.le_iff_toInt_le.mp hv
    rw [h.limite, hexact, amount, if_pos hcredit]
    omega
  · rw [h.limite, h.made]
    exact (u.account.execute_debt_exact p.request p.now hdebt hL hv h.can).2

end Records

/-! ## Runs -/

theorem exactSaldo_cons (k : Int32) (b : Int) (x : Served) (log : List Served) :
    exactSaldo k b (x :: log)
      = exactSaldo k (if x.isAccepted k then b + amount x.post.request else b) log := by
  rw [exactSaldo, exactSaldo, accepted_cons]
  by_cases hx : x.isAccepted k = true
  · rw [if_pos hx, if_pos hx, List.map_cons, List.sum_cons, add_assoc]
  · rw [if_neg hx, if_neg hx]

section Runs

variable {json : TransactionJson} {k : Int32} {seed : Transaction}

/-- For a request that is accepted, the condition is about the record read. -/
theorem creditFits_iff {s : Stores} {u t : Transaction} {p : Post}
    (hread : getAccountByIdAsync json k s.redis = .ok (some u.account)) (h : Makes u p t)
    (hid : p.id = k) :
    CreditFits json k s p ↔ (p.request.tipo = Transaction.credit →
      u.saldo.toInt + p.request.valor.toInt < 2 ^ 31) := by
  constructor
  · intro hfit hcredit
    exact hfit hid hcredit u.account ⟨h.valid, hread, h.nonempty, h.can⟩
  · intro hfit _ hcredit account haccepted
    have hsame := hread.symm.trans haccepted.read
    injection hsame with hsame
    injection hsame with hsame
    rw [← hsame]
    exact hfit hcredit

/-- The responses of a run are its first response and the rest. -/
theorem exactResponses_cons (b : Int) (s : Stores) (p : Post) (posts : List Post) :
    ExactResponses json k b s (p :: posts) ↔
      (∀ body, p.id = k → (servePost json s p).2 = .ok (.ok body) →
        body.saldo.toInt = b + amount p.request ∧ (p.request.tipo = Transaction.credit →
          WithinLimit json k (servePost json s p).1.redis)) ∧
      ExactResponses json k
        (if Served.isAccepted k ⟨p, (servePost json s p).2⟩ then b + amount p.request else b)
        (servePost json s p).1 posts := by
  have hfirst : ∀ body, p.id = k → (servePost json s p).2 = .ok (.ok body) →
      exactSaldo k b ((serveAll json s (p :: posts)).2.take 1) = b + amount p.request := by
    intro body hid hout
    have hyes : Served.isAccepted k ⟨p, (servePost json s p).2⟩ = true := isAccepted_of_ok hid hout
    show exactSaldo k b [_] = _
    rw [exactSaldo_cons, if_pos hyes]
    exact add_zero _
  constructor
  · intro h
    refine ⟨fun body hid hout => ?_, fun n x body hx hid hout => ?_⟩
    · have hzero := h 0 _ body rfl hid hout
      rwa [hfirst body hid hout] at hzero
    · have hsucc := h (n + 1) x body hx hid hout
      rwa [serveAll_cons, List.take_succ_cons, exactSaldo_cons] at hsucc
  · rintro ⟨hp, hrest⟩ n x body hx hid hout
    cases n with
    | zero =>
      cases hx
      rw [hfirst body hid hout]
      exact hp body hid hout
    | succ n =>
      rw [serveAll_cons, List.take_succ_cons, exactSaldo_cons]
      exact hrest n x body hx hid hout

/-- The equivalence from any window of records, with the balance of the last as the exact one. -/
theorem exactResponses_iff_of_window (posts : List Post) : ∀ {s : Stores} {ts : List Transaction},
    Keyed json s.redis → Window json k seed ts s.redis →
    InOrder k seed ts (serveAll json s posts).2 → 0 ≤ (ts.getLastD seed).limite →
    -(ts.getLastD seed).limite.toInt ≤ (ts.getLastD seed).saldo.toInt →
    (ExactResponses json k (ts.getLastD seed).saldo.toInt s posts ↔
      EachRequest json (CreditFits json k) s posts) := by
  induction posts with
  | nil =>
    intro s ts _ _ _ _ _
    exact iff_of_true (fun n x body hx => nomatch hx) (fun n p hp => nomatch hp)
  | cons p posts ih =>
    intro s ts hkeyed hwindow hinc hL hlow
    rw [exactResponses_cons, eachRequest_cons]
    have hread : getAccountByIdAsync json k s.redis = .ok (some (ts.getLastD seed).account) :=
      getAccountByIdAsync_of_last hwindow.last?
    obtain ⟨hkeyed', ⟨hno, hwindow', hinc'⟩ | ⟨hid, t, hmakes, hout, -, hwindow', hinc'⟩⟩ :=
      window_step hkeyed hwindow hinc
    · -- refused: there is no response, and nothing was about to be accepted
      rw [if_neg (by rw [hno]; decide), ih hkeyed' hwindow' hinc' hL hlow]
      refine and_congr_left fun _ => iff_of_true (fun body hid hout => ?_) ?_
      · rw [isAccepted_of_ok hid hout] at hno
        cases hno
      · intro hid _ account haccepted
        rw [isAccepted_of_accepted hid haccepted] at hno
        cases hno
    · rw [if_pos (isAccepted_of_ok hid hout), creditFits_iff hread hmakes hid,
        ← saldo_exact_iff hmakes hL]
      by_cases hexact : t.saldo.toInt
          = (ts.getLastD seed).saldo.toInt + amount p.request
      · have hlow' := limit_le_of_exact hmakes hL hlow hexact
        have hrest := ih hkeyed' hwindow' hinc'
        rw [List.getLastD_concat, hmakes.limite, ← hmakes.limite] at hrest
        rw [← hexact, hrest (by rw [hmakes.limite]; exact hL) hlow']
        refine and_congr_left fun _ => iff_of_true (fun body _ hbody => ?_) rfl
        rw [hout] at hbody
        cases hbody
        refine ⟨Int32.toInt_toInt64 _, fun _ => ⟨_, getAccountByIdAsync_of_last hwindow'.last?, ?_⟩⟩
        rw [List.getLastD_concat]
        exact hlow'
      · -- the first response that is not exact
        refine iff_of_false (fun h => hexact ?_) fun h => hexact h.1
        have hbody := (h.1 _ hid hout).1
        rwa [Int32.toInt_toInt64] at hbody

/-- **When balances are exact over whole runs.**  In every sequential run from a seeded account with
    `0 ≤ Limite` and `-Limite ≤ Saldo`, with scores that strictly increase, every success carries
    the exact balance, and no credit leaves the stored balance below `-Limite`, if and only if each
    credit that is accepted fits the balance it finds: their sum is at most 2^31 - 1. -/
theorem responses_exact_iff (json : TransactionJson) (k : Int32) (seed : Transaction) (s : Stores)
    (posts : List Post) (hcache : SeededCache json s.redis)
    (hseed : (s.redis (getBankStatementKey k)).entries = [entryOf json seed])
    (hL : 0 ≤ seed.limite) (hlow : -seed.limite.toInt ≤ seed.saldo.toInt)
    (hinc : Increasing k seed (serveAll json s posts).2) :
    ExactResponses json k seed.saldo.toInt s posts ↔
      EachRequest json (CreditFits json k) s posts := by
  have hrun := exactResponses_iff_of_window posts hcache.keyed (window_nil hseed) (inOrder_nil hinc)
  exact hrun hL hlow

theorem responses_exact_iff_oneCredit :
    ExactResponses systemTextJson 1 0 TransactionService.seededStores (credits 1) := by
  refine (responses_exact_iff systemTextJson 1 InitializeRedis.seedRecord
    TransactionService.seededStores (credits 1) (seedTable_seedRow.seededCache systemTextJson)
    InitializeRedis.seededCache_entries (by decide) (by decide)
    (by unfold Increasing; decide +kernel)).mpr ?_
  refine (eachRequest_cons _ _ _ _ _).mpr
    ⟨fun _ _ account haccepted => ?_, fun n p hp => nomatch hp⟩
  have hread := TransactionService.seededStores_read.symm.trans haccepted.read
  cases hread
  decide

/-- Two credits on account 1 whose sum is 2^31. -/
def fullThenOne : List Post :=
  [⟨1, ⟨2147483647, 'c', some ['x']⟩, .ofTicks 1 .localTime⟩,
    ⟨1, ⟨1, 'c', some ['x']⟩, .ofTicks 2 .localTime⟩]

/-- A credit of 1 on the highest balance is answered with the lowest. -/
theorem credit_wraps :
    ¬ ∀ (k : Int32) (seed : Transaction) (s : Stores) (posts : List Post),
      SeededCache systemTextJson s.redis →
      (s.redis (getBankStatementKey k)).entries = [entryOf systemTextJson seed] →
      0 ≤ seed.limite → -seed.limite.toInt ≤ seed.saldo.toInt →
      (∀ p ∈ posts, p.request.isInvalid = false) →
      Increasing k seed (serveAll systemTextJson s posts).2 →
      ExactResponses systemTextJson k seed.saldo.toInt s posts := by
  intro h
  have hexact := h 1 InitializeRedis.seedRecord TransactionService.seededStores fullThenOne
    (seedTable_seedRow.seededCache systemTextJson) InitializeRedis.seededCache_entries
    (by decide) (by decide) (by decide) (by unfold Increasing; decide +kernel)
  have hlog : (fun log : List Served => (log[1]?).any (fun x => x.post.id = 1 ∧
      x.outcome = .ok (.ok ⟨1000, -2147483648⟩)) = true ∧ exactSaldo 1 0 (log.take 2) = 2147483648)
      (serveAll systemTextJson TransactionService.seededStores fullThenOne).2 := by
    decide +kernel
  obtain ⟨hany, hsum⟩ := hlog
  obtain ⟨x, hx, hprops⟩ := (Option.any_eq_true _ _).mp hany
  obtain ⟨hid, hout⟩ := of_decide_eq_true hprops
  have hbalance := (hexact 1 x _ hx hid hout).1
  rw [show InitializeRedis.seedRecord.saldo.toInt = 0 by decide, hsum] at hbalance
  exact absurd hbalance (by decide)

end Runs

end ExactBalances

end Rinha
