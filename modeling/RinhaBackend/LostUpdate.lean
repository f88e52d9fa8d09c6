/-
  When concurrent requests add up.

  A call reads the balance, and later writes a balance computed from what it read, with no lock
  and no version check in between.  If every call, at the moment it adds its record, would still
  read the account it did read, the balance at the end is the seed's plus the accepted credits
  minus the accepted debits (`balance_is_exact_sum`); the invariant is that the top record carries
  the exact sum of what has been added so far (`Tracks`).  A call that adds after another one
  slipped in between overwrites it (`concurrent_credits_lose_one`).
-/
import RinhaBackend.RequestRun

namespace Rinha

namespace LostUpdate

open CachedRepository Endpoints RequestRun

/-! ## Exact sums -/

/-- What an accepted request is worth: a credit counts positive, a debit negative. -/
def amount (r : TransactionRequest) : Int :=
  if r.tipo = Transaction.credit then r.valor.toInt else -r.valor.toInt

/-- What a call has contributed to the account. -/
def posted (c : Call) : Int := if c.phase.added.isSome then amount c.request else 0

/-- The seed's balance with everything added so far, as an exact integer. -/
def exactBalance (seed : Transaction) (s : State) : Int :=
  seed.saldo.toInt + (s.calls.map posted).sum

/-- The call has been answered with a success. -/
def isAccepted (c : Call) : Bool :=
  match c.phase with
  | .returned _ (.ok (.ok _)) => true
  | _ => false

/-- The sum of the accepted requests of one type. -/
def acceptedSum (tipo : Char) (s : State) : Int :=
  ((s.calls.filter fun c => isAccepted c ∧ c.request.tipo = tipo).map
    fun c => c.request.valor.toInt).sum

/-- The call has returned. -/
def isReturned (c : Call) : Bool :=
  match c.phase with
  | .returned .. => true
  | _ => false

/-- Every call has returned. -/
def Returned (s : State) : Prop := ∀ c ∈ s.calls, isReturned c = true

theorem exists_of_isReturned {c : Call} (h : isReturned c = true) :
    ∃ executed outcome, c.phase = .returned executed outcome := by
  rw [isReturned] at h
  split at h
  · next executed outcome hphase => exact ⟨executed, outcome, hphase⟩
  · cases h

/-- A call that has returned has contributed exactly if it was accepted. -/
theorem posted_of_returned {c : Call} (hs : Sound c.request c.phase)
    (hr : isReturned c = true) :
    posted c = if isAccepted c then amount c.request else 0 := by
  obtain ⟨executed, outcome, hphase⟩ := exists_of_isReturned hr
  rw [hphase] at hs
  rcases executed with _ | ⟨account, t⟩
  · have hno : isAccepted c = false := by
      rw [isAccepted, hphase]
      rcases outcome with e | body | _ | _
      · rfl
      · exact absurd rfl (hs body)
      · rfl
      · rfl
    rw [posted, hphase, hno]
    rfl
  · obtain ⟨-, rfl⟩ := hs
    rw [posted, isAccepted, hphase]
    rfl

/-- Only a valid request is accepted. -/
theorem valid_of_accepted {c : Call} (hs : Sound c.request c.phase)
    (hr : isReturned c = true) (h : isAccepted c = true) : c.request.isInvalid = false := by
  obtain ⟨executed, outcome, hphase⟩ := exists_of_isReturned hr
  rw [isAccepted, hphase] at h
  rw [hphase] at hs
  rcases outcome with e | body | _ | _
  · cases h
  · obtain ⟨account, t, -, hex, -⟩ := hs.success
    exact hex.valid
  · cases h
  · cases h

/-- Once every call has returned, what has been added is the accepted credits minus the accepted
    debits. -/
theorem sum_posted_of_returned (calls : List Call) (hs : ∀ c ∈ calls, Sound c.request c.phase)
    (hr : ∀ c ∈ calls, isReturned c = true) :
    (calls.map posted).sum
      = ((calls.filter fun c => isAccepted c ∧ c.request.tipo = Transaction.credit).map
          fun c => c.request.valor.toInt).sum
        - ((calls.filter fun c => isAccepted c ∧ c.request.tipo = Transaction.debt).map
          fun c => c.request.valor.toInt).sum := by
  induction calls with
  | nil => rfl
  | cons c calls ih =>
    have hsc := hs c List.mem_cons_self
    have hrc := hr c List.mem_cons_self
    rw [List.map_cons, List.sum_cons, posted_of_returned hsc hrc,
      ih (fun d hd => hs d (List.mem_cons_of_mem c hd))
        fun d hd => hr d (List.mem_cons_of_mem c hd),
      List.filter_cons, List.filter_cons]
    by_cases hacc : isAccepted c = true
    · have hvalid := valid_of_accepted hsc hrc hacc
      rw [if_pos hacc, amount]
      rcases ((c.request.valid_iff).mp hvalid).1 with hcredit | hdebt
      · have hnd : ¬ c.request.tipo = Transaction.debt :=
          fun hd => Account.debt_ne_credit hd hcredit
        rw [if_pos hcredit, if_pos (decide_eq_true ⟨hacc, hcredit⟩),
          if_neg (fun h => hnd (of_decide_eq_true h).2), List.map_cons, List.sum_cons]
        omega
      · have hnc : ¬ c.request.tipo = Transaction.credit := Account.debt_ne_credit hdebt
        rw [if_neg hnc, if_neg (fun h => hnc (of_decide_eq_true h).2),
          if_pos (decide_eq_true ⟨hacc, hdebt⟩), List.map_cons, List.sum_cons]
        omega
    · rw [if_neg hacc, if_neg (fun h => hacc (of_decide_eq_true h).1),
        if_neg (fun h => hacc (of_decide_eq_true h).1)]
      omega

/-- A move changes the exact balance by what it changes in the call that moved. -/
theorem exactBalance_put (seed : Transaction) {s : State} {i : Nat} {call : Call}
    (hcall : s.calls[i]? = some call) (stores : Stores) (phase : Phase) :
    exactBalance seed (s.put i call stores phase)
      = exactBalance seed s + (posted { call with phase := phase } - posted call) := by
  have hsum := Parties.sum_map_set posted hcall { call with phase := phase }
  rw [exactBalance, exactBalance, State.put]
  dsimp only
  omega

/-! ## Runs -/

/-- The add a step is about to make, with the call and the account it read. -/
def addOf (s : State) (a : Action) : Option (Call × Account × Transaction) :=
  (s.calls[a.call]?).bind fun c =>
    match c.phase with
    | .adding account t => some (c, account, t)
    | _ => none

/-- Scores increase in the order of the adds: a record is added above everything stored. -/
def ScoresIncrease (k : Int32) (s : State) (a : Action) : Prop :=
  ∀ x ∈ addOf s a, ∀ e ∈ (s.redis (getBankStatementKey k)).entries,
    SortedSet.score e < x.2.2.realizadaEm.score

/-- The exact sum stays inside the range of an `int`. -/
def SumsInRange (json : TransactionJson) (seed : Transaction) (s : State) (a : Action) : Prop :=
  ∀ s' ∈ step json s a, InInt32 (exactBalance seed s')

/-- A call adds its record only while the account it read is the account that is stored. -/
def ReadIsCurrent (json : TransactionJson) (s : State) (a : Action) : Prop :=
  ∀ x ∈ addOf s a, getAccountByIdAsync json x.1.accountId s.redis = .ok (some x.2.1)

instance (k : Int32) (s : State) (a : Action) : Decidable (ScoresIncrease k s a) :=
  inferInstanceAs (Decidable (∀ x ∈ addOf s a, _))

instance (json : TransactionJson) (seed : Transaction) (s : State) (a : Action) :
    Decidable (SumsInRange json seed s a) := inferInstanceAs (Decidable (∀ s' ∈ step json s a, _))

instance (json : TransactionJson) (s : State) (a : Action) : Decidable (ReadIsCurrent json s a) :=
  inferInstanceAs (Decidable (∀ x ∈ addOf s a, _))

instance (s : State) : Decidable (Returned s) := inferInstanceAs (Decidable (∀ c ∈ s.calls, _))

/-- The invariant: the top record of account `k` carries the exact balance. -/
structure Tracks (json : TransactionJson) (k : Int32) (seed : Transaction) (s : State) : Prop where
  sound : AllSound s
  accounts : ∀ c ∈ s.calls, c.accountId = k
  recorded : Recorded json (s.redis (getBankStatementKey k))
  top : ∃ t, (s.redis (getBankStatementKey k)).last? = some (entryOf json t) ∧
    t.accountId = k ∧ t.saldo.toInt = exactBalance seed s

section Runs

variable {json : TransactionJson} {k : Int32} {seed : Transaction}

/-- An executed request moves the balance by its amount, if the result is in range. -/
theorem saldo_of_executed {request : TransactionRequest} {account : Account} {t : Transaction}
    (h : Executed request account t) (hrange : InInt32 (account.saldo.toInt + amount request)) :
    t.saldo.toInt = account.saldo.toInt + amount request := by
  obtain ⟨now, rfl⟩ := h.made
  rw [amount] at hrange ⊢
  by_cases hcredit : request.tipo = Transaction.credit
  · rw [if_pos hcredit] at hrange ⊢
    rw [account.execute_saldo_credit request now hcredit]
    exact toInt_add_of_inInt32 hrange
  · rw [if_neg hcredit] at hrange ⊢
    rw [account.execute_saldo_other request now hcredit]
    exact toInt_sub_of_inInt32 hrange

/-- The add of a call posts its amount. -/
theorem exactBalance_add (seed : Transaction) {s : State} {i : Nat} {call : Call}
    (hcall : s.calls[i]? = some call) {account : Account} {t : Transaction}
    (hbefore : call.phase = .adding account t) (stores : Stores) :
    exactBalance seed (s.put i call stores (.trimming account t))
      = exactBalance seed s + amount call.request := by
  have hnone : posted call = 0 := by
    rw [posted, hbefore]
    rfl
  rw [exactBalance_put seed hcall, hnone, sub_zero]
  rfl

/-- Every other step posts nothing. -/
theorem exactBalance_other (seed : Transaction) {s : State} {i : Nat} {call : Call}
    (hcall : s.calls[i]? = some call) {phase : Phase} (hadded : phase.added = call.phase.added)
    (stores : Stores) : exactBalance seed (s.put i call stores phase) = exactBalance seed s := by
  rw [exactBalance_put seed hcall, posted, posted, hadded, sub_self, add_zero]

theorem tracks_step {s s' : State} {a : Action} (hI : Tracks json k seed s)
    (hscores : ScoresIncrease k s a) (hrange : SumsInRange json seed s a)
    (hcurrent : ReadIsCurrent json s a) (h : step json s a = some s') :
    Tracks json k seed s' := by
  have hsound := allSound_step hI.sound h
  have hinrange : InInt32 (exactBalance seed s') := hrange s' h
  obtain ⟨call, stores, phase, hcall, hmove, rfl⟩ := step_moves h
  have hcmem : call ∈ s.calls := List.mem_of_getElem? hcall
  have haccounts : ∀ c ∈ (s.put a.call call stores phase).calls, c.accountId = k := by
    intro c hc
    rcases mem_put hc with hc | rfl
    · exact hI.accounts c hc
    · exact hI.accounts call hcmem
  obtain ⟨u, hlast, huid, husaldo⟩ := hI.top
  rcases hmove.effect with ⟨account, t, hbefore, rfl, hredis⟩ | ⟨hadded, hredis⟩
  · -- the add: what the call read is still the top record
    have hadd : addOf s a = some (call, account, t) := by
      rw [addOf, hcall, Option.bind_some, hbefore]
    obtain rfl : u.account = account := by
      have hread := hcurrent _ hadd
      dsimp only at hread
      rw [hI.accounts call hcmem, getAccountByIdAsync_of_last hlast] at hread
      injection hread with hread
      injection hread with hread
    have hex : Executed call.request u.account t :=
      (hI.sound call hcmem).executed (by rw [hbefore]; rfl)
    have hid : t.accountId = k := by
      obtain ⟨now, rfl⟩ := hex.made
      rw [Account.execute_accountId]
      exact huid
    rw [exactBalance_add seed hcall hbefore, ← husaldo] at hinrange
    have hset : stores.redis (getBankStatementKey k) = (s.redis (getBankStatementKey k)).add
        t.realizadaEm.score (json.serialize t) := by
      rw [hredis]
      exact saveInsert_of_eq json s.redis t hid
    refine ⟨hsound, haccounts, ?_, t, ?_, hid, ?_⟩
    · show Recorded json (stores.redis (getBankStatementKey k))
      rw [hset]
      exact hI.recorded.add t
    · show (stores.redis (getBankStatementKey k)).last? = _
      rw [hset]
      exact SortedSet.last?_add_of_forall_lt fun e he => hscores _ hadd e he
    · rw [exactBalance_add seed hcall hbefore, ← husaldo]
      exact saldo_of_executed hex hinrange
  · -- every other move leaves the top record and the sums alone
    refine ⟨hsound, haccounts, fun e he => hI.recorded e (mem_of_trimmed hredis he), u, ?_, huid,
      by rw [exactBalance_other seed hcall hadded, husaldo]⟩
    show (stores.redis (getBankStatementKey k)).last? = _
    rw [last?_of_trimmed hredis]
    exact hlast

/-- **No update is lost** in a run whose calls add only while what they read is current: once
    every call has returned, the balance read is the seed's plus the accepted credits minus the
    accepted debits. -/
theorem balance_is_exact_sum (json : TransactionJson) (k : Int32) (seed : Transaction)
    (s s' : State) (hid : seed.accountId = k)
    (hseed : (s.redis (getBankStatementKey k)).entries = [entryOf json seed])
    (hfresh : Fresh s) (haccounts : ∀ c ∈ s.calls, c.accountId = k) (actions : List Action)
    (hscores : Transition.AllSteps (step json) (ScoresIncrease k) s actions)
    (hrange : Transition.AllSteps (step json) (SumsInRange json seed) s actions)
    (hcurrent : Transition.AllSteps (step json) (ReadIsCurrent json) s actions)
    (hrun : Transition.run (step json) s actions = some s') (hreturned : Returned s') :
    ∃ account, getAccountByIdAsync json k s'.redis = .ok (some account) ∧
      account.saldo.toInt = seed.saldo.toInt + acceptedSum Transaction.credit s'
        - acceptedSum Transaction.debt s' := by
  have hstart : Tracks json k seed s := by
    refine ⟨hfresh.allSound, haccounts, recorded_of_singleton hseed, seed, ?_, hid, ?_⟩
    · rw [SortedSet.last?, hseed, List.getLast?_singleton]
    · have hzero : (s.calls.map posted).sum = 0 := by
        refine List.sum_eq_zero fun z hz => ?_
        obtain ⟨c, hc, rfl⟩ := List.mem_map.mp hz
        rw [posted, hfresh c hc]
        rfl
      rw [exactBalance, hzero, add_zero]
  have hsteps := Transition.AllSteps.and (step json) hscores
    (Transition.AllSteps.and (step json) hrange hcurrent)
  have hend := Transition.run_invariant_of (step json)
    (fun _ _ _ hI hC hs => tracks_step hI hC.1 hC.2.1 hC.2.2 hs) actions s s' hstart hsteps hrun
  obtain ⟨t, hlast, -, hsaldo⟩ := hend.top
  refine ⟨_, getAccountByIdAsync_of_last hlast, ?_⟩
  rw [hsaldo, exactBalance, sum_posted_of_returned s'.calls hend.sound hreturned, acceptedSum,
    acceptedSum]
  omega

end Runs

/-- Two credits of 10 on account 1, on two instances. -/
def twoCredits : State :=
  ⟨InitializeRedis.seededCache, [], fun _ => 0,
    [⟨0, 1, TransactionService.creditOfTen, .received⟩,
      ⟨1, 1, TransactionService.creditOfTen, .received⟩]⟩

theorem twoCredits_fresh : Fresh twoCredits := by
  intro c hc
  rcases List.mem_pair.mp hc with rfl | rfl <;> rfl

/-- One call after the other. -/
def oneByOne : List Action :=
  List.replicate 7 ⟨0, .ofTicks 5 .localTime⟩ ++ List.replicate 7 ⟨1, .ofTicks 6 .localTime⟩

/-- Both calls in step: both read before either adds. -/
def inStep : List Action :=
  (List.replicate 7 [⟨0, .ofTicks 5 .localTime⟩, ⟨1, .ofTicks 6 .localTime⟩]).flatten

theorem balance_is_exact_sum_oneByOne :
    ∃ s', Transition.run (step systemTextJson) twoCredits oneByOne = some s' ∧
      ∃ account, getAccountByIdAsync systemTextJson 1 s'.redis = .ok (some account) ∧
        account.saldo.toInt = acceptedSum Transaction.credit s'
          - acceptedSum Transaction.debt s' := by
  have hdone : (Transition.run (step systemTextJson) twoCredits oneByOne).any
      (fun s' => Returned s') = true := by decide +kernel
  obtain ⟨s', hrun, hreturned⟩ := (Option.any_eq_true _ _).mp hdone
  obtain ⟨account, hread, hsum⟩ := balance_is_exact_sum systemTextJson 1
    InitializeRedis.seedRecord twoCredits s' rfl InitializeRedis.seededCache_entries
    twoCredits_fresh (by decide) oneByOne (by decide +kernel) (by decide +kernel)
    (by decide +kernel) hrun (of_decide_eq_true hreturned)
  have hzero : InitializeRedis.seedRecord.saldo.toInt = 0 := by decide
  exact ⟨s', hrun, account, hread, by rw [hsum, hzero, zero_add]⟩

/-- In step, both credits are answered with a success and one of them is overwritten: the balance
    ends at 10, and the accepted credits sum to 20. -/
theorem concurrent_credits_lose_one :
    ¬ ∀ (k : Int32) (seed : Transaction) (s s' : State), seed.accountId = k →
      (s.redis (getBankStatementKey k)).entries = [entryOf systemTextJson seed] →
      0 ≤ seed.limite.toInt → -seed.limite.toInt ≤ seed.saldo.toInt → Fresh s →
      (∀ c ∈ s.calls, c.accountId = k ∧ c.request.isInvalid = false) →
      ∀ actions : List Action,
        Transition.AllSteps (step systemTextJson) (ScoresIncrease k) s actions →
        Transition.AllSteps (step systemTextJson) (SumsInRange systemTextJson seed) s actions →
        Transition.run (step systemTextJson) s actions = some s' → Returned s' →
        ∃ account, getAccountByIdAsync systemTextJson k s'.redis = .ok (some account) ∧
          account.saldo.toInt = seed.saldo.toInt + acceptedSum Transaction.credit s'
            - acceptedSum Transaction.debt s' := by
  intro h
  have hdone : (Transition.run (step systemTextJson) twoCredits inStep).any (fun s' =>
      Returned s' ∧ getAccountByIdAsync systemTextJson 1 s'.redis = .ok (some ⟨1, 1000, 10⟩) ∧
        acceptedSum Transaction.credit s' = 20 ∧ acceptedSum Transaction.debt s' = 0) = true := by
    decide +kernel
  obtain ⟨s', hrun, hall⟩ := (Option.any_eq_true _ _).mp hdone
  obtain ⟨hreturned, hread, hcredits, hdebits⟩ := of_decide_eq_true hall
  obtain ⟨account, hread', hsum⟩ := h 1 InitializeRedis.seedRecord twoCredits s' rfl
    InitializeRedis.seededCache_entries (by decide) (by decide) twoCredits_fresh (by decide) inStep
    (by decide +kernel) (by decide +kernel) hrun hreturned
  rw [hread] at hread'
  cases hread'
  rw [hcredits, hdebits] at hsum
  exact absurd hsum (by decide)

end LostUpdate

end Rinha
