/-
  When the service is linearizable.

  The sequential object is a bank: every account that exists has a limit and a balance, and a
  posting is answered by the ledger of its account, or not at all if there is none.  The
  concurrent system is `RequestRun`: POST calls on any accounts, from any instances, each going
  through its steps.

  A call takes effect at one of its steps.  An accepted one does when it adds its record; a refused
  one when it READS, since what it read decides the refusal it will make.  Under the two conditions
  of `LostUpdate` (a record is added above everything stored, and while the account that was read
  is still the one stored) the bank gives every call the reply it gets (`posts_linearize`).

  The second condition is about values.  It follows from one about schedules: no two calls on one
  account are between their read and their add at the same time (`exclusive_reads_are_current`).
-/
import RinhaBackend.Lib.Linearization
import RinhaBackend.Isolation
import RinhaBackend.LostUpdate

namespace Rinha

namespace Bank

open CachedRepository Endpoints RequestRun Ledger
open DebitSafety (accountOf)
open LostUpdate (addOf ReadIsCurrent isReturned)

/-! ## The bank -/

/-- The accounts that exist, each with its limit and its balance. -/
abbrev Accounts := Int32 → Option (Int × Int)

/-- A posting on an account, and the answer of its ledger; `none` says that there is no such
    account.  An invalid posting is refused before the account is looked up. -/
def post (bank : Accounts) (q : Int32 × Posting) : Accounts × Option Answer :=
  if q.2 = .invalid then (bank, some .refused)
  else match bank q.1 with
    | none => (bank, none)
    | some (limite, b) =>
      (Function.update bank q.1 (some (limite, (Ledger.post limite b q.2).1)),
        some (Ledger.post limite b q.2).2)

section Posting

variable {bank : Accounts} {id : Int32} {p : Posting}

theorem post_invalid : post bank (id, .invalid) = (bank, some .refused) := if_pos rfl

theorem post_unknown (hp : p ≠ .invalid) (h : bank id = none) :
    post bank (id, p) = (bank, none) := by
  rw [post, if_neg hp]
  dsimp only
  rw [h]

theorem post_known (hp : p ≠ .invalid) {limite b : Int} (h : bank id = some (limite, b)) :
    post bank (id, p) = (Function.update bank id (some (limite, (Ledger.post limite b p).1)),
      some (Ledger.post limite b p).2) := by
  rw [post, if_neg hp]
  dsimp only
  rw [h]

/-- A posting that leaves the balance leaves the bank. -/
theorem post_refused (hp : p ≠ .invalid) {limite b : Int} (h : bank id = some (limite, b))
    (hpost : Ledger.post limite b p = (b, .refused)) :
    post bank (id, p) = (bank, some .refused) := by
  rw [post_known hp h, hpost, ← h, Function.update_eq_self]

end Posting

theorem posting_ne_invalid {r : TransactionRequest} (h : r.isInvalid = false) :
    r.posting ≠ .invalid := by
  rw [TransactionRequest.posting, if_neg (by rw [h]; decide)]
  split
  · exact fun hc => by cases hc
  · exact fun hc => by cases hc

/-! ## The calls, as the bank sees them -/

/-- What a call asks of the bank. -/
def asked (s : State) (i : Nat) : Int32 × Posting :=
  match s.calls[i]? with
  | some c => (c.accountId, c.request.posting)
  | none => (0, .invalid)

/-- The answer an HTTP outcome is: a 404 says that there is no such account, and an exception is
    no answer. -/
def replyOf : Except Fault (HttpResult TransactionResponse) → Option (Option Answer)
  | .error _ => none
  | .ok .notFound => some none
  | .ok result => some (answerOf (.ok result))

/-- The answer a call has been given, or can no longer avoid. -/
def decided (c : Call) : Option (Option Answer) :=
  match c.phase with
  | .received | .reading | .adding .. => none
  | .read account => if account.canExecute c.request = false then some (some .refused) else none
  | .trimming _ t | .publishing _ t | .responding _ t =>
    some (some (.posted t.limite.toInt t.saldo.toInt))
  | .returned _ outcome => replyOf outcome

/-- The answer of call `i`. -/
def replied (s : State) (i : Nat) : Option (Option Answer) := (s.calls[i]?).bind decided

/-- The bank the cache shows before any request: the seeds. -/
def accountsOf (seeds : Int32 → Option Transaction) : Accounts := fun id =>
  (seeds id).map fun t => (t.limite.toInt, t.saldo.toInt)

/-- A record is added above everything stored for its account. -/
def ScoresRise (s : State) (a : Action) : Prop :=
  ∀ x ∈ addOf s a, ∀ e ∈ (s.redis (getBankStatementKey x.2.2.accountId)).entries,
    SortedSet.score e < x.2.2.realizadaEm.score

instance (s : State) (a : Action) : Decidable (ScoresRise s a) :=
  inferInstanceAs (Decidable (∀ x ∈ addOf s a, _))

/-- The top record of an account carries what the bank holds for it; account 0 without a limit
    would be read as empty, and counts as one that does not exist. -/
def Shows (json : TransactionJson) (db : Redis) (bank : Accounts) (id : Int32) : Prop :=
  match bank id with
  | none => (db (getBankStatementKey id)).last? = none
  | some (limite, b) => ∃ t, (db (getBankStatementKey id)).last? = some (entryOf json t) ∧
      t.limite.toInt = limite ∧ t.saldo.toInt = b ∧ (id = 0 → t.limite ≠ 0)

/-- The refinement: the cache shows the bank, and nothing has gone wrong so far. -/
structure Mirrors (json : TransactionJson) (op : Nat → Int32 × Posting) (s : State)
    (bank : Accounts) : Prop where
  sound : AllSound s
  keyed : Keyed json s.redis
  held : ∀ c ∈ s.calls, ServiceRun.Holds (fun id t => t.accountId = id) c.accountId c.phase
  asked : ∀ i c, s.calls[i]? = some c → op i = (c.accountId, c.request.posting)
  replied : ∀ c ∈ s.calls, isReturned c = true → (decided c).isSome
  shows : ∀ id, Shows json s.redis bank id

/-! ## One step of a call -/

section Steps

variable {json : TransactionJson} {bank : Accounts}

/-- What the reading step of a call can lead to. -/
theorem reading_cases {call : Call} {now : DateTime} {stores stores' : Stores} {phase : Phase}
    (hphase : call.phase = .reading)
    (h : stepCall json call now stores = some (stores', phase)) : stores' = stores ∧
      ((∃ e, getAccountByIdAsync json call.accountId stores.redis = .error e) ∨
        (getAccountByIdAsync json call.accountId stores.redis = .ok none ∧
          phase = .returned none (.ok .notFound)) ∨
        ∃ account, getAccountByIdAsync json call.accountId stores.redis = .ok (some account) ∧
          (account.isEmpty = true ∨ account.isEmpty = false ∧ phase = .read account)) := by
  rw [stepCall, hphase] at h
  dsimp only at h
  rcases hread : getAccountByIdAsync json call.accountId stores.redis with e | _ | account
  · rw [hread] at h
    cases h
    exact ⟨rfl, Or.inl ⟨e, rfl⟩⟩
  · rw [hread] at h
    cases h
    exact ⟨rfl, Or.inr (Or.inl ⟨rfl, rfl⟩)⟩
  · rw [hread] at h
    dsimp only at h
    by_cases hempty : account.isEmpty = true
    · rw [if_pos hempty] at h
      cases h
      exact ⟨rfl, Or.inr (Or.inr ⟨account, rfl, Or.inl hempty⟩)⟩
    · rw [if_neg hempty] at h
      cases h
      exact ⟨rfl, Or.inr (Or.inr ⟨account, rfl, Or.inr ⟨Bool.eq_false_iff.mpr hempty, rfl⟩⟩)⟩

/-- What an account is read as, the bank holds. -/
theorem bank_of_read {db : Redis} {id : Int32} (hkeyed : Keyed json db)
    (hshows : Shows json db bank id) {account : Account}
    (hread : getAccountByIdAsync json id db = .ok (some account)) :
    account.id = id ∧ account.isEmpty = false ∧
      bank id = some (account.limite.toInt, account.saldo.toInt) := by
  obtain ⟨t, hlast, hid, rfl⟩ := hkeyed.read hread
  rw [Shows] at hshows
  rcases hbank : bank id with _ | ⟨limite, b⟩
  · rw [hbank] at hshows
    rw [hlast] at hshows
    cases hshows
  · rw [hbank] at hshows
    obtain ⟨u, hu, rfl, rfl, hzero⟩ := hshows
    rw [hlast, Option.some.injEq] at hu
    obtain rfl := entryOf_injective json hu
    refine ⟨hid, decide_eq_false fun hempty => ?_, rfl⟩
    exact hzero (hid.symm.trans hempty.1) hempty.2.2

/-- An account read as null does not exist. -/
theorem bank_of_null {db : Redis} {id : Int32} (hshows : Shows json db bank id)
    (hread : getAccountByIdAsync json id db = .ok none) :
    bank id = none := by
  rw [Shows] at hshows
  rcases hbank : bank id with _ | ⟨limite, b⟩
  · rfl
  · rw [hbank] at hshows
    obtain ⟨t, hlast, -⟩ := hshows
    rw [getAccountByIdAsync_of_last hlast] at hread
    cases hread

/-- What is shown depends on the top record. -/
theorem shows_of_last {db db' : Redis} {id : Int32} (h : Shows json db bank id)
    (hlast : (db' (getBankStatementKey id)).last? = (db (getBankStatementKey id)).last?) :
    Shows json db' bank id := by
  rw [Shows] at h ⊢
  rwa [hlast]

/-- A record added above everything stored is a posting of the account. -/
theorem shows_saveInsert {db : Redis} (h : ∀ id, Shows json db bank id) {t : Transaction}
    (hscore : ∀ e ∈ (db (getBankStatementKey t.accountId)).entries,
      SortedSet.score e < t.realizadaEm.score)
    (hzero : t.accountId = 0 → t.limite ≠ 0) (id : Int32) :
    Shows json (saveInsert json db t)
      (Function.update bank t.accountId (some (t.limite.toInt, t.saldo.toInt))) id := by
  by_cases hid : t.accountId = id
  · subst hid
    rw [Shows, Function.update_self]
    refine ⟨t, ?_, rfl, rfl, hzero⟩
    rw [saveInsert_same]
    exact SortedSet.last?_add_of_forall_lt hscore
  · have hsame := h id
    rw [Shows] at hsame ⊢
    rwa [Function.update_of_ne (Ne.symm hid), saveInsert_of_ne json db t hid]

/-- **What one step of a call means to the bank**: nothing, or its posting. -/
theorem stepCall_commits {call : Call} {now : DateTime} {stores stores' : Stores} {phase : Phase}
    (hsound : Sound call.request call.phase) (hkeyed : Keyed json stores.redis)
    (hheld : ServiceRun.Holds (fun id t => t.accountId = id) call.accountId call.phase)
    (hshows : ∀ id, Shows json stores.redis bank id)
    (hadd : ∀ account t, call.phase = .adding account t →
      (∀ e ∈ (stores.redis (getBankStatementKey t.accountId)).entries,
        SortedSet.score e < t.realizadaEm.score) ∧
      getAccountByIdAsync json call.accountId stores.redis = .ok (some account))
    (h : stepCall json call now stores = some (stores', phase)) :
    ∃ bank', (∀ id, Shows json stores'.redis bank' id) ∧
      (isReturned { call with phase := phase } = true →
        (decided { call with phase := phase }).isSome) ∧
      (bank' = bank ∧ decided { call with phase := phase } = decided call ∨
        ∃ reply, decided call = none ∧ decided { call with phase := phase } = some reply ∧
          post bank (call.accountId, call.request.posting) = (bank', reply)) := by
  have hmove := stepCall_moves h
  obtain ⟨host, accountId, request, before⟩ := call
  dsimp only at hsound hheld hadd hmove ⊢
  cases hmove with
  | refuse hinvalid =>
    refine ⟨bank, hshows, fun _ => rfl, Or.inr ⟨_, rfl, rfl, ?_⟩⟩
    rw [TransactionRequest.posting, if_pos hinvalid]
    exact post_invalid
  | validate hvalid => exact ⟨bank, hshows, fun hc => (by cases hc), Or.inl ⟨rfl, rfl⟩⟩
  | notFound outcome _ =>
    obtain ⟨-, hcase⟩ := reading_cases rfl h
    dsimp only at hcase
    rcases hcase with ⟨e, he⟩ | ⟨hnull, hphase⟩ | ⟨account, hread, hempty | ⟨-, hphase⟩⟩
    · -- a recorded set is read without an exception
      rcases getAccountByIdAsync_of_recorded (hkeyed.recorded accountId) with
        ⟨-, hok⟩ | ⟨t, -, hok⟩
      · rw [he] at hok
        cases hok
      · rw [he] at hok
        cases hok
    · cases hphase
      refine ⟨bank, hshows, fun _ => rfl, Or.inr ⟨_, rfl, rfl, ?_⟩⟩
      exact post_unknown (posting_ne_invalid hsound) (bank_of_null (hshows _) hnull)
    · rw [(bank_of_read hkeyed (hshows _) hread).2.1] at hempty
      cases hempty
    · cases hphase
  | read account hread hne =>
    refine ⟨bank, hshows, fun hc => (by cases hc), ?_⟩
    obtain ⟨-, -, hbank⟩ := bank_of_read hkeyed (hshows _) hread
    by_cases hcan : account.canExecute request = false
    · -- what was read decides the refusal
      refine Or.inr ⟨some .refused, rfl, if_pos hcan, ?_⟩
      exact post_refused (posting_ne_invalid hsound) hbank (post_of_refused hsound hcan)
    · exact Or.inl ⟨rfl, if_neg hcan⟩
  | exceed account hcan =>
    refine ⟨bank, hshows, fun _ => rfl, Or.inl ⟨rfl, ?_⟩⟩
    exact (if_pos hcan).symm
  | execute account hcan =>
    refine ⟨bank, hshows, fun hc => (by cases hc), Or.inl ⟨rfl, ?_⟩⟩
    refine (if_neg ?_).symm
    rw [hcan]
    decide
  | add account t =>
    obtain ⟨hscore, hread⟩ := hadd account t rfl
    obtain ⟨hid, hne, hbank⟩ := bank_of_read hkeyed (hshows _) hread
    obtain ⟨hvalid, hcan, exec, rfl⟩ := hsound
    have hlimite := account.execute_limite request exec
    have hidt : (account.execute request exec).2.accountId = accountId :=
      (account.execute_accountId request exec).trans hid
    have hzero : (account.execute request exec).2.accountId = 0 →
        (account.execute request exec).2.limite ≠ 0 := by
      intro hz
      have hown := hshows accountId
      rw [Shows, hbank] at hown
      obtain ⟨u, hu, hl, -, hnonzero⟩ := hown
      rw [hlimite, ← Int32.toInt_inj.mp hl]
      exact hnonzero (hidt.symm.trans hz)
    refine ⟨_, shows_saveInsert hshows hscore hzero, fun hc => (by cases hc),
      Or.inr ⟨_, rfl, rfl, ?_⟩⟩
    rw [post_known (posting_ne_invalid hvalid) hbank, post_of_canExecute exec hvalid hcan, hidt,
      hlimite]
  | trim account t =>
    refine ⟨bank, fun id => shows_of_last (hshows id) (last?_saveTrim _ t _),
      fun hc => (by cases hc), Or.inl ⟨rfl, rfl⟩⟩
  | publish account t => exact ⟨bank, hshows, fun hc => (by cases hc), Or.inl ⟨rfl, rfl⟩⟩
  | respond account t =>
    refine ⟨bank, hshows, fun _ => rfl, Or.inl ⟨rfl, ?_⟩⟩
    show some (some (Answer.posted t.limite.toInt64.toInt t.saldo.toInt64.toInt)) = _
    rw [Int32.toInt_toInt64, Int32.toInt_toInt64]
    rfl

/-- The answers after a step are those before it, but for the call that moved. -/
theorem replied_put {s : State} {i : Nat} {call : Call} (hcall : s.calls[i]? = some call)
    (stores : Stores) (phase : Phase) :
    replied (s.put i call stores phase) i = decided { call with phase := phase } ∧
      ∀ j, j ≠ i → replied (s.put i call stores phase) j = replied s j := by
  have hlt := (List.getElem?_eq_some_iff.mp hcall).1
  refine ⟨?_, fun j hj => ?_⟩
  · rw [replied, State.put]
    dsimp only
    rw [List.getElem?_set_self hlt, Option.bind_some]
  · rw [replied, replied, State.put]
    dsimp only
    rw [List.getElem?_set_ne hj.symm]

/-- **One step of the system**: the cache goes on mirroring the bank, which has seen one posting
    or none. -/
theorem mirrors_step {op : Nat → Int32 × Posting} {s s' : State} {a : Action}
    (hI : Mirrors json op s bank) (hC : ScoresRise s a ∧ ReadIsCurrent json s a)
    (h : step json s a = some s') :
    ∃ bank', Mirrors json op s' bank' ∧
      Linearization.Commits post op replied s s' bank bank' := by
  have hsound := allSound_step hI.sound h
  obtain ⟨call, stores, phase, hcall, hstep, rfl⟩ := step_eq_some.mp h
  have hmem : call ∈ s.calls := List.mem_of_getElem? hcall
  have hkeyed : Keyed json (s.storesOf call.host).redis := hI.keyed
  have hshown : ∀ id, Shows json (s.storesOf call.host).redis bank id := hI.shows
  have hadd : ∀ account t, call.phase = .adding account t →
      (∀ e ∈ ((s.storesOf call.host).redis (getBankStatementKey t.accountId)).entries,
        SortedSet.score e < t.realizadaEm.score) ∧
      getAccountByIdAsync json call.accountId (s.storesOf call.host).redis
        = .ok (some account) := by
    intro account t hphase
    have haddOf : addOf s a = some (call, account, t) := by
      rw [addOf, hcall, Option.bind_some, hphase]
    exact ⟨hC.1 (call, account, t) haddOf, hC.2 (call, account, t) haddOf⟩
  obtain ⟨bank', hshows, hreturned, hcase⟩ := stepCall_commits (hI.sound call hmem) hkeyed
    (hI.held call hmem) hshown hadd hstep
  obtain ⟨hkeyed', hheld⟩ := ServiceRun.holds_of_moves Isolation.inherited_accountId
    (stepCall_moves hstep) (hI.sound call hmem) hkeyed (hI.held call hmem)
  obtain ⟨hself, hothers⟩ := replied_put hcall stores phase
  have hbefore : replied s a.call = decided call := by
    rw [replied, hcall, Option.bind_some]
  refine ⟨bank', ⟨hsound, hkeyed', ?_, ?_, ?_, hshows⟩, ?_⟩
  · intro c hc
    rcases mem_put hc with hc | rfl
    · exact hI.held c hc
    · exact hheld
  · intro i c hc
    by_cases hi : i = a.call
    · subst hi
      rw [State.put] at hc
      dsimp only at hc
      rw [List.getElem?_set_self (List.getElem?_eq_some_iff.mp hcall).1] at hc
      cases hc
      exact hI.asked a.call call hcall
    · rw [State.put] at hc
      dsimp only at hc
      rw [List.getElem?_set_ne (Ne.symm hi)] at hc
      exact hI.asked i c hc
  · intro c hc hret
    rcases mem_put hc with hc | rfl
    · exact hI.replied c hc hret
    · exact hreturned hret
  · rcases hcase with ⟨rfl, hsame⟩ | ⟨reply, hnone, hsome, hpost⟩
    · refine .silent fun i => ?_
      by_cases hi : i = a.call
      · subst hi
        rw [hself, hsame, hbefore]
      · exact hothers i hi
    · have hop := hI.asked a.call call hcall
      have hbank : bank' = (post bank (op a.call)).1 := by rw [hop, hpost]
      rw [hbank]
      refine .commit a.call (hbefore.trans hnone) ?_ hothers
      rw [hself, hsome, hop, hpost]

end Steps

/-! ## Runs -/

/-- What is read of an account, as the bank holds it. -/
def readOf : Except Fault (Option Account) → Option (Option (Int × Int))
  | .error _ => none
  | .ok account => some (account.map fun a => (a.limite.toInt, a.saldo.toInt))

/-- The bank holds what is read. -/
theorem Mirrors.read {json : TransactionJson} {op : Nat → Int32 × Posting} {s : State}
    {bank : Accounts} (h : Mirrors json op s bank) (id : Int32) :
    readOf (getAccountByIdAsync json id s.redis) = some (bank id) := by
  rcases getAccountByIdAsync_of_recorded (h.keyed.recorded id) with ⟨-, hread⟩ | ⟨t, -, hread⟩
  · rw [hread, bank_of_null (h.shows id) hread]
    rfl
  · rw [hread, (bank_of_read h.keyed (h.shows id) hread).2.2]
    rfl

/-- A cache that holds one record for each seed, and nothing else, mirrors the bank of the seeds. -/
theorem mirrors_of_seeds {json : TransactionJson} {seeds : Int32 → Option Transaction} {s : State}
    (hseeds : ∀ id, (s.redis (getBankStatementKey id)).entries
      = ((seeds id).map (entryOf json)).toList)
    (hids : ∀ id t, seeds id = some t → t.accountId = id ∧ (id = 0 → t.limite ≠ 0))
    (hfresh : Fresh s) : Mirrors json (asked s) s (accountsOf seeds) := by
  refine ⟨hfresh.allSound, ?_, ?_, ?_, ?_, ?_⟩
  · intro id e he
    rw [hseeds, Option.mem_toList] at he
    obtain ⟨t, ht, rfl⟩ := Option.map_eq_some_iff.mp he
    exact ⟨t, rfl, (hids id t ht).1⟩
  · intro c hc account haccount
    rw [hfresh c hc] at haccount
    cases haccount
  · intro i c hc
    rw [asked, hc]
  · intro c hc hret
    rw [isReturned, hfresh c hc] at hret
    cases hret
  · intro id
    rw [Shows, accountsOf, SortedSet.last?, hseeds]
    rcases hseed : seeds id with _ | t
    · rfl
    · exact ⟨t, rfl, rfl, rfl, (hids id t hseed).2⟩

/-- Before the first step nobody has been replied. -/
theorem replied_of_fresh {s : State} (h : Fresh s) (i : Nat) : replied s i = none := by
  rw [replied]
  rcases hi : s.calls[i]? with _ | c
  · rfl
  · rw [Option.bind_some, decided, h c (List.mem_of_getElem? hi)]

/-- **Linearizability.**  From a seeded cache, take any interleaving of POST calls, on any accounts
    and from any instances, in which a record is added above everything stored for its account and
    only while what its call read is current.  Then one order of the calls answered explains the
    run: the bank, serving whole requests in this order, gives every call the answer it was given;
    the balances and limits stored at the end are the bank's; every call that has returned is in
    the order; and a call that had returned before another one began stands before it. -/
theorem posts_linearize (json : TransactionJson) (seeds : Int32 → Option Transaction)
    (s s' : State)
    (hseeds : ∀ id, (s.redis (getBankStatementKey id)).entries
      = ((seeds id).map (entryOf json)).toList)
    (hids : ∀ id t, seeds id = some t → t.accountId = id ∧ (id = 0 → t.limite ≠ 0))
    (hfresh : Fresh s) (actions : List Action)
    (hscores : Transition.AllSteps (step json) ScoresRise s actions)
    (hcurrent : Transition.AllSteps (step json) (ReadIsCurrent json) s actions)
    (hrun : Transition.run (step json) s actions = some s') :
    ∃ order : List Nat, order.Nodup ∧
      order.map (replied s') = (Linearization.serveAll post (accountsOf seeds)
        (order.map (asked s))).2.map some ∧
      (∀ id, readOf (getAccountByIdAsync json id s'.redis) = some
        ((Linearization.serveAll post (accountsOf seeds) (order.map (asked s))).1 id)) ∧
      (∀ i c, s'.calls[i]? = some c → isReturned c = true → i ∈ order) ∧
      ∀ before after m, actions = before ++ after →
        Transition.run (step json) s before = some m →
        ∀ (i j : Nat) (c d : Call), m.calls[i]? = some c → isReturned c = true →
          m.calls[j]? = some d → d.phase = .received → j ∈ order → [i, j].Sublist order := by
  have hstart := mirrors_of_seeds hseeds hids hfresh
  have hnone := replied_of_fresh hfresh
  have hC := Transition.AllSteps.and (step json) hscores hcurrent
  obtain ⟨order, hexplains, hend, hbefore⟩ := Linearization.exists_order (step json)
    (fun _ _ _ _ hR hCa hs => mirrors_step hR hCa hs) hnone hstart hC hrun
  refine ⟨order, hexplains.nodup, hexplains.answers, hend.read, ?_, ?_⟩
  · intro i c hc hret
    rw [hexplains.mem_iff, replied, hc, Option.bind_some]
    exact hend.replied c (List.mem_of_getElem? hc) hret
  · intro before after m hsplit hm i j c d hc hret hd hphase hj
    refine hbefore before after m hsplit hm i j ?_ ?_ ((hexplains.mem_iff j).mp hj)
    · -- the state in between mirrors a bank too
      have hCm : Transition.AllSteps (step json)
          (fun s a => ScoresRise s a ∧ ReadIsCurrent json s a) s before :=
        Transition.AllSteps.of_append (step json) (hsplit ▸ hC)
      obtain ⟨_, -, hmid, -⟩ := Linearization.exists_order (step json)
        (fun _ _ _ _ hR hCa hs => mirrors_step hR hCa hs) hnone hstart hCm hm
      rw [replied, hc, Option.bind_some]
      exact hmid.replied c (List.mem_of_getElem? hc) hret
    · rw [replied, hd, Option.bind_some, decided, hphase]

/-- Account 1 is the only one seeded. -/
def oneSeed (id : Int32) : Option Transaction :=
  if id = 1 then some InitializeRedis.seedRecord else none

theorem oneSeed_entries (id : Int32) :
    (InitializeRedis.seededCache (getBankStatementKey id)).entries
      = ((oneSeed id).map (entryOf systemTextJson)).toList := by
  by_cases hid : id = 1
  · rw [hid]
    rfl
  · have hother := saveInsert_of_ne systemTextJson Redis.empty InitializeRedis.seedRecord
      (k := id) (Ne.symm hid)
    rw [oneSeed, if_neg hid]
    exact congrArg SortedSet.entries hother

/-- A credit of 10 and two debits on account 1, and a credit on an account that does not exist. -/
def fourCalls : State :=
  ⟨InitializeRedis.seededCache, [], fun _ => 0,
    [⟨0, 1, ⟨10, 'c', some ['x']⟩, .received⟩, ⟨1, 1, ⟨2000, 'd', some ['y']⟩, .received⟩,
      ⟨1, 9, ⟨10, 'c', some ['z']⟩, .received⟩, ⟨0, 1, ⟨5, 'd', some ['w']⟩, .received⟩]⟩

theorem fourCalls_fresh : Fresh fourCalls := by
  intro c hc
  rcases List.mem_cons.mp hc with rfl | hc
  · rfl
  rcases List.mem_cons.mp hc with rfl | hc
  · rfl
  rcases List.mem_pair.mp hc with rfl | rfl <;> rfl

/-- The calls take turns; the debit of 2000 reads before the credit is added, and is refused after
    it; the debit of 5 reads when the credit has been added. -/
def takingTurns : List Action :=
  ([0, 1, 2, 0, 1, 2, 0, 0, 1, 3, 0, 3, 3, 0, 3, 0, 3, 3, 3].map
    fun i => ⟨i, .ofTicks (i + 5) .localTime⟩)

theorem posts_linearize_takingTurns :
    ∃ (s' : State) (order : List Nat),
      Transition.run (step systemTextJson) fourCalls takingTurns = some s' ∧
      (∀ i < 4, i ∈ order) ∧
      order.map (replied s') = (Linearization.serveAll post (accountsOf oneSeed)
        (order.map (asked fourCalls))).2.map some := by
  have hdone : (Transition.run (step systemTextJson) fourCalls takingTurns).any (fun s' =>
      s'.calls.length = 4 ∧ ∀ c ∈ s'.calls, isReturned c = true) = true := by decide +kernel
  obtain ⟨s', hrun, hall⟩ := (Option.any_eq_true _ _).mp hdone
  obtain ⟨hlen, hreturned⟩ := of_decide_eq_true hall
  have hids : ∀ id t, oneSeed id = some t → t.accountId = id ∧ (id = 0 → t.limite ≠ 0) := by
    intro id t ht
    rw [oneSeed] at ht
    split at ht
    · next hid =>
      cases ht
      exact ⟨hid.symm, fun _ => by decide⟩
    · cases ht
  obtain ⟨order, -, hanswers, -, hin, -⟩ := posts_linearize systemTextJson oneSeed fourCalls s'
    oneSeed_entries hids fourCalls_fresh takingTurns (by decide +kernel) (by decide +kernel) hrun
  refine ⟨s', order, hrun, fun i hi => ?_, hanswers⟩
  have hlt : i < s'.calls.length := by omega
  exact hin i _ (List.getElem?_eq_getElem hlt) (hreturned _ (List.getElem_mem hlt))

/-! ## Exclusive calls -/

/-- The account a call is about to post on: it has read it, will execute, and has not added its
    record yet. -/
def holdingOf (c : Call) : Option Account :=
  match c.phase with
  | .read account => if account.canExecute c.request then some account else none
  | .adding account _ => some account
  | _ => none

/-- No two calls on one account are between their read and their add. -/
def Exclusive (s : State) : Prop :=
  ∀ (i j : Nat) (c d : Call), s.calls[i]? = some c → s.calls[j]? = some d →
    c.accountId = d.accountId → (holdingOf c).isSome → (holdingOf d).isSome → i = j

instance (s : State) : Decidable (Exclusive s) :=
  decidable_of_iff (∀ i < s.calls.length, ∀ j < s.calls.length, ∀ c ∈ s.calls[i]?,
      ∀ d ∈ s.calls[j]?, c.accountId = d.accountId → (holdingOf c).isSome →
        (holdingOf d).isSome → i = j) (by
    constructor
    · intro h i j c d hc hd
      exact h i (List.getElem?_eq_some_iff.mp hc).1 j (List.getElem?_eq_some_iff.mp hd).1 c hc d hd
    · intro h i _ j _ c hc d hd
      exact h i j c d hc hd)

/-- The invariant of exclusive runs: what a call is about to post on is what is stored. -/
structure Current (json : TransactionJson) (s : State) : Prop where
  sound : AllSound s
  keyed : Keyed json s.redis
  held : ∀ c ∈ s.calls, ServiceRun.Holds (fun id t => t.accountId = id) c.accountId c.phase
  current : ∀ c ∈ s.calls, ∀ account, holdingOf c = some account →
    getAccountByIdAsync json c.accountId s.redis = .ok (some account)

section Exclusion

variable {json : TransactionJson}

/-- What is read of an account depends on its top record. -/
theorem getAccountByIdAsync_of_last_eq {db db' : Redis} {id : Int32}
    (h : (db' (getBankStatementKey id)).last? = (db (getBankStatementKey id)).last?) :
    getAccountByIdAsync json id db' = getAccountByIdAsync json id db := by
  rw [getAccountByIdAsync, getAccountByIdAsync, getAccountByIdCore, getAccountByIdCore,
    Redis.sortedSetRangeByRank, Redis.sortedSetRangeByRank, SortedSet.head?_rangeDescending,
    SortedSet.head?_rangeDescending, h]

/-- The call that moves holds what is stored, if it holds anything. -/
theorem holding_of_moves {call : Call} {now : DateTime} {stores stores' : Stores} {phase : Phase}
    (h : Moves json call now stores call.phase stores' phase)
    (hcurrent : ∀ account, holdingOf call = some account →
      getAccountByIdAsync json call.accountId stores.redis = .ok (some account))
    {account : Account} (hholding : holdingOf { call with phase := phase } = some account) :
    getAccountByIdAsync json call.accountId stores'.redis = .ok (some account) := by
  generalize hbefore : call.phase = before at h
  cases h with
  | read read hread _ =>
    -- it holds the account it has just read
    rw [holdingOf] at hholding
    dsimp only at hholding
    split at hholding
    · cases hholding
      exact hread
    · cases hholding
  | execute read hcan =>
    cases hholding
    refine hcurrent account ?_
    rw [holdingOf, hbefore]
    exact if_pos hcan
  | _ => cases hholding

theorem current_step {s s' : State} {a : Action} (hI : Current json s) (hexcl : Exclusive s)
    (h : step json s a = some s') : Current json s' := by
  have hsound := allSound_step hI.sound h
  obtain ⟨call, stores, phase, hcall, hmove, rfl⟩ := step_moves h
  have hmem : call ∈ s.calls := List.mem_of_getElem? hcall
  have hkeyed : Keyed json (s.storesOf call.host).redis := hI.keyed
  obtain ⟨hkeyed', hheld⟩ := ServiceRun.holds_of_moves Isolation.inherited_accountId hmove
    (hI.sound call hmem) hkeyed (hI.held call hmem)
  refine ⟨hsound, hkeyed', ?_, ?_⟩
  · intro c hc
    rcases mem_put hc with hc | rfl
    · exact hI.held c hc
    · exact hheld
  intro d hd account hholding
  obtain ⟨j, hj⟩ := List.mem_iff_getElem?.mp hd
  rw [State.put] at hj
  dsimp only at hj
  by_cases hij : a.call = j
  · subst hij
    rw [List.getElem?_set_self (List.getElem?_eq_some_iff.mp hcall).1] at hj
    cases hj
    exact holding_of_moves hmove (hI.current call hmem) hholding
  rw [List.getElem?_set_ne hij] at hj
  have hd' : d ∈ s.calls := List.mem_of_getElem? hj
  have hbefore := hI.current d hd' account hholding
  rcases hmove.effect with ⟨read, t, hadding, -, hredis⟩ | ⟨-, hredis⟩
  · -- a call that adds holds its account, so the other one is on another account
    have hid : call.accountId ≠ d.accountId := by
      intro hid
      have hother : (holdingOf d).isSome := Option.isSome_iff_exists.mpr ⟨_, hholding⟩
      refine hij (hexcl a.call j call d hcall hj hid ?_ hother)
      rw [holdingOf, hadding]
      rfl
    have hother := Isolation.moves_other hmove (hI.sound call hmem) (hI.held call hmem) hid
    exact (getAccountByIdAsync_congr hother json).trans hbefore
  · exact (getAccountByIdAsync_of_last_eq (last?_of_trimmed hredis _)).trans hbefore

/-- **Exclusion is enough.**  In every run in which no two calls on one account are between their
    read and their add at the same time, every call adds its record while the account it read is
    the one stored: no update is lost, whatever the calls on the other accounts do. -/
theorem exclusive_reads_are_current (json : TransactionJson) (s : State)
    (hkeyed : Keyed json s.redis) (hfresh : Fresh s) (actions : List Action)
    (hexcl : Transition.AllSteps (step json) (fun s _ => Exclusive s) s actions) :
    Transition.AllSteps (step json) (ReadIsCurrent json) s actions := by
  have hstart : Current json s := by
    refine ⟨hfresh.allSound, hkeyed, ?_, ?_⟩
    · intro c hc account haccount
      rw [hfresh c hc] at haccount
      cases haccount
    · intro c hc account hholding
      rw [holdingOf, hfresh c hc] at hholding
      cases hholding
  refine Transition.AllSteps.of_invariant (step json) (I := Current json)
    (fun _ _ _ hI hC hs => current_step hI hC hs) (fun s a hI _ x hx => ?_) actions hstart hexcl
  obtain ⟨c, hc, hadd⟩ := Option.bind_eq_some_iff.mp hx
  split at hadd
  all_goals cases hadd
  next read t hphase =>
    exact hI.current c (List.mem_of_getElem? hc) read (by rw [holdingOf, hphase])

theorem exclusive_reads_are_current_takingTurns :
    Transition.AllSteps (step systemTextJson) (ReadIsCurrent systemTextJson) fourCalls
      takingTurns := by
  refine exclusive_reads_are_current systemTextJson fourCalls ?_ fourCalls_fresh takingTurns
    (by decide +kernel)
  intro id e he
  rw [fourCalls] at he
  dsimp only at he
  rw [oneSeed_entries, oneSeed, Option.mem_toList] at he
  split at he
  · next hid =>
    cases he
    exact ⟨_, rfl, hid.symm⟩
  · cases he

end Exclusion

end Bank

end Rinha
