/-
  Accounts do not see each other.

  Take any interleaving of requests and delete every step of a request on an account other than
  `k`.  What is left is a run, and after each of its steps the set of `k` and the responses to the
  requests on `k` are what they were in the interleaving (`other_accounts_unobservable`).

  The relation between the two runs (`SameFor`) says nothing about the other accounts.  A deleted
  step keeps it because `Save` writes under the account of the record, and the record a call holds
  is of the account it was asked for (the invariant `Faithful`); a kept step keeps it because
  reading and writing an account goes through one key (the lemmas called `_congr`).
-/
import RinhaBackend.Lib.Projection
import RinhaBackend.SequentialRun
import RinhaBackend.ServiceRun

namespace Rinha

namespace Isolation

open CachedRepository InitializeRedis ServiceRun
open RequestRun (Call Phase Moves Sound stepCall)

section Definitions

variable (k : Int32)

/-- The call, if it is on account `k`. -/
def callOf (c : Call) : Option Call := if c.accountId = k then some c else none

/-- The statement, if it is of account `k`. -/
def extratoOf (x : Extrato) : Option Extrato := if x.accountId = k then some x else none

/-- The step is not one of a request on another account. -/
def concerns (s : State) : Action → Bool
  | .post a => (s.posts.calls[a.call]?).any fun c => c.accountId = k
  | .extrato i _ => (s.extratos[i]?).any fun x => x.accountId = k
  | .startUp _ => true

/-- The response to a POST, once there is one. -/
def response? (c : Call) : Option (Except Fault (HttpResult TransactionResponse)) :=
  match c.phase with
  | .returned _ outcome => some outcome
  | _ => none

/-- What account `k` shows: its set, and the responses to its requests. -/
structure View where
  set : RedisSet
  posts : List (Option (Except Fault (HttpResult TransactionResponse)))
  extratos : List (Option (Except Fault (HttpResult BankStatement)))

/-- The view of account `k`. -/
def view (s : State) : View where
  set := s.posts.redis (getBankStatementKey k)
  posts := s.posts.calls.map fun c => (callOf k c).bind response?
  extratos := s.extratos.map fun x => (extratoOf k x).bind Extrato.response

/-- Two states of runs from `s₀` are the same for account `k`. -/
structure SameFor (json : TransactionJson) (s₀ s t : State) : Prop where
  faithful : Faithful json (fun id t => t.accountId = id) s
  ids : s.posts.calls.map Call.accountId = s₀.posts.calls.map Call.accountId
  extratoIds : s.extratos.map Extrato.accountId = s₀.extratos.map Extrato.accountId
  set : s.posts.redis (getBankStatementKey k) = t.posts.redis (getBankStatementKey k)
  calls : s.posts.calls.map (callOf k) = t.posts.calls.map (callOf k)
  extratos : s.extratos.map (extratoOf k) = t.extratos.map (extratoOf k)
  startUps : s.startUps = t.startUps

end Definitions

/-! ## One key -/

section OneKey

variable {json : TransactionJson}

/-- A record hands on whose it is. -/
theorem inherited_accountId : Inherited fun id t => t.accountId = id where
  accountId h := h
  execute := by
    rintro id u request t hu hex
    obtain ⟨now, rfl⟩ := hex.made
    rw [Account.execute_accountId]
    exact hu

/-- A call leaves the sets of the other accounts alone. -/
theorem moves_other {call : Call} {now : DateTime} {stores stores' : Stores} {phase : Phase}
    (h : Moves json call now stores call.phase stores' phase)
    (hsound : Sound call.request call.phase)
    (hheld : Holds (fun id t => t.accountId = id) call.accountId call.phase) {k : Int32}
    (hk : call.accountId ≠ k) :
    stores'.redis (getBankStatementKey k) = stores.redis (getBankStatementKey k) := by
  have hother : ∀ account t, call.phase.executed = some (account, t) → t.accountId ≠ k := by
    intro account t hex
    have ht : t.accountId = call.accountId :=
      holds_executed inherited_accountId hsound hheld hex
    rw [ht]
    exact hk
  generalize hbefore : call.phase = before at h hother
  cases h with
  | add account t => exact saveInsert_of_ne json _ _ (hother account t rfl)
  | trim account t => exact saveTrim_of_ne _ _ (hother account t rfl)
  | _ => rfl

/-- A call depends on the set of its account alone. -/
theorem stepCall_congr {call : Call} {now : DateTime} {stores stores' other : Stores}
    {phase : Phase} (hset : stores.redis (getBankStatementKey call.accountId)
      = other.redis (getBankStatementKey call.accountId))
    (h : stepCall json call now stores = some (stores', phase)) :
    ∃ other', stepCall json call now other = some (other', phase) ∧
      stores'.redis (getBankStatementKey call.accountId)
        = other'.redis (getBankStatementKey call.accountId) := by
  have hread := getAccountByIdAsync_congr hset json
  obtain ⟨host, accountId, request, before⟩ := call
  rw [stepCall] at h ⊢
  cases before with
  | received =>
    dsimp only at h ⊢
    split at h
    · next hinvalid =>
      cases h
      exact ⟨other, if_pos hinvalid, hset⟩
    · next hvalid =>
      cases h
      exact ⟨other, if_neg hvalid, hset⟩
  | reading =>
    dsimp only at h hread ⊢
    rw [← hread]
    split at h
    · cases h
      exact ⟨other, rfl, hset⟩
    · cases h
      exact ⟨other, rfl, hset⟩
    · split at h
      · next hempty =>
        cases h
        exact ⟨other, if_pos hempty, hset⟩
      · next hne =>
        cases h
        exact ⟨other, if_neg hne, hset⟩
  | read account =>
    dsimp only at h ⊢
    split at h
    · next hexceed =>
      cases h
      exact ⟨other, if_pos hexceed, hset⟩
    · next hcan =>
      cases h
      exact ⟨other, if_neg hcan, hset⟩
  | adding account t =>
    cases h
    exact ⟨_, rfl, saveInsert_congr hset json t⟩
  | trimming account t =>
    cases h
    exact ⟨_, rfl, saveTrim_congr hset t⟩
  | publishing account t =>
    cases h
    exact ⟨_, rfl, hset⟩
  | responding account t =>
    cases h
    exact ⟨_, rfl, hset⟩
  | returned executed outcome => cases h

/-- A start-up does under one key what it finds under that key. -/
theorem stepStartUp_congr {rows rest : List Row} {db db' other : Redis} {k : Int32}
    (hset : db (getBankStatementKey k) = other (getBankStatementKey k))
    (h : stepStartUp json rows db = some (db', rest)) :
    ∃ other', stepStartUp json rows other = some (other', rest) ∧
      db' (getBankStatementKey k) = other' (getBankStatementKey k) := by
  cases rows with
  | nil => cases h
  | cons row rows =>
    rw [stepStartUp] at h ⊢
    by_cases hdesc : row.descricao = none
    · rw [if_neg (not_not.mpr hdesc)] at h ⊢
      rcases ht : row.realizadaEm with _ | t
      · rw [ht] at h
        cases h
        exact ⟨other, rfl, hset⟩
      · rw [ht] at h
        cases h
        exact ⟨_, rfl, saveInsert_congr hset json _⟩
    · rw [if_pos hdesc] at h ⊢
      cases h
      exact ⟨other, rfl, hset⟩

/-- So does a statement. -/
theorem getBankStatementAsync_congr {id : Int32} {s t : Stores}
    (hset : s.redis (getBankStatementKey id) = t.redis (getBankStatementKey id)) (now : DateTime) :
    Endpoints.getBankStatementAsync json id now s
      = Endpoints.getBankStatementAsync json id now t := by
  rw [Endpoints.getBankStatementAsync, Endpoints.getBankStatementAsync,
    TransactionService.getBankStatementAsync, TransactionService.getBankStatementAsync,
    CachedRepository.getBankStatementAsync_congr hset json now]

end OneKey

/-! ## One step -/

section Unwinding

variable {json : TransactionJson} {k : Int32} {s₀ s s' t : State}

theorem eq_of_callOf {c c' : Call} (h : callOf k c' = callOf k c) (hc : c.accountId = k) :
    c' = c := by
  rw [callOf, callOf, if_pos hc] at h
  split at h
  · exact Option.some.inj h
  · cases h

theorem eq_of_extratoOf {x x' : Extrato} (h : extratoOf k x' = extratoOf k x)
    (hx : x.accountId = k) : x' = x := by
  rw [extratoOf, extratoOf, if_pos hx] at h
  split at h
  · exact Option.some.inj h
  · cases h

/-- Which steps concern `k` can be told from any state of the run. -/
theorem SameFor.concerns_post (h : SameFor k json s₀ s t) {a : RequestRun.Action} {call : Call}
    (hcall : s.posts.calls[a.call]? = some call) :
    concerns k s₀ (.post a) = decide (call.accountId = k) := by
  obtain ⟨call₀, hcall₀, hid⟩ := Parties.exists_of_map_eq h.ids hcall
  rw [concerns, hcall₀, Option.any_some, hid]

theorem SameFor.concerns_extrato (h : SameFor k json s₀ s t) {i : Nat} {now : DateTime}
    {x : Extrato} (hx : s.extratos[i]? = some x) :
    concerns k s₀ (.extrato i now) = decide (x.accountId = k) := by
  obtain ⟨x₀, hx₀, hid⟩ := Parties.exists_of_map_eq h.extratoIds hx
  rw [concerns, hx₀, Option.any_some, hid]

theorem SameFor.skip_post (h : SameFor k json s₀ s t) {a : RequestRun.Action}
    (ha : concerns k s₀ (.post a) = false) (hstep : step json s (.post a) = some s') :
    SameFor k json s₀ s' t := by
  have hfaithful := faithful_step inherited_accountId h.faithful hstep
  obtain ⟨posts, hposts, rfl⟩ := step_post hstep
  obtain ⟨call, stores, phase, hcall, hmove, rfl⟩ := RequestRun.step_moves hposts
  have hcmem : call ∈ s.posts.calls := List.mem_of_getElem? hcall
  have hk : call.accountId ≠ k := by
    rw [h.concerns_post hcall] at ha
    exact of_decide_eq_false ha
  refine ⟨hfaithful, Eq.trans (Parties.map_set_of_eq hcall ?_) h.ids, h.extratoIds, ?_,
    Eq.trans (Parties.map_set_of_eq hcall ?_) h.calls, h.extratos, h.startUps⟩
  · rfl
  · rw [← h.set]
    exact moves_other hmove (h.faithful.sound call hcmem) (h.faithful.held call hcmem) hk
  · rw [callOf, callOf, if_neg hk, if_neg hk]

theorem SameFor.skip_extrato (h : SameFor k json s₀ s t) {i : Nat} {now : DateTime}
    (ha : concerns k s₀ (.extrato i now) = false)
    (hstep : step json s (.extrato i now) = some s') : SameFor k json s₀ s' t := by
  have hfaithful := faithful_step inherited_accountId h.faithful hstep
  obtain ⟨x, hx, -, rfl⟩ := step_extrato hstep
  have hk : x.accountId ≠ k := by
    rw [h.concerns_extrato hx] at ha
    exact of_decide_eq_false ha
  refine ⟨hfaithful, h.ids, Eq.trans (Parties.map_set_of_eq hx ?_) h.extratoIds, h.set, h.calls,
    Eq.trans (Parties.map_set_of_eq hx ?_) h.extratos, h.startUps⟩
  · rfl
  · rw [extratoOf, extratoOf, if_neg hk, if_neg hk]

/-- **A step of a request on another account changes nothing for `k`.** -/
theorem SameFor.skip (h : SameFor k json s₀ s t) {a : Action} (ha : concerns k s₀ a = false)
    (hstep : step json s a = some s') : SameFor k json s₀ s' t := by
  cases a with
  | post a => exact h.skip_post ha hstep
  | extrato i now => exact h.skip_extrato ha hstep
  | startUp i => cases ha

/-- The same call stands in the other state, and finds the same set. -/
theorem SameFor.keep_post (h : SameFor k json s₀ s t) {a : RequestRun.Action}
    (ha : concerns k s₀ (.post a) = true) (hstep : step json s (.post a) = some s') :
    ∃ t', step json t (.post a) = some t' ∧ SameFor k json s₀ s' t' := by
  have hfaithful := faithful_step inherited_accountId h.faithful hstep
  obtain ⟨posts, hposts, rfl⟩ := step_post hstep
  obtain ⟨call, stores, phase, hcall, hmove, rfl⟩ := RequestRun.step_eq_some.mp hposts
  have hk : call.accountId = k := by
    rw [h.concerns_post hcall] at ha
    exact of_decide_eq_true ha
  obtain ⟨call', hcall', hof⟩ := Parties.exists_of_map_eq h.calls hcall
  obtain rfl := eq_of_callOf hof hk
  have hset : (s.posts.storesOf call'.host).redis (getBankStatementKey call'.accountId)
      = (t.posts.storesOf call'.host).redis (getBankStatementKey call'.accountId) := by
    rw [hk]
    exact h.set
  obtain ⟨other, hother, hset'⟩ := stepCall_congr hset hmove
  rw [hk] at hset'
  refine ⟨{ t with posts := t.posts.put a.call call' other phase }, ?_, hfaithful,
    Eq.trans (Parties.map_set_of_eq hcall ?_) h.ids, h.extratoIds, hset', ?_, h.extratos,
    h.startUps⟩
  · rw [step, RequestRun.step_eq_some.mpr ⟨call', other, phase, hcall', hother, rfl⟩,
      Option.map_some]
  · rfl
  · show (s.posts.calls.set a.call _).map (callOf k) = (t.posts.calls.set a.call _).map (callOf k)
    rw [List.map_set, List.map_set, h.calls]

/-- The same statement is asked for in the other state, and reads the same set. -/
theorem SameFor.keep_extrato (h : SameFor k json s₀ s t) {i : Nat} {now : DateTime}
    (ha : concerns k s₀ (.extrato i now) = true)
    (hstep : step json s (.extrato i now) = some s') :
    ∃ t', step json t (.extrato i now) = some t' ∧ SameFor k json s₀ s' t' := by
  have hfaithful := faithful_step inherited_accountId h.faithful hstep
  obtain ⟨x, hx, hnone, rfl⟩ := step_extrato hstep
  have hk : x.accountId = k := by
    rw [h.concerns_extrato hx] at ha
    exact of_decide_eq_true ha
  obtain ⟨x', hx', hof⟩ := Parties.exists_of_map_eq h.extratos hx
  obtain rfl := eq_of_extratoOf hof hk
  have hread : Endpoints.getBankStatementAsync json x'.accountId now (s.posts.storesOf x'.host)
      = Endpoints.getBankStatementAsync json x'.accountId now (t.posts.storesOf x'.host) := by
    refine getBankStatementAsync_congr ?_ now
    rw [hk]
    exact h.set
  refine ⟨{ t with extratos := t.extratos.set i { x' with
    response := some (Endpoints.getBankStatementAsync json x'.accountId now
      (t.posts.storesOf x'.host)) } }, ?_, hfaithful, h.ids,
    Eq.trans (Parties.map_set_of_eq hx ?_) h.extratoIds, h.set, h.calls, ?_, h.startUps⟩
  · rw [step, hx', Option.bind_some, hnone]
  · rfl
  · show (s.extratos.set i _).map (extratoOf k) = (t.extratos.set i _).map (extratoOf k)
    rw [List.map_set, List.map_set, h.extratos, hread]

/-- A start-up takes the same row in both states. -/
theorem SameFor.keep_startUp (h : SameFor k json s₀ s t) {i : Nat}
    (hstep : step json s (.startUp i) = some s') :
    ∃ t', step json t (.startUp i) = some t' ∧ SameFor k json s₀ s' t' := by
  have hfaithful := faithful_step inherited_accountId h.faithful hstep
  obtain ⟨rows, db, rest, hrows, hmove, rfl⟩ := step_startUp hstep
  obtain ⟨other, hother, hset⟩ := stepStartUp_congr h.set hmove
  refine ⟨t.putStartUp i other rest, ?_, hfaithful, h.ids, h.extratoIds, hset, h.calls,
    h.extratos, ?_⟩
  · rw [step, ← h.startUps, hrows, Option.bind_some, hother, Option.map_some]
  · show s.startUps.set i rest = t.startUps.set i rest
    rw [h.startUps]

/-- **Every other step can be taken in the run without them**, to the same for `k`. -/
theorem SameFor.keep (h : SameFor k json s₀ s t) {a : Action} (ha : concerns k s₀ a = true)
    (hstep : step json s a = some s') :
    ∃ t', step json t a = some t' ∧ SameFor k json s₀ s' t' := by
  cases a with
  | post a => exact h.keep_post ha hstep
  | extrato i now => exact h.keep_extrato ha hstep
  | startUp i => exact h.keep_startUp hstep

/-- States that are the same for `k` show the same. -/
theorem SameFor.view_eq (h : SameFor k json s₀ s t) : view k s = view k t := by
  have hposts := congrArg (List.map fun c => c.bind response?) h.calls
  have hextratos := congrArg (List.map fun x => x.bind Extrato.response) h.extratos
  rw [List.map_map, List.map_map] at hposts hextratos
  rw [view, view, h.set]
  exact congrArg₂ (View.mk _) hposts hextratos

end Unwinding

/-! ## Runs -/

/-- **Accounts are isolated.**  From a seeded cache, a run of requests with every step of a request
    on an account other than `k` deleted is a run, and it shows the same of `k` after each step that
    is left: the content of the set, and every response to a request on `k`. -/
theorem other_accounts_unobservable (json : TransactionJson) (k : Int32) (s s' : State)
    (hcache : SequentialRun.SeededCache json s.posts.redis) (hfresh : RequestRun.Fresh s.posts)
    (actions : List Action) (hrun : Transition.run (step json) s actions = some s') :
    ∃ t, Transition.run (step json) s (actions.filter (concerns k s)) = some t ∧
      Projection.observed (step json) (concerns k s) (view k) s actions
        = Projection.observed (step json) (concerns k s) (view k) s
            (actions.filter (concerns k s)) ∧
      view k s' = view k t := by
  have hheld : ∀ c ∈ s.posts.calls, Holds (fun id t => t.accountId = id) c.accountId c.phase := by
    intro c hc account haccount
    rw [hfresh c hc] at haccount
    cases haccount
  have hfaithful : Faithful json (fun id t => t.accountId = id) s :=
    ⟨hfresh.allSound, hcache.keyed, hheld, fun _ _ _ _ _ h => accountId_of_seed? h⟩
  obtain ⟨t, hrun', hsame, hobserved⟩ := Projection.run_filter (R := SameFor k json s)
    (fun _ _ _ _ hR ha hs => hR.skip ha hs) (fun _ _ _ _ hR ha hs => hR.keep ha hs)
    (fun _ _ hR => hR.view_eq) actions s s' s ⟨hfaithful, rfl, rfl, rfl, rfl, rfl, rfl⟩ hrun
  exact ⟨t, hrun', hobserved, hsame.view_eq⟩

/-- A table with accounts 1 and 2. -/
def twoRows : List Row := [seedRow, ⟨2, none, 'c', 0, 0, 500, some (.ofTicks 0 .unspecified)⟩]

theorem twoRows_seedTable : SequentialRun.SeedTable twoRows where
  one k := by
    by_cases hk : (1 : Int32) = k
    · subst hk
      decide
    · have hsub : (seedRows twoRows k).Sublist (twoRows.drop 1) := by
        rw [seedRows, twoRows, List.filter_cons_of_neg fun h => hk (of_decide_eq_true h).1]
        exact List.filter_sublist
      exact hsub.length_le
  dated := by decide

/-- A credit on each of two accounts, and a statement of the first. -/
def twoAccounts : State :=
  ⟨⟨(executeAsync systemTextJson twoRows Redis.empty).1, [], fun _ => 0,
    [⟨0, 1, TransactionService.creditOfTen, .received⟩,
      ⟨1, 2, TransactionService.creditOfTen, .received⟩]⟩, [⟨0, 1, none⟩], []⟩

/-- The two credits in step, then the statement. -/
def alternating : List Action :=
  (List.replicate 7 [.post ⟨0, .ofTicks 5 .localTime⟩, .post ⟨1, .ofTicks 6 .localTime⟩]).flatten
    ++ [.extrato 0 (.ofTicks 7 .localTime)]

theorem other_accounts_unobservable_two :
    ∃ s' t, Transition.run (step systemTextJson) twoAccounts alternating = some s' ∧
      Transition.run (step systemTextJson) twoAccounts
        (alternating.filter (concerns 1 twoAccounts)) = some t ∧ view 1 s' = view 1 t := by
  have hsome : (Transition.run (step systemTextJson) twoAccounts alternating).isSome = true := by
    decide +kernel
  obtain ⟨s', hrun⟩ := Option.isSome_iff_exists.mp hsome
  obtain ⟨t, hrun', -, hview⟩ := other_accounts_unobservable systemTextJson 1 twoAccounts s'
    (twoRows_seedTable.seededCache systemTextJson)
    (fun c hc => by rcases List.mem_pair.mp hc with rfl | rfl <;> rfl) alternating hrun
  exact ⟨s', t, hrun, hrun', hview⟩

end Isolation

end Rinha
