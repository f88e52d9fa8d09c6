/-
  Concurrent POST requests, from any number of instances over one Redis and one bus.

  A call of `MakeTransactionAsync` goes through the phases of `Phase`, and an action lets one call
  take its next step: validate, read, check and execute on its private copy, add, trim, publish,
  answer.  Between two steps of a call any other call can move; the three stores are shared, a
  wake-up channel is shared by the calls of one instance.

  `Moves` lists everything a call can do, one constructor a step, and every invariant below and in
  the modules after this one is a case split on it.  `run_alone` ties the steps to the sequential
  function: a call nobody interferes with does exactly `makeTransactionAsync`.
-/
import RinhaBackend.Endpoints
import RinhaBackend.Lib.Parties
import RinhaBackend.Lib.Transition

namespace Rinha

namespace RequestRun

open CachedRepository Endpoints

/-- Where a call stands, with its local variables: the account as it was read, and the
    transaction `Execute` made from it. -/
inductive Phase where
  | received
  | reading
  | read (account : Account)
  | adding (account : Account) (createdTransaction : Transaction)
  | trimming (account : Account) (createdTransaction : Transaction)
  | publishing (account : Account) (createdTransaction : Transaction)
  | responding (account : Account) (createdTransaction : Transaction)
  | returned (executed : Option (Account × Transaction))
      (outcome : Except Fault (HttpResult TransactionResponse))

/-- A call of `MakeTransactionAsync` on one of the instances. -/
structure Call where
  host : Nat
  accountId : Int32
  request : TransactionRequest
  phase : Phase

/-- The shared stores and the calls. -/
structure State where
  redis : Redis
  bus : List Transaction
  channels : Nat → Nat
  calls : List Call

/-- The next step of a call, and the clock reading it sees if it is the one that executes. -/
structure Action where
  call : Nat
  now : DateTime

/-- The stores an instance sees. -/
def State.storesOf (s : State) (host : Nat) : Stores := ⟨s.redis, s.bus, s.channels host⟩

/-- The next step of a call on its own. -/
def stepCall (json : TransactionJson) (call : Call) (now : DateTime) (stores : Stores) :
    Option (Stores × Phase) :=
  match call.phase with
  | .received =>
    if call.request.isInvalid then some (stores, .returned none (.ok .unprocessableEntity))
    else some (stores, .reading)
  | .reading =>
    match getAccountByIdAsync json call.accountId stores.redis with
    | .error e => some (stores, .returned none (.error e))
    | .ok none => some (stores, .returned none (toResult ⟨false, -1, -1, some .accountNotFound⟩))
    | .ok (some account) =>
      if account.isEmpty then
        some (stores, .returned none (toResult ⟨false, -1, -1, some .accountNotFound⟩))
      else some (stores, .read account)
  -- from here on the call works on its private copy of the account
  | .read account =>
    if account.canExecute call.request = false then
      some (stores, .returned none (toResult ⟨false, -1, -1, some .exceedLimitError⟩))
    else some (stores, .adding account (account.execute call.request now).2)
  | .adding account t =>
    some ({ stores with redis := saveInsert json stores.redis t }, .trimming account t)
  | .trimming account t =>
    some ({ stores with redis := saveTrim stores.redis t }, .publishing account t)
  | .publishing account t => some ({ stores with bus := stores.bus ++ [t] }, .responding account t)
  | .responding account t =>
    some ({ stores with channel := stores.channel + 1 },
      .returned (some (account, t)) (toResult ⟨true, t.limite, t.saldo, none⟩))
  | .returned .. => none

/-- The state after call `i` has moved. -/
def State.put (s : State) (i : Nat) (call : Call) (stores : Stores) (phase : Phase) : State :=
  ⟨stores.redis, stores.bus, Function.update s.channels call.host stores.channel,
    s.calls.set i { call with phase := phase }⟩

/-- One step of one call. -/
def step (json : TransactionJson) (s : State) (a : Action) : Option State :=
  (s.calls[a.call]?).bind fun call =>
    (stepCall json call a.now (s.storesOf call.host)).map fun r => s.put a.call call r.1 r.2

/-! ## What a step can do -/

/-- The steps of a call: where it stands and what the stores hold, before and after. -/
inductive Moves (json : TransactionJson) (call : Call) (now : DateTime) (stores : Stores) :
    Phase → Stores → Phase → Prop where
  | refuse (h : call.request.isInvalid = true) :
      Moves json call now stores .received stores (.returned none (.ok .unprocessableEntity))
  | validate (h : call.request.isInvalid = false) :
      Moves json call now stores .received stores .reading
  | notFound (outcome : Except Fault (HttpResult TransactionResponse))
      (h : ∀ body, outcome ≠ .ok (.ok body)) :
      Moves json call now stores .reading stores (.returned none outcome)
  | read (account : Account)
      (h : getAccountByIdAsync json call.accountId stores.redis = .ok (some account))
      (hne : account.isEmpty = false) : Moves json call now stores .reading stores (.read account)
  | exceed (account : Account) (h : account.canExecute call.request = false) :
      Moves json call now stores (.read account) stores
        (.returned none (.ok .unprocessableEntity))
  | execute (account : Account) (h : account.canExecute call.request = true) :
      Moves json call now stores (.read account) stores
        (.adding account (account.execute call.request now).2)
  | add (account : Account) (t : Transaction) :
      Moves json call now stores (.adding account t)
        { stores with redis := saveInsert json stores.redis t } (.trimming account t)
  | trim (account : Account) (t : Transaction) :
      Moves json call now stores (.trimming account t)
        { stores with redis := saveTrim stores.redis t } (.publishing account t)
  | publish (account : Account) (t : Transaction) :
      Moves json call now stores (.publishing account t)
        { stores with bus := stores.bus ++ [t] } (.responding account t)
  | respond (account : Account) (t : Transaction) :
      Moves json call now stores (.responding account t)
        { stores with channel := stores.channel + 1 }
        (.returned (some (account, t)) (.ok (.ok ⟨t.limite.toInt64, t.saldo.toInt64⟩)))

variable {json : TransactionJson}

theorem stepCall_moves {call : Call} {now : DateTime} {stores stores' : Stores} {phase : Phase}
    (h : stepCall json call now stores = some (stores', phase)) :
    Moves json call now stores call.phase stores' phase := by
  obtain ⟨host, accountId, request, before⟩ := call
  rw [stepCall] at h
  cases before with
  | received =>
    dsimp only at h
    by_cases hinvalid : request.isInvalid = true
    · rw [if_pos hinvalid] at h
      cases h
      exact .refuse hinvalid
    · rw [if_neg hinvalid] at h
      cases h
      exact .validate (Bool.eq_false_iff.mpr hinvalid)
  | reading =>
    dsimp only at h
    rcases hread : getAccountByIdAsync json accountId stores.redis with e | _ | account
    · rw [hread] at h
      cases h
      exact .notFound _ fun _ hc => nomatch hc
    · rw [hread] at h
      cases h
      exact .notFound _ fun _ hc => nomatch hc
    · rw [hread] at h
      dsimp only at h
      by_cases hempty : account.isEmpty = true
      · rw [if_pos hempty] at h
        cases h
        exact .notFound _ fun _ hc => nomatch hc
      · rw [if_neg hempty] at h
        cases h
        exact .read account hread (Bool.eq_false_iff.mpr hempty)
  | read account =>
    dsimp only at h
    by_cases hcan : account.canExecute request = false
    · rw [if_pos hcan] at h
      cases h
      exact .exceed account hcan
    · rw [if_neg hcan] at h
      cases h
      exact .execute account (Bool.not_eq_false _ ▸ hcan)
  | adding account t =>
    cases h
    exact .add account t
  | trimming account t =>
    cases h
    exact .trim account t
  | publishing account t =>
    cases h
    exact .publish account t
  | responding account t =>
    cases h
    exact .respond account t
  -- a call that has returned takes no step
  | returned executed outcome => cases h

/-- A step of the system is a step of the call it names. -/
theorem step_eq_some {s s' : State} {a : Action} :
    step json s a = some s' ↔ ∃ call stores phase, s.calls[a.call]? = some call ∧
      stepCall json call a.now (s.storesOf call.host) = some (stores, phase) ∧
      s' = s.put a.call call stores phase := by
  constructor
  · intro h
    obtain ⟨call, hcall, hmap⟩ := Option.bind_eq_some_iff.mp h
    obtain ⟨⟨stores, phase⟩, hstep, rfl⟩ := Option.map_eq_some_iff.mp hmap
    exact ⟨call, stores, phase, hcall, hstep, rfl⟩
  · rintro ⟨call, stores, phase, hcall, hstep, rfl⟩
    rw [step, hcall, Option.bind_some, hstep, Option.map_some]

/-- A step of the system is a move of the call it names. -/
theorem step_moves {s s' : State} {a : Action} (h : step json s a = some s') :
    ∃ call stores phase, s.calls[a.call]? = some call ∧
      Moves json call a.now (s.storesOf call.host) call.phase stores phase ∧
      s' = s.put a.call call stores phase := by
  obtain ⟨call, stores, phase, hcall, hstep, rfl⟩ := step_eq_some.mp h
  exact ⟨call, stores, phase, hcall, stepCall_moves hstep, rfl⟩

/-- A call of the next state is one of this state, or the one that moved. -/
theorem mem_put {s : State} {i : Nat} {call c : Call} {stores : Stores} {phase : Phase}
    (h : c ∈ (s.put i call stores phase).calls) :
    c ∈ s.calls ∨ c = { call with phase := phase } := List.mem_or_eq_of_mem_set h

/-! ## What every call keeps true -/

/-- The account and the transaction a call holds, once `Execute` has run. -/
def Phase.executed : Phase → Option (Account × Transaction)
  | .adding account t | .trimming account t | .publishing account t | .responding account t =>
    some (account, t)
  | .returned executed _ => executed
  | .received | .reading | .read _ => none

/-- The account and the transaction of a call whose record has been added. -/
def Phase.added : Phase → Option (Account × Transaction)
  | .trimming account t | .publishing account t | .responding account t => some (account, t)
  | .returned executed _ => executed
  | .received | .reading | .read _ | .adding .. => none

/-- `t` is what `Execute` makes of a valid request that `account` can execute. -/
structure Executed (request : TransactionRequest) (account : Account) (t : Transaction) : Prop where
  valid : request.isInvalid = false
  can : account.canExecute request = true
  made : ∃ now, t = (account.execute request now).2

/-- What the local state of a call says about its request. -/
def Sound (request : TransactionRequest) : Phase → Prop
  | .received => True
  | .reading | .read _ => request.isInvalid = false
  | .adding account t | .trimming account t | .publishing account t | .responding account t =>
    Executed request account t
  | .returned none outcome => ∀ body, outcome ≠ .ok (.ok body)
  | .returned (some (account, t)) outcome =>
    Executed request account t ∧ outcome = .ok (.ok ⟨t.limite.toInt64, t.saldo.toInt64⟩)

section Moving

variable {call : Call} {now : DateTime} {stores stores' : Stores} {phase phase' : Phase}

theorem Moves.sound (h : Moves json call now stores phase stores' phase')
    (hs : Sound call.request phase) : Sound call.request phase' := by
  cases h with
  | refuse _ => exact fun _ hc => nomatch hc
  | validate hvalid => exact hvalid
  | notFound outcome hout => exact hout
  | read account _ _ => exact hs
  | exceed account _ => exact fun _ hc => nomatch hc
  | execute account hcan => exact ⟨hs, hcan, now, rfl⟩
  | add account t => exact hs
  | trim account t => exact hs
  | publish account t => exact hs
  | respond account t => exact ⟨hs, rfl⟩

/-- What a move does to Redis: it adds the record of the call, or at most trims. -/
theorem Moves.effect (h : Moves json call now stores phase stores' phase') :
    (∃ account t, phase = .adding account t ∧ phase' = .trimming account t ∧
        stores'.redis = saveInsert json stores.redis t) ∨
      (phase'.added = phase.added ∧
        (stores'.redis = stores.redis ∨ ∃ t, stores'.redis = saveTrim stores.redis t)) := by
  -- only the two commands of `Save` touch Redis
  cases h with
  | add account t => exact Or.inl ⟨account, t, rfl, rfl, rfl⟩
  | trim account t => exact Or.inr ⟨rfl, Or.inr ⟨t, rfl⟩⟩
  | _ => exact Or.inr ⟨rfl, Or.inl rfl⟩

/-- What has been added stays added. -/
theorem Moves.added (h : Moves json call now stores phase stores' phase')
    {x : Account × Transaction} (hx : phase.added = some x) : phase'.added = some x := by
  rcases h.effect with ⟨account, t, rfl, -, -⟩ | ⟨hsame, -⟩
  · cases hx
  · rw [hsame, hx]

theorem Sound.executed {request : TransactionRequest} (h : Sound request phase)
    {account : Account} {t : Transaction} (hx : phase.executed = some (account, t)) :
    Executed request account t := by
  cases phase with
  | received | reading | read _ => cases hx
  | adding _ _ | trimming _ _ | publishing _ _ | responding _ _ =>
    cases hx
    exact h
  | returned executed outcome =>
    cases hx
    exact h.1

theorem executed_of_added {x : Account × Transaction} (hx : phase.added = some x) :
    phase.executed = some x := by
  cases phase <;> first | exact hx | cases hx

/-- A success is the answer about the transaction the call made. -/
theorem Sound.success {request : TransactionRequest} {executed : Option (Account × Transaction)}
    {body : TransactionResponse} (h : Sound request (.returned executed (.ok (.ok body)))) :
    ∃ account t, executed = some (account, t) ∧ Executed request account t ∧
      body = ⟨t.limite.toInt64, t.saldo.toInt64⟩ := by
  rcases executed with _ | ⟨account, t⟩
  · exact absurd rfl (h body)
  · obtain ⟨hex, hbody⟩ := h
    cases hbody
    exact ⟨account, t, rfl, hex, rfl⟩

end Moving

/-- Nothing has started. -/
def Fresh (s : State) : Prop := ∀ c ∈ s.calls, c.phase = .received

/-- The local states of all calls are sound. -/
def AllSound (s : State) : Prop := ∀ c ∈ s.calls, Sound c.request c.phase

theorem Fresh.allSound {s : State} (h : Fresh s) : AllSound s := by
  intro c hc
  rw [h c hc]
  exact trivial

theorem allSound_step {s s' : State} {a : Action} (hI : AllSound s)
    (h : step json s a = some s') : AllSound s' := by
  obtain ⟨call, stores, phase, hcall, hmove, rfl⟩ := step_moves h
  intro c hc
  rcases mem_put hc with hc | rfl
  · exact hI c hc
  · exact hmove.sound (hI call (List.mem_of_getElem? hcall))

/-- A call whose record has been added is still there after a step. -/
theorem exists_added_step {s s' : State} {a : Action} (h : step json s a = some s') {c : Call}
    (hc : c ∈ s.calls) {x : Account × Transaction} (hx : c.phase.added = some x) :
    ∃ c' ∈ s'.calls, c'.request = c.request ∧ c'.phase.added = some x := by
  obtain ⟨call, stores, phase, hcall, hmove, rfl⟩ := step_moves h
  rcases Parties.mem_or_moved hcall hc { call with phase := phase } with hmem | rfl
  · exact ⟨c, hmem, rfl, hx⟩
  · exact ⟨_, Parties.moved_mem hcall _, rfl, hmove.added hx⟩

/-! ## A call alone -/

section Alone

variable {s : State} {i : Nat} {call : Call} (hcall : s.calls[i]? = some call) (now : DateTime)

include hcall

theorem put_self : s.put i call (s.storesOf call.host) call.phase = s := by
  obtain ⟨hlt, rfl⟩ := List.getElem?_eq_some_iff.mp hcall
  obtain ⟨redis, bus, channels, calls⟩ := s
  rw [State.put, State.storesOf]
  dsimp only
  rw [Function.update_eq_self, List.set_getElem_self]

/-- Once a call has moved, its next step starts from where it stands. -/
theorem step_put (stores : Stores) (phase : Phase) :
    step json (s.put i call stores phase) ⟨i, now⟩
      = (stepCall json { call with phase := phase } now stores).map
          fun r => s.put i call r.1 r.2 := by
  have hlt := (List.getElem?_eq_some_iff.mp hcall).1
  have hget : (s.put i call stores phase).calls[i]? = some { call with phase := phase } :=
    List.getElem?_set_self hlt
  have hstores : (s.put i call stores phase).storesOf call.host = stores := by
    rw [State.storesOf, State.put]
    dsimp only
    rw [Function.update_self]
  rw [step, hget, Option.bind_some]
  dsimp only
  rw [hstores]
  refine congrArg (fun f => Option.map f _) (funext fun r => ?_)
  rw [State.put, State.put, State.put]
  dsimp only
  rw [Function.update_idem, List.set_set]

/-- One step of a call alone, in front of the others. -/
theorem run_put {stores stores' : Stores} {phase phase' : Phase} {n : Nat} {s' : State}
    (hstep : stepCall json { call with phase := phase } now stores = some (stores', phase'))
    (hrest : Transition.run (step json) (s.put i call stores' phase')
      (List.replicate n ⟨i, now⟩) = some s') :
    Transition.run (step json) (s.put i call stores phase) (List.replicate (n + 1) ⟨i, now⟩)
      = some s' := by
  refine (Transition.run_cons (step json)).mpr ⟨_, ?_, hrest⟩
  rw [step_put hcall, hstep, Option.map_some]

theorem run_alone_put (stores : Stores) :
    ∃ n executed, Transition.run (step json) (s.put i call stores .received)
        (List.replicate n ⟨i, now⟩)
      = some (s.put i call
          (makeTransactionAsync json none call.accountId call.request now stores).1
          (.returned executed
            (makeTransactionAsync json none call.accountId call.request now stores).2)) := by
  rw [makeTransactionAsync]
  by_cases hinvalid : call.request.isInvalid = true
  · rw [if_pos hinvalid]
    exact ⟨1, none, run_put hcall now (if_pos hinvalid) rfl⟩
  rw [if_neg hinvalid, TransactionService.tryExecuteTransactionAsync]
  have hvalidate : stepCall json { call with phase := .received } now stores
      = some (stores, .reading) := if_neg hinvalid
  rcases hread : getAccountByIdAsync json call.accountId stores.redis with e | _ | account
  · refine ⟨2, none, run_put hcall now hvalidate (run_put hcall now ?_ rfl)⟩
    rw [stepCall]
    dsimp only
    rw [hread]
  · refine ⟨2, none, run_put hcall now hvalidate (run_put hcall now ?_ rfl)⟩
    rw [stepCall]
    dsimp only
    rw [hread]
  dsimp only
  by_cases hempty : account.isEmpty = true
  · rw [if_pos hempty]
    refine ⟨2, none, run_put hcall now hvalidate (run_put hcall now ?_ rfl)⟩
    rw [stepCall]
    dsimp only
    rw [hread]
    exact if_pos hempty
  have hreading : stepCall json { call with phase := .reading } now stores
      = some (stores, .read account) := by
    rw [stepCall]
    dsimp only
    rw [hread]
    exact if_neg hempty
  rw [if_neg hempty]
  by_cases hcan : account.canExecute call.request = false
  · rw [if_pos hcan]
    exact ⟨3, none, run_put hcall now hvalidate (run_put hcall now hreading
      (run_put hcall now (if_pos hcan) rfl))⟩
  · rw [if_neg hcan]
    exact ⟨7, some (account, _), run_put hcall now hvalidate (run_put hcall now hreading
      (run_put hcall now (if_neg hcan) (run_put hcall now rfl (run_put hcall now rfl
        (run_put hcall now rfl (run_put hcall now rfl rfl))))))⟩

/-- **A call nobody interferes with is `makeTransactionAsync`**: same stores, same outcome. -/
theorem run_alone (hphase : call.phase = .received) :
    ∃ n executed, Transition.run (step json) s (List.replicate n ⟨i, now⟩)
      = some (s.put i call
          (makeTransactionAsync json none call.accountId call.request now
            (s.storesOf call.host)).1
          (.returned executed (makeTransactionAsync json none call.accountId call.request now
            (s.storesOf call.host)).2)) := by
  have hput := @run_alone_put json _ _ _ hcall now (s.storesOf call.host)
  rwa [← hphase, put_self hcall] at hput

end Alone

end RequestRun

end Rinha
