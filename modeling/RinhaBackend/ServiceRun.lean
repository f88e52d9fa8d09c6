/-
  The whole service under interleaving: POST requests, statements, and start-ups of instances over
  the same table, on one Redis.

  The POST calls are those of `RequestRun`, step for step; a statement is one command of Redis and a
  pure reading of its result; a start-up issues one `SortedSetAddAsync` for each row the query
  returns.  `startUp_alone` ties the steps of a start-up to `executeAsync`.

  The invariant is about records (`Faithful`).  What `Save` writes, and under which key, comes from
  the record the call had read, so a property of the records of an account passes from record to
  record: it is kept by every step as soon as the seeds have it and `Execute` hands it on
  (`Inherited`).
-/
import RinhaBackend.DebitSafety

namespace Rinha

namespace ServiceRun

open CachedRepository InitializeRedis
open RequestRun (Call Phase Moves Sound Executed AllSound)
open DebitSafety (accountOf)

/-- A GET of a statement on one of the instances, and its response once it has one. -/
structure Extrato where
  host : Nat
  accountId : Int32
  response : Option (Except Fault (HttpResult BankStatement))

/-- The calls, and for each start-up the rows it has still to go through. -/
structure State where
  posts : RequestRun.State
  extratos : List Extrato
  startUps : List (List Row)

/-- The next step of a POST, of a statement, or of a start-up. -/
inductive Action where
  | post (a : RequestRun.Action)
  | extrato (i : Nat) (now : DateTime)
  | startUp (i : Nat)

section Steps

variable (json : TransactionJson)

/-- A start-up takes its next row; a NULL time ends it. -/
def stepStartUp : List Row → Redis → Option (Redis × List Row)
  | [], _ => none
  | row :: rest, db =>
    if row.descricao ≠ none then some (db, rest)
    else match row.realizadaEm with
      | none => some (db, [])
      | some realizadaEm => some (addSeed json db (seedTransaction row realizadaEm), rest)

/-- The state after start-up `i` has moved. -/
def State.putStartUp (s : State) (i : Nat) (db : Redis) (rest : List Row) : State :=
  ⟨{ s.posts with redis := db }, s.extratos, s.startUps.set i rest⟩

/-- One step. -/
def step (s : State) : Action → Option State
  | .post a => (RequestRun.step json s.posts a).map fun posts => { s with posts := posts }
  | .extrato i now =>
    (s.extratos[i]?).bind fun x =>
      match x.response with
      | some _ => none
      | none => some { s with extratos := s.extratos.set i { x with
          response := some (Endpoints.getBankStatementAsync json x.accountId now
            (s.posts.storesOf x.host)) } }
  | .startUp i =>
    (s.startUps[i]?).bind fun rows =>
      (stepStartUp json rows s.posts.redis).map fun r => s.putStartUp i r.1 r.2

variable {json}

/-- Runs of POST calls are runs of the service. -/
theorem run_posts (as : List RequestRun.Action) : ∀ s : State,
    Transition.run (step json) s (as.map .post)
      = (Transition.run (RequestRun.step json) s.posts as).map fun posts =>
          { s with posts := posts } := by
  induction as with
  | nil => exact fun s => rfl
  | cons a as ih =>
    intro s
    rw [List.map_cons, Transition.run, Transition.run, step]
    rcases RequestRun.step json s.posts a with _ | posts
    · rfl
    · exact ih { s with posts := posts }

/-- The next step of a start-up that has moved. -/
theorem run_putStartUp {s : State} {i : Nat} {rows rest : List Row} {db : Redis} {n : Nat}
    {s' : State} (hrows : s.startUps[i]? = some rows)
    (hstep : stepStartUp json rows s.posts.redis = some (db, rest))
    (hrest : Transition.run (step json) (s.putStartUp i db rest) (List.replicate n (.startUp i))
      = some s') :
    Transition.run (step json) s (List.replicate (n + 1) (.startUp i)) = some s' := by
  refine (Transition.run_cons _).mpr ⟨_, ?_, hrest⟩
  rw [step, hrows, Option.bind_some, hstep, Option.map_some]

/-- **A start-up nobody interferes with is `executeAsync`.** -/
theorem startUp_alone (rows : List Row) : ∀ {s : State} {i : Nat}, s.startUps[i]? = some rows →
    ∃ n rest, Transition.run (step json) s (List.replicate n (.startUp i))
      = some (s.putStartUp i (executeAsync json rows s.posts.redis).1 rest) := by
  induction rows with
  | nil =>
    intro s i hrows
    obtain ⟨hlt, hget⟩ := List.getElem?_eq_some_iff.mp hrows
    refine ⟨0, [], ?_⟩
    rw [executeAsync, State.putStartUp, ← hget, List.set_getElem_self]
    rfl
  | cons row rows ih =>
    intro s i hrows
    have hlt := (List.getElem?_eq_some_iff.mp hrows).1
    -- after a row that does not end it, the start-up goes on as a shorter one
    have hnext : ∀ db, stepStartUp json (row :: rows) s.posts.redis = some (db, rows) →
        executeAsync json (row :: rows) s.posts.redis = executeAsync json rows db →
        ∃ n rest, Transition.run (step json) s (List.replicate n (.startUp i))
          = some (s.putStartUp i (executeAsync json (row :: rows) s.posts.redis).1 rest) := by
      intro db hstep hexec
      have hgoes : (s.putStartUp i db rows).startUps[i]? = some rows := List.getElem?_set_self hlt
      obtain ⟨n, rest, hrun⟩ := ih hgoes
      refine ⟨n + 1, rest, run_putStartUp hrows hstep ?_⟩
      rw [hrun, hexec, State.putStartUp, State.putStartUp, State.putStartUp]
      dsimp only
      rw [List.set_set]
    by_cases hdesc : row.descricao = none
    · rcases ht : row.realizadaEm with _ | t
      · have hends : stepStartUp json (row :: rows) s.posts.redis = some (s.posts.redis, []) := by
          rw [stepStartUp, if_neg (not_not.mpr hdesc), ht]
        refine ⟨1, [], run_putStartUp hrows hends ?_⟩
        rw [executeAsync, if_neg (not_not.mpr hdesc), ht]
        rfl
      · refine hnext (addSeed json s.posts.redis (seedTransaction row t)) ?_ ?_
        · rw [stepStartUp, if_neg (not_not.mpr hdesc), ht]
        · rw [executeAsync, if_neg (not_not.mpr hdesc), ht]
    · refine hnext s.posts.redis ?_ ?_
      · rw [stepStartUp, if_pos hdesc]
      · rw [executeAsync, if_pos hdesc]

theorem step_post {s s' : State} {a : RequestRun.Action} (h : step json s (.post a) = some s') :
    ∃ posts, RequestRun.step json s.posts a = some posts ∧ s' = { s with posts := posts } := by
  obtain ⟨posts, hposts, rfl⟩ := Option.map_eq_some_iff.mp h
  exact ⟨posts, hposts, rfl⟩

theorem step_extrato {s s' : State} {i : Nat} {now : DateTime}
    (h : step json s (.extrato i now) = some s') :
    ∃ x, s.extratos[i]? = some x ∧ x.response = none ∧
      s' = { s with extratos := s.extratos.set i { x with
        response := some (Endpoints.getBankStatementAsync json x.accountId now
          (s.posts.storesOf x.host)) } } := by
  obtain ⟨x, hx, hstep⟩ := Option.bind_eq_some_iff.mp h
  rcases hr : x.response with _ | response
  · rw [hr] at hstep
    cases hstep
    exact ⟨x, hx, hr, rfl⟩
  · rw [hr] at hstep
    cases hstep

theorem step_startUp {s s' : State} {i : Nat} (h : step json s (.startUp i) = some s') :
    ∃ rows db rest, s.startUps[i]? = some rows ∧
      stepStartUp json rows s.posts.redis = some (db, rest) ∧
      s' = s.putStartUp i db rest := by
  obtain ⟨rows, hrows, hmap⟩ := Option.bind_eq_some_iff.mp h
  obtain ⟨⟨db, rest⟩, hstep, rfl⟩ := Option.map_eq_some_iff.mp hmap
  exact ⟨rows, db, rest, hrows, hstep, rfl⟩

/-- A start-up adds the record of its next row, or leaves Redis alone; the rows left are rows it
    had. -/
theorem stepStartUp_cases {rows rest : List Row} {db db' : Redis}
    (h : stepStartUp json rows db = some (db', rest)) : rest ⊆ rows ∧
      (db' = db ∨ ∃ row ∈ rows, ∃ t, seed? row = some t ∧ db' = saveInsert json db t) := by
  cases rows with
  | nil => cases h
  | cons row rows =>
    rw [stepStartUp] at h
    by_cases hdesc : row.descricao = none
    · rw [if_neg (not_not.mpr hdesc)] at h
      rcases ht : row.realizadaEm with _ | t
      · rw [ht] at h
        cases h
        exact ⟨List.nil_subset _, Or.inl rfl⟩
      · rw [ht] at h
        cases h
        have hseed : seed? row = some (seedTransaction row t) := by
          rw [seed?, if_pos hdesc, ht, Option.map_some]
        exact ⟨List.subset_cons_self _ _, Or.inr ⟨row, List.mem_cons_self, _, hseed, rfl⟩⟩
    · rw [if_pos hdesc] at h
      cases h
      exact ⟨List.subset_cons_self _ _, Or.inl rfl⟩

/-- What holds of all rows of the start-ups holds of those that are left. -/
theorem startUps_step {P : Row → Prop} {s s' : State} {a : Action}
    (hP : ∀ rows ∈ s.startUps, ∀ row ∈ rows, P row) (h : step json s a = some s') :
    ∀ rows ∈ s'.startUps, ∀ row ∈ rows, P row := by
  cases a with
  | post a =>
    obtain ⟨posts, -, rfl⟩ := step_post h
    exact hP
  | extrato i now =>
    obtain ⟨x, -, -, rfl⟩ := step_extrato h
    exact hP
  | startUp i =>
    obtain ⟨rows, db, rest, hrows, hstep, rfl⟩ := step_startUp h
    intro left hleft row hrow
    rcases List.mem_or_eq_of_mem_set hleft with hold | rfl
    · exact hP left hold row hrow
    · exact hP rows (List.mem_of_getElem? hrows) row ((stepStartUp_cases hstep).1 hrow)

end Steps

/-! ## Records handed on -/

/-- `Execute` hands the property on: a record made of the account of a record that has it has it
    too; and it says whose record it is. -/
structure Inherited (R : Int32 → Transaction → Prop) : Prop where
  accountId : ∀ {id t}, R id t → t.accountId = id
  execute : ∀ {id u request t}, R id u → Executed request u.account t → R id t

section Invariant

variable (json : TransactionJson) (R : Int32 → Transaction → Prop)

/-- A call holds the account of a record with the property. -/
def Holds (id : Int32) (phase : Phase) : Prop :=
  ∀ account, accountOf phase = some account → ∃ u, R id u ∧ account = u.account

/-- Records with the property are stored, and are what the calls have read; the start-ups have
    only rows whose records have it. -/
structure Faithful (s : State) : Prop where
  sound : AllSound s.posts
  stored : Records json R s.posts.redis
  held : ∀ c ∈ s.posts.calls, Holds R c.accountId c.phase
  seeds : ∀ rows ∈ s.startUps, ∀ row ∈ rows, ∀ t, seed? row = some t → R row.accountId t

variable {json R}

/-- The record a call is about to add has the property of the call's account. -/
theorem holds_executed (hR : Inherited R) {id : Int32} {request : TransactionRequest}
    {phase : Phase} (hsound : Sound request phase) (hheld : Holds R id phase)
    {account : Account} {t : Transaction}
    (hphase : phase.executed = some (account, t)) : R id t := by
  have haccount : accountOf phase = some account := by
    rw [accountOf]
    · rw [hphase]
      rfl
    · rintro a rfl
      cases hphase
  obtain ⟨u, hu, rfl⟩ := hheld account haccount
  exact hR.execute hu (hsound.executed hphase)

/-- **One step of a call** hands the property on. -/
theorem holds_of_moves (hR : Inherited R) {call : Call} {now : DateTime} {stores stores' : Stores}
    {phase : Phase} (h : Moves json call now stores call.phase stores' phase)
    (hsound : Sound call.request call.phase) (hstored : Records json R stores.redis)
    (hheld : Holds R call.accountId call.phase) :
    Records json R stores'.redis ∧ Holds R call.accountId phase := by
  generalize hbefore : call.phase = before at h hsound hheld
  cases h with
  | refuse _ | validate _ | notFound _ _ | exceed _ _ =>
    exact ⟨hstored, fun _ hnone => nomatch hnone⟩
  | read account hread _ =>
    obtain ⟨u, -, hu, rfl⟩ := hstored.read hread
    refine ⟨hstored, fun account haccount => ?_⟩
    cases haccount
    exact ⟨u, hu, rfl⟩
  | add account t =>
    have ht : R call.accountId t := holds_executed hR hsound hheld rfl
    refine ⟨hstored.saveInsert ?_, hheld⟩
    rwa [hR.accountId ht]
  | trim account t => exact ⟨hstored.saveTrim t, hheld⟩
  | execute _ _ | publish _ _ | respond _ _ => exact ⟨hstored, hheld⟩

theorem faithful_step (hR : Inherited R) {s s' : State} {a : Action} (hI : Faithful json R s)
    (h : step json s a = some s') : Faithful json R s' := by
  cases a with
  | post a =>
    obtain ⟨posts, hposts, rfl⟩ := step_post h
    have hsound := RequestRun.allSound_step hI.sound hposts
    obtain ⟨call, stores, phase, hcall, hmove, rfl⟩ := RequestRun.step_moves hposts
    have hcmem : call ∈ s.posts.calls := List.mem_of_getElem? hcall
    obtain ⟨hstored, hheld⟩ :=
      holds_of_moves hR hmove (hI.sound call hcmem) hI.stored (hI.held call hcmem)
    refine ⟨hsound, hstored, fun c hc => ?_, hI.seeds⟩
    rcases RequestRun.mem_put hc with hc | rfl
    · exact hI.held c hc
    · exact hheld
  | extrato i now =>
    obtain ⟨x, -, -, rfl⟩ := step_extrato h
    exact ⟨hI.sound, hI.stored, hI.held, hI.seeds⟩
  | startUp i =>
    obtain ⟨rows, db, rest, hrows, hstep, rfl⟩ := step_startUp h
    have hmem : rows ∈ s.startUps := List.mem_of_getElem? hrows
    obtain ⟨hsub, hdb⟩ := stepStartUp_cases hstep
    refine ⟨hI.sound, ?_, hI.held, fun rows' hrows' row hrow => ?_⟩
    · rcases hdb with rfl | ⟨row, hrow, t, hseed, rfl⟩
      · exact hI.stored
      · refine hI.stored.saveInsert ?_
        rw [accountId_of_seed? hseed]
        exact hI.seeds rows hmem row hrow t hseed
    · rcases List.mem_or_eq_of_mem_set hrows' with hold | rfl
      · exact hI.seeds rows' hold row hrow
      · exact hI.seeds rows hmem row (hsub hrow)

end Invariant

end ServiceRun

end Rinha
