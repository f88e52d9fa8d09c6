/-
  Concurrent `Save`s, and re-runs of `InitializeRedisBackgroundService`, over one Redis.

  A `Save` is two commands, and any instance can run its own between them, so the state holds
  every `Save` with its phase and an action runs the next command of one of them, or one
  `SortedSetAddAsync` of the start-up service.  The initial content is arbitrary.

  Two results.  `concurrent_saves_confluent`: once all `Save`s of an account are finished, its set
  holds the ten highest records of everything, in whatever order the commands ran (the account's
  key simulates `BoundedWindow`).  `reads_agree_in_runs`: the balance of a statement is the
  balance of the account in every state of a run, as long as no record is added to a set of more
  than ten; a statement counts its eleven ranks from the LOW end, so with twelve members stored
  it takes the balance of an older record.
-/
import RinhaBackend.InitializeRedis
import RinhaBackend.Lib.BoundedWindow

namespace Rinha

namespace SaveRun

open CachedRepository InitializeRedis
open BoundedWindow (Phase)

/-- A `Save` under way. -/
structure Task where
  transaction : Transaction
  phase : Phase
  deriving DecidableEq

/-- Redis and the `Save`s. -/
structure State where
  redis : Redis
  tasks : List Task

/-- The next command of `Save` number `i`, or the command of the start-up service for a row. -/
inductive Action where
  | save (i : Nat)
  | reseed (row : Row)

section Steps

variable (json : TransactionJson)

/-- The next command of a `Save`. -/
def stepTask (redis : Redis) (task : Task) : Option (Redis × Task) :=
  match task.phase with
  | .inserting => some (saveInsert json redis task.transaction, { task with phase := .trimming })
  | .trimming => some (saveTrim redis task.transaction, { task with phase := .finished })
  | .finished => none

/-- One command. -/
def step (s : State) : Action → Option State
  | .save i =>
    (s.tasks[i]?).bind fun task =>
      (stepTask json s.redis task).map fun r => ⟨r.1, s.tasks.set i r.2⟩
  | .reseed row => (seed? row).map fun t => { s with redis := addSeed json s.redis t }

/-- The record an action is about to add. -/
def added (s : State) : Action → Option Transaction
  | .save i =>
    (s.tasks[i]?).bind fun task =>
      if task.phase = .inserting then some task.transaction else none
  | .reseed row => seed? row

variable {json}

/-- What a `Save` can do next: insert, or trim. -/
theorem step_save_cases {s s' : State} {i : Nat} (h : step json s (.save i) = some s') :
    ∃ task, s.tasks[i]? = some task ∧
      ((task.phase = .inserting ∧ s' = ⟨saveInsert json s.redis task.transaction,
          s.tasks.set i { task with phase := .trimming }⟩) ∨
       (task.phase = .trimming ∧ s' = ⟨saveTrim s.redis task.transaction,
          s.tasks.set i { task with phase := .finished }⟩)) := by
  obtain ⟨task, htask, hmap⟩ := Option.bind_eq_some_iff.mp h
  obtain ⟨r, hr, rfl⟩ := Option.map_eq_some_iff.mp hmap
  refine ⟨task, htask, ?_⟩
  rw [stepTask] at hr
  split at hr
  · next hphase =>
    cases hr
    exact Or.inl ⟨hphase, rfl⟩
  · next hphase =>
    cases hr
    exact Or.inr ⟨hphase, rfl⟩
  · cases hr

/-- What any step does to Redis: it adds the record it announces, or it announces none and trims. -/
theorem step_cases {s s' : State} {a : Action} (h : step json s a = some s') :
    (∃ t, added s a = some t ∧ s'.redis = saveInsert json s.redis t) ∨
      added s a = none ∧ ∃ t, s'.redis = saveTrim s.redis t := by
  cases a with
  | save i =>
    obtain ⟨task, htask, ⟨hphase, rfl⟩ | ⟨hphase, rfl⟩⟩ := step_save_cases h
    · refine Or.inl ⟨task.transaction, ?_, rfl⟩
      rw [added, htask, Option.bind_some, if_pos hphase]
    · refine Or.inr ⟨?_, task.transaction, rfl⟩
      rw [added, htask, Option.bind_some, hphase]
      rfl
  | reseed row =>
    obtain ⟨t, ht, rfl⟩ := Option.map_eq_some_iff.mp h
    exact Or.inl ⟨t, ht, addSeed_eq_saveInsert json s.redis t⟩

theorem step_redis {s s' : State} {a : Action} (h : step json s a = some s') :
    (∃ t, added s a = some t ∧ s'.redis = saveInsert json s.redis t) ∨
      ∃ t, s'.redis = saveTrim s.redis t := (step_cases h).imp_right And.right

end Steps

/-! ## Confluence -/

section Confluence

variable (json : TransactionJson) (k : Int32)

/-- A `Save`, as a writer of the bounded window. -/
def Task.writer (task : Task) : BoundedWindow.Writer Nat Text :=
  ⟨task.transaction.realizadaEm.score, json.serialize task.transaction, task.phase⟩

/-- The set of account `k` with its `Save`s. -/
def window (s : State) : BoundedWindow.State Nat Text :=
  ⟨s.redis (getBankStatementKey k), s.tasks.map (Task.writer json)⟩

variable {json k}

/-- Every command of a `Save` of account `k` is the step of its writer. -/
theorem window_step {s s' : State} (hk : ∀ task ∈ s.tasks, task.transaction.accountId = k)
    {i : Nat} (h : step json s (.save i) = some s') :
    (∀ task ∈ s'.tasks, task.transaction.accountId = k) ∧
      BoundedWindow.step 10 (window json k s) i = some (window json k s') := by
  obtain ⟨task, htask, hcases⟩ := step_save_cases h
  have hid : task.transaction.accountId = k := hk task (List.mem_of_getElem? htask)
  have hset : ∀ phase, ∀ u ∈ s.tasks.set i { task with phase := phase },
      u.transaction.accountId = k := by
    intro phase u hu
    rcases List.mem_or_eq_of_mem_set hu with hu | rfl
    · exact hk u hu
    · exact hid
  have hwriter : (window json k s).writers[i]? = some (task.writer json) := by
    rw [window, List.getElem?_map, htask, Option.map_some]
  rw [BoundedWindow.step, hwriter, Option.bind_some]
  -- the same two cases on both sides: the account's key holds the window
  rcases hcases with ⟨hphase, rfl⟩ | ⟨hphase, rfl⟩
  · refine ⟨hset _, ?_⟩
    rw [BoundedWindow.stepWriter, Task.writer, hphase, window, window, List.map_set, ← hid]
    dsimp only
    rw [saveInsert_same]
    rfl
  · refine ⟨hset _, ?_⟩
    rw [BoundedWindow.stepWriter, Task.writer, hphase, window, window, List.map_set, ← hid]
    dsimp only
    rw [saveTrim_same]
    rfl

/-- A run of `Save`s is a run of the bounded window. -/
theorem window_run {s s' : State} (hk : ∀ task ∈ s.tasks, task.transaction.accountId = k)
    (is : List Nat) (h : Transition.run (step json) s (is.map .save) = some s') :
    Transition.run (BoundedWindow.step 10) (window json k s) is = some (window json k s') := by
  induction is generalizing s with
  | nil =>
    cases h
    rfl
  | cons i is ih =>
    obtain ⟨m, hm, hrest⟩ := (Transition.run_cons (step json)).mp h
    obtain ⟨hk', hstep⟩ := window_step hk hm
    exact (Transition.run_cons _).mpr ⟨_, hstep, ih hk' hrest⟩

/-- Everything an account's set starts with or is given: its initial content, and a record for
    each `Save`. -/
def allContent (json : TransactionJson) (k : Int32) (s : State) : Finset (Nat ×ₗ Text) :=
  (s.redis (getBankStatementKey k)).toFinset ∪
    (s.tasks.map fun task => entryOf json task.transaction).toFinset

theorem mem_allContent {s : State} {e : Nat ×ₗ Text} :
    e ∈ allContent json k s ↔ e ∈ (s.redis (getBankStatementKey k)).entries ∨
      ∃ task ∈ s.tasks, entryOf json task.transaction = e := by
  rw [allContent, Finset.mem_union, SortedSet.mem_toFinset, List.mem_toFinset, List.mem_map]

/-- Nothing has started: every `Save` is of account `k` and has both commands before it. -/
def Fresh (k : Int32) (s : State) : Prop :=
  ∀ task ∈ s.tasks, task.transaction.accountId = k ∧ task.phase = .inserting

/-- Every `Save` has finished. -/
def Finished (s : State) : Prop := ∀ task ∈ s.tasks, task.phase = .finished

/-- A stored text that is also the record of a `Save` carries the score of that record. -/
def SameScores (json : TransactionJson) (k : Int32) (s : State) : Prop :=
  ∀ e ∈ (s.redis (getBankStatementKey k)).entries, ∀ task ∈ s.tasks,
    SortedSet.member e = json.serialize task.transaction →
      SortedSet.score e = task.transaction.realizadaEm.score

theorem SameScores.consistent {s : State} (h : SameScores json k s) :
    BoundedWindow.Consistent (allContent json k s) := by
  have hmixed : ∀ e ∈ (s.redis (getBankStatementKey k)).entries, ∀ task ∈ s.tasks,
      SortedSet.member e = json.serialize task.transaction →
        e = entryOf json task.transaction := by
    intro e he task htask hm
    rw [← SortedSet.entry_eta e, hm, h e he task htask hm]
    rfl
  intro a ha b hb hm
  rcases mem_allContent.mp ha with ha | ⟨ta, hta, rfl⟩
  · rcases mem_allContent.mp hb with hb | ⟨tb, htb, rfl⟩
    · exact SortedSet.entry_unique _ ha hb hm
    · exact hmixed a ha tb htb hm
  · rcases mem_allContent.mp hb with hb | ⟨tb, htb, rfl⟩
    · exact (hmixed b hb ta hta hm.symm).symm
    · rw [json.serialize_injective hm]

/-- The content after every interleaving. -/
theorem content_of_finished {s s' : State} (hne : s.tasks ≠ []) (hfresh : Fresh k s)
    (hscores : SameScores json k s) {is : List Nat}
    (hrun : Transition.run (step json) s (is.map .save) = some s') (hdone : Finished s') :
    (s'.redis (getBankStatementKey k)).toFinset = TopRank.top 10 (allContent json k s) := by
  have hwindow := window_run (fun task ht => (hfresh task ht).1) is hrun
  refine BoundedWindow.final_content ?_ ?_ ?_ hscores.consistent hwindow ?_
  · exact fun h => hne (List.map_eq_nil_iff.mp h)
  · intro w hw
    obtain ⟨task, htask, rfl⟩ := List.mem_map.mp hw
    exact (hfresh task htask).2
  · intro e
    rw [mem_allContent]
    refine or_congr Iff.rfl ⟨?_, ?_⟩
    · rintro ⟨task, htask, rfl⟩
      exact ⟨task.writer json, List.mem_map_of_mem htask, rfl⟩
    · rintro ⟨w, hw, rfl⟩
      obtain ⟨task, htask, rfl⟩ := List.mem_map.mp hw
      exact ⟨task, htask, rfl⟩
  · intro w hw
    obtain ⟨task, htask, rfl⟩ := List.mem_map.mp hw
    exact hdone task htask

/-- **Confluence of concurrent `Save`s.**  Whatever the set held and however the commands
    interleave, once all `Save`s have finished it holds the ten highest-ranked of the initial
    content and the added records; so two interleavings leave the same set. -/
theorem concurrent_saves_confluent (json : TransactionJson) (k : Int32) (s s' : State)
    (hne : s.tasks ≠ []) (hfresh : Fresh k s) (hscores : SameScores json k s) (is : List Nat)
    (hrun : Transition.run (step json) s (is.map .save) = some s') (hdone : Finished s') :
    (s'.redis (getBankStatementKey k)).toFinset = TopRank.top 10 (allContent json k s) ∧
      ∀ (is' : List Nat) (s'' : State),
        Transition.run (step json) s (is'.map .save) = some s'' → Finished s'' →
          s''.redis (getBankStatementKey k) = s'.redis (getBankStatementKey k) := by
  have hcontent := content_of_finished hne hfresh hscores hrun hdone
  refine ⟨hcontent, fun is' s'' hrun' hdone' => SortedSet.eq_of_toFinset_eq ?_⟩
  rw [hcontent]
  exact content_of_finished hne hfresh hscores hrun' hdone'

/-- A credit on account 1 that leaves the balance `n`, made at tick `n`. -/
def creditTo (n : Nat) : Transaction :=
  ⟨1, 'c', some ['x'], 1, 1000, Int32.ofNat n, .ofTicks n .localTime⟩

/-- `n` `Save`s of account 1 that have not begun, over the cache `db`. -/
def freshSaves (db : Redis) (n : Nat) : State :=
  ⟨db, (List.range n).map fun i => ⟨creditTo (i + 1), .inserting⟩⟩

/-- Eleven `Save`s over a seeded cache, the adds in the order of their balances, each trim as soon
    as the next `Save` has added. -/
def elevenSaves : List Nat :=
  0 :: ((List.range 10).flatMap fun i => [i + 1, i]) ++ [10]

theorem concurrent_saves_confluent_eleven :
    ∃ s', Transition.run (step systemTextJson) (freshSaves seededCache 11)
        (elevenSaves.map .save) = some s' ∧
      (allContent systemTextJson 1 (freshSaves seededCache 11)).card = 12 ∧
      (s'.redis (getBankStatementKey 1)).toFinset
        = TopRank.top 10 (allContent systemTextJson 1 (freshSaves seededCache 11)) := by
  have hdone : (Transition.run (step systemTextJson) (freshSaves seededCache 11)
      (elevenSaves.map .save)).any (fun s' =>
        ∀ task ∈ s'.tasks, task.phase = .finished) = true := by decide +kernel
  obtain ⟨s', hrun, hfinished⟩ := (Option.any_eq_true _ _).mp hdone
  have hfinished' := of_decide_eq_true hfinished
  refine ⟨s', hrun, by decide +kernel, (concurrent_saves_confluent systemTextJson 1
    (freshSaves seededCache 11) s' (by decide) (by unfold Fresh; decide) ?_ elevenSaves hrun
    hfinished').1⟩
  unfold SameScores
  decide +kernel

end Confluence

/-! ## The two reads -/

section Reads

variable {json : TransactionJson} {k : Int32}

/-- A step has room: a record it adds for account `k` is stored already, or at most ten are. -/
def Roomy (json : TransactionJson) (k : Int32) (s : State) (a : Action) : Prop :=
  ∀ t, added s a = some t → t.accountId = k →
    entryOf json t ∈ (s.redis (getBankStatementKey k)).entries ∨
      (s.redis (getBankStatementKey k)).entries.length ≤ 10

theorem readable_step {s s' : State} {a : Action} (h : Readable json k s.redis)
    (hroom : Roomy json k s a) (hs : step json s a = some s') : Readable json k s'.redis := by
  rcases step_redis hs with ⟨t, ht, hredis⟩ | ⟨t, hredis⟩
  · rw [hredis]
    exact h.saveInsert t (hroom t ht)
  · rw [hredis]
    exact h.saveTrim t

/-- **The statement reads the balance of the account** in every state of every run of `Save`s and
    re-seedings, from any number of instances, whose adds all have room. -/
theorem reads_agree_in_runs (json : TransactionJson) (k : Int32) (now : DateTime)
    (s s' : State) (hseed : Seeded json k s.redis) (actions : List Action)
    (hroom : Transition.AllSteps (step json) (Roomy json k) s actions)
    (hrun : Transition.run (step json) s actions = some s') : ReadsAgree json k now s'.redis :=
  (Transition.run_invariant_of (step json) (I := fun s => Readable json k s.redis)
    (fun _ _ _ => readable_step) actions s s' hseed.readable hroom hrun).readsAgree now

theorem seededCache_seeded : Seeded systemTextJson 1 seededCache := ⟨seedRecord, rfl⟩

theorem reads_agree_in_runs_two :
    ∃ s', Transition.run (step systemTextJson) (freshSaves seededCache 2) [.save 0, .save 1]
        = some s' ∧ ReadsAgree systemTextJson 1 (.ofTicks 0 .localTime) s'.redis := by
  have hroom : Transition.AllSteps (step systemTextJson) (Roomy systemTextJson 1)
      (freshSaves seededCache 2) [.save 0, .save 1] := by
    intro m hm
    obtain rfl := Option.some.inj hm
    refine ⟨fun _ _ _ => Or.inr (by decide), fun m' hm' => ?_⟩
    obtain rfl := Option.some.inj hm'
    exact ⟨fun _ _ _ => Or.inr (by decide), trivial⟩
  exact ⟨_, rfl, reads_agree_in_runs systemTextJson 1 _ (freshSaves seededCache 2) _
    seededCache_seeded [.save 0, .save 1] hroom rfl⟩

/-- Eleven `Save`s that have all added and not trimmed: with the seed, twelve members. -/
theorem overfull_entries :
    ∃ s', Transition.run (step systemTextJson) (freshSaves seededCache 11)
        ((List.range 11).map .save) = some s' ∧
      (s'.redis (getBankStatementKey 1)).entries
        = (seededCache (getBankStatementKey 1)).entries
          ++ ((List.range 11).map fun i => creditTo (i + 1)).map (entryOf systemTextJson) := by
  refine ⟨_, rfl, ?_⟩
  have hfold := foldl_addSeed_same systemTextJson 1
    ((List.range 11).map fun i => creditTo (i + 1)) seededCache
  have hfilter : ((List.range 11).map fun i => creditTo (i + 1)).filter
      (fun t => t.accountId = 1) = (List.range 11).map fun i => creditTo (i + 1) := by decide
  rw [hfilter] at hfold
  exact (congrArg SortedSet.entries hfold).trans
    (seededCache_seeded.readable.recorded.entries_foldl_add (by decide) (by decide))

/-- With twelve members the statement shows the eleventh balance, 10, and the account the twelfth,
    11. -/
theorem statement_reads_an_older_balance :
    ¬ ∀ (s s' : State) (k : Int32) (now : DateTime) (actions : List Action),
      Seeded systemTextJson k s.redis →
      Transition.run (step systemTextJson) s actions = some s' →
      ReadsAgree systemTextJson k now s'.redis := by
  intro h
  obtain ⟨s', hrun, hentries⟩ := overfull_entries
  obtain ⟨t, hlast, -, statement, hstatement, htotal, -⟩ := h _ s' 1 (.ofTicks 0 .localTime) _
    seededCache_seeded hrun
  have htop : t = creditTo 11 := by
    rw [SortedSet.last?, hentries] at hlast
    exact (entryOf_injective systemTextJson (Option.some.inj hlast)).symm
  obtain ⟨seed, hseed⟩ := seededCache_seeded
  have htake : (s'.redis (getBankStatementKey 1)).entries.take 11
      = ((seed :: (List.range 9).map fun i => creditTo (i + 1)) ++ [creditTo 10]).map
          (entryOf systemTextJson) := by
    rw [hentries, hseed]
    rfl
  obtain ⟨shown, hshown, hsaldo, -⟩ := getBankStatementAsync_of_last (.ofTicks 0 .localTime)
    (getLastTransactionsAsync_of_records _ htake)
  rw [hstatement] at hshown
  injection hshown with hshown
  rw [← hshown, htotal, htop] at hsaldo
  exact absurd hsaldo (by decide)

end Reads

end SaveRun

end Rinha
