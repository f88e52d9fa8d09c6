/-
  What the trims keep, at every moment.

  `concurrent_saves_confluent` is about the end, when every `Save` has trimmed.  In between, while
  requests, statements and start-ups interleave, the set of an account is not yet its final window,
  and it may hold more; but it never holds less: the ten highest records ever added to it are there
  (`last_ten_are_stored`), so a record that a request was answered about is there unless ten stored
  ones rank above it (`acknowledged_is_kept`).
-/
import RinhaBackend.Lib.TopRank
import RinhaBackend.ServiceRun

namespace Rinha

namespace Retention

open CachedRepository InitializeRedis ServiceRun
open RequestRun (Call Phase Moves)
open TopRank (Retains)

/-! ## What is added -/

/-- The record the next step of a call adds. -/
def adds : Phase → List Transaction
  | .adding _ t => [t]
  | _ => []

/-- The record a step of the service adds. -/
def addedBy (s : State) : Action → List Transaction
  | .post a =>
    match s.posts.calls[a.call]? with
    | some call => adds call.phase
    | none => []
  | .extrato _ _ => []
  | .startUp i =>
    match s.startUps[i]? with
    | some (row :: _) => (seed? row).toList
    | _ => []

variable {json : TransactionJson}

/-- What a start-up does with its next row. -/
theorem stepStartUp_adds {row : Row} {rows rest : List Row} {db db' : Redis}
    (h : stepStartUp json (row :: rows) db = some (db', rest)) :
    (∃ t, seed? row = some t ∧ db' = saveInsert json db t) ∨ seed? row = none ∧ db' = db := by
  rw [stepStartUp] at h
  by_cases hdesc : row.descricao = none
  · rw [if_neg (not_not.mpr hdesc)] at h
    rcases ht : row.realizadaEm with _ | t
    · rw [ht] at h
      cases h
      refine Or.inr ⟨?_, rfl⟩
      rw [seed?, if_pos hdesc, ht, Option.map_none]
    · rw [ht] at h
      cases h
      refine Or.inl ⟨seedTransaction row t, ?_, rfl⟩
      rw [seed?, if_pos hdesc, ht, Option.map_some]
  · rw [if_pos hdesc] at h
    cases h
    exact Or.inr ⟨if_neg hdesc, rfl⟩

/-- **What a step does to Redis**: it adds the one record it announces, or it announces none and at
    most trims. -/
theorem step_redis {s s' : State} {a : Action} (h : step json s a = some s') :
    (∃ t, addedBy s a = [t] ∧ s'.posts.redis = saveInsert json s.posts.redis t) ∨
      addedBy s a = [] ∧ (s'.posts.redis = s.posts.redis ∨
        ∃ t, s'.posts.redis = saveTrim s.posts.redis t) := by
  cases a with
  | post a =>
    obtain ⟨posts, hposts, rfl⟩ := step_post h
    obtain ⟨call, stores, phase, hcall, hmove, rfl⟩ := RequestRun.step_moves hposts
    simp only [addedBy, hcall]
    generalize call.phase = before at hmove
    cases hmove with
    | add account t => exact Or.inl ⟨t, rfl, rfl⟩
    | trim account t => exact Or.inr ⟨rfl, Or.inr ⟨t, rfl⟩⟩
    | _ => exact Or.inr ⟨rfl, Or.inl rfl⟩
  | extrato i now =>
    obtain ⟨x, -, -, rfl⟩ := step_extrato h
    exact Or.inr ⟨rfl, Or.inl rfl⟩
  | startUp i =>
    obtain ⟨rows, db, rest, hrows, hstep, rfl⟩ := step_startUp h
    rcases rows with _ | ⟨row, rows⟩
    · cases hstep
    · simp only [addedBy, hrows]
      rcases stepStartUp_adds hstep with ⟨t, ht, rfl⟩ | ⟨hnone, rfl⟩
      · rw [ht]
        exact Or.inl ⟨t, rfl, rfl⟩
      · rw [hnone]
        exact Or.inr ⟨rfl, Or.inl rfl⟩

/-! ## What is kept -/

section Kept

variable (json) (k : Int32)

/-- The records of account `k` among `ts`, as members. -/
def everAdded (ts : List Transaction) : Finset (Nat ×ₗ Text) :=
  ((ts.filter fun t => t.accountId = k).map (entryOf json)).toFinset

variable {json k}

theorem mem_everAdded {ts : List Transaction} {e : Nat ×ₗ Text} :
    e ∈ everAdded json k ts ↔ ∃ t ∈ ts, t.accountId = k ∧ e = entryOf json t := by
  rw [everAdded, List.mem_toFinset, List.mem_map]
  constructor
  · rintro ⟨t, ht, rfl⟩
    obtain ⟨hmem, hid⟩ := List.mem_filter.mp ht
    exact ⟨t, hmem, of_decide_eq_true hid, rfl⟩
  · rintro ⟨t, hmem, hid, rfl⟩
    exact ⟨t, List.mem_filter.mpr ⟨hmem, decide_eq_true hid⟩, rfl⟩

theorem mem_everAdded_concat {ts : List Transaction} {t : Transaction} {e : Nat ×ₗ Text} :
    e ∈ everAdded json k (ts ++ [t])
      ↔ (t.accountId = k ∧ e = entryOf json t) ∨ e ∈ everAdded json k ts := by
  rw [mem_everAdded, mem_everAdded]
  constructor
  · rintro ⟨u, hu, huid, rfl⟩
    rcases List.mem_append.mp hu with hu | hu
    · exact Or.inr ⟨u, hu, huid, rfl⟩
    · rw [List.mem_singleton.mp hu] at huid ⊢
      exact Or.inl ⟨huid, rfl⟩
  · rintro (⟨hid, rfl⟩ | ⟨u, hu, huid, rfl⟩)
    · exact ⟨t, List.mem_append_right _ (List.mem_singleton_self t), hid, rfl⟩
    · exact ⟨u, List.mem_append_left _ hu, huid, rfl⟩

/-- The invariant: the set of account `k` is what is left of its first members and `ts`. -/
structure Kept (json : TransactionJson) (k : Int32) (first : Finset (Nat ×ₗ Text)) (s : State)
    (ts : List Transaction) : Prop where
  recorded : Recorded json (s.posts.redis (getBankStatementKey k))
  retains : Retains 10 (first ∪ everAdded json k ts)
    (s.posts.redis (getBankStatementKey k)).toFinset

theorem kept_step {first : Finset (Nat ×ₗ Text)} {s s' : State} {ts : List Transaction} {a : Action}
    (hI : Kept json k first s ts) (h : step json s a = some s') :
    Kept json k first s' (ts ++ addedBy s a) := by
  obtain ⟨hrecorded, hretains⟩ := hI
  rcases step_redis h with ⟨t, hadds, hredis⟩ | ⟨hnone, hredis⟩
  · rw [hadds]
    refine ⟨by rw [hredis]; exact hrecorded.saveInsert s.posts.redis t, ?_⟩
    rw [hredis]
    by_cases hid : t.accountId = k
    · -- the record is new both in what was ever added and in what is stored
      rw [saveInsert_of_eq json s.posts.redis t hid]
      refine hretains.add (a := entryOf json t) (fun e => ?_) fun e => ?_
      · rw [Finset.mem_union, Finset.mem_union, mem_everAdded_concat]
        constructor
        · rintro (hmem | ⟨-, rfl⟩ | hmem)
          · exact Or.inr (Or.inl hmem)
          · exact Or.inl rfl
          · exact Or.inr (Or.inr hmem)
        · rintro (rfl | hmem | hmem)
          · exact Or.inr (Or.inl ⟨hid, rfl⟩)
          · exact Or.inl hmem
          · exact Or.inr (Or.inr hmem)
      · exact SortedSet.mem_toFinset_add fun e he hmember => hrecorded.score_eq he hmember
    · have hsame : ∀ e, e ∈ first ∪ everAdded json k (ts ++ [t])
          ↔ e ∈ first ∪ everAdded json k ts := by
        intro e
        rw [Finset.mem_union, Finset.mem_union, mem_everAdded_concat]
        exact or_congr_right (or_iff_right fun hc => hid hc.1)
      rw [saveInsert_of_ne json s.posts.redis t hid, Finset.ext hsame]
      exact hretains
  · rw [hnone, List.append_nil]
    refine ⟨fun e he => hrecorded e (mem_of_trimmed hredis he), ?_⟩
    rcases hredis with hredis | ⟨t, hredis⟩
    · rw [hredis]
      exact hretains
    · rw [hredis]
      by_cases hid : t.accountId = k
      · rw [saveTrim_of_eq s.posts.redis t hid, SortedSet.toFinset_keepTop]
        exact hretains.cut
      · rw [saveTrim_of_ne s.posts.redis t hid]
        exact hretains

/-- What a run has kept. -/
theorem kept_run {s s' : State} (hrecorded : Recorded json (s.posts.redis (getBankStatementKey k)))
    {actions : List Action} (hrun : Transition.run (step json) s actions = some s') :
    Kept json k (s.posts.redis (getBankStatementKey k)).toFinset s'
      (Transition.yields (step json) addedBy s actions) := by
  have hstart : Kept json k (s.posts.redis (getBankStatementKey k)).toFinset s [] := by
    refine ⟨hrecorded, ?_⟩
    rw [show everAdded json k [] = ∅ from rfl, Finset.union_empty]
    exact Retains.refl 10 _
  exact Transition.run_yields (step json) addedBy (C := fun _ _ => True)
    (fun _ _ _ _ hI _ h => kept_step hI h) actions s s' [] hstart
    (Transition.allSteps_true _ s actions) hrun

end Kept

/-- Everything that has ever stood in the set of account `k`: its first members and what the run has
    added. -/
def ever (json : TransactionJson) (k : Int32) (s : State) (actions : List Action) :
    Finset (Nat ×ₗ Text) :=
  (s.posts.redis (getBankStatementKey k)).toFinset
    ∪ everAdded json k (Transition.yields (step json) addedBy s actions)

/-- **The ten highest records ever added are stored.**  From any set of records, in every state of
    every run of requests, statements and start-ups: what is stored for an account was added to it,
    the ten highest records ever added are stored, and the account is read from the highest. -/
theorem last_ten_are_stored (json : TransactionJson) (k : Int32) (s s' : State)
    (hrecorded : Recorded json (s.posts.redis (getBankStatementKey k))) (actions : List Action)
    (hrun : Transition.run (step json) s actions = some s') :
    TopRank.top 10 (ever json k s actions)
        ⊆ (s'.posts.redis (getBankStatementKey k)).toFinset ∧
      (s'.posts.redis (getBankStatementKey k)).toFinset ⊆ ever json k s actions ∧
      ∀ e ∈ ever json k s actions, (∀ x ∈ ever json k s actions, x ≤ e) →
        ∃ t, e = entryOf json t ∧ getAccountByIdAsync json k s'.posts.redis
          = .ok (some ⟨t.accountId, t.limite, t.saldo⟩) := by
  obtain ⟨hrecorded', hretains⟩ := kept_run hrecorded hrun
  refine ⟨hretains.top_subset, hretains.subset, fun e he hmax => ?_⟩
  have hstored : e ∈ (s'.posts.redis (getBankStatementKey k)).entries :=
    SortedSet.mem_toFinset.mp (hretains.max_mem (by decide) he hmax)
  have hlast : (s'.posts.redis (getBankStatementKey k)).last? = some e :=
    SortedSet.last?_of_le hstored fun x hx =>
      hmax x (hretains.subset (SortedSet.mem_toFinset.mpr hx))
  obtain ⟨t, rfl⟩ := hrecorded' e hstored
  exact ⟨t, rfl, getAccountByIdAsync_of_last hlast⟩

/-- Account 1 before its start-up, with eleven credits. -/
def elevenCredits : State :=
  ⟨⟨Redis.empty, [], fun _ => 0,
    List.replicate 11 ⟨0, 1, TransactionService.creditOfTen, .received⟩⟩, [], [[seedRow]]⟩

/-- The start-up, then the credits one by one up to their adds, and one trim: of the twelve members
    the seed and the first credit go. -/
def allAdding : List Action :=
  .startUp 0 :: ((List.range 11).flatMap fun i =>
    List.replicate 4 (.post ⟨i, .ofTicks (5 + i) .localTime⟩))
      ++ [.post ⟨0, .ofTicks 30 .localTime⟩]

/-- Eleven records have been added, and ten members are left. -/
theorem allAdding_done : ∃ s',
    Transition.run (step systemTextJson) elevenCredits allAdding = some s' ∧
      (s'.posts.calls.filterMap fun c => c.phase.added).length = 11 ∧
      (s'.posts.redis (getBankStatementKey 1)).entries.length = 10 := by
  have hdone : (Transition.run (step systemTextJson) elevenCredits allAdding).any (fun s' =>
      (s'.posts.calls.filterMap fun c => c.phase.added).length = 11 ∧
        (s'.posts.redis (getBankStatementKey 1)).entries.length = 10) = true := by
    decide +kernel
  obtain ⟨s', hrun, hall⟩ := (Option.any_eq_true _ _).mp hdone
  exact ⟨s', hrun, of_decide_eq_true hall⟩

theorem last_ten_are_stored_eleven : ∃ s',
    Transition.run (step systemTextJson) elevenCredits allAdding = some s' ∧
      (s'.posts.redis (getBankStatementKey 1)).entries.length = 10 ∧
      TopRank.top 10 (ever systemTextJson 1 elevenCredits allAdding)
        ⊆ (s'.posts.redis (getBankStatementKey 1)).toFinset := by
  obtain ⟨s', hrun, -, hlength⟩ := allAdding_done
  exact ⟨s', hrun, hlength, (last_ten_are_stored systemTextJson 1 elevenCredits s'
    (fun _ he => by cases he) allAdding hrun).1⟩

/-! ## What a request was answered about -/

/-- Every call that has added its record has added it in this run. -/
def Recalled (s : State) (ts : List Transaction) : Prop :=
  ∀ c ∈ s.posts.calls, ∀ account t, c.phase.added = some (account, t) → t ∈ ts

theorem recalled_step {s s' : State} {ts : List Transaction} {a : Action} (hI : Recalled s ts)
    (h : step json s a = some s') : Recalled s' (ts ++ addedBy s a) := by
  cases a with
  | post a =>
    obtain ⟨posts, hposts, rfl⟩ := step_post h
    obtain ⟨call, stores, phase, hcall, hmove, rfl⟩ := RequestRun.step_moves hposts
    intro c hc account t ht
    rcases RequestRun.mem_put hc with hc | rfl
    · exact List.mem_append_left _ (hI c hc account t ht)
    · rcases hmove.effect with ⟨account', t', hbefore, hafter, -⟩ | ⟨hsame, -⟩
      · -- the call that has just added its record
        obtain rfl : phase = .trimming account' t' := hafter
        cases ht
        refine List.mem_append_right _ ?_
        simp only [addedBy, hcall, hbefore]
        exact List.mem_singleton_self t
      · exact List.mem_append_left _
          (hI call (List.mem_of_getElem? hcall) account t (hsame ▸ ht))
  | extrato i now =>
    obtain ⟨x, -, -, rfl⟩ := step_extrato h
    exact fun c hc account t ht => List.mem_append_left _ (hI c hc account t ht)
  | startUp i =>
    obtain ⟨rows, db, rest, -, -, rfl⟩ := step_startUp h
    exact fun c hc account t ht => List.mem_append_left _ (hI c hc account t ht)

/-- **What was acknowledged is kept.**  In every run of fresh calls over a cache of records: from
    its add on, and so when its request is answered and ever after, a record is stored under its
    account unless ten records stored there rank above it. -/
theorem acknowledged_is_kept (json : TransactionJson) (s s' : State)
    (hfresh : RequestRun.Fresh s.posts)
    (hrecorded : ∀ id, Recorded json (s.posts.redis (getBankStatementKey id)))
    (actions : List Action) (hrun : Transition.run (step json) s actions = some s') :
    ∀ c ∈ s'.posts.calls, ∀ account t, c.phase.added = some (account, t) →
      entryOf json t ∈ (s'.posts.redis (getBankStatementKey t.accountId)).entries ∨
        10 ≤ (TopRank.above (s'.posts.redis (getBankStatementKey t.accountId)).toFinset
          (entryOf json t)).card := by
  intro c hc account t ht
  have hstart : Recalled s [] := by
    intro c hc account t ht
    rw [hfresh c hc] at ht
    cases ht
  have hrecalled : Recalled s' (Transition.yields (step json) addedBy s actions) :=
    Transition.run_yields (step json) addedBy (C := fun _ _ => True)
      (fun _ _ _ _ hI _ h => recalled_step hI h) actions s s' [] hstart
      (Transition.allSteps_true _ s actions) hrun
  have hever : entryOf json t ∈ everAdded json t.accountId
      (Transition.yields (step json) addedBy s actions) :=
    mem_everAdded.mpr ⟨t, hrecalled c hc account t ht, rfl, rfl⟩
  obtain ⟨-, hretains⟩ := kept_run (hrecorded t.accountId) hrun
  by_cases hstored : entryOf json t ∈ (s'.posts.redis (getBankStatementKey t.accountId)).entries
  · exact Or.inl hstored
  · refine Or.inr (hretains.le_card_above (Finset.mem_union_right _ hever) fun hmem => ?_)
    exact hstored (SortedSet.mem_toFinset.mp hmem)

theorem acknowledged_is_kept_eleven : ∃ s',
    Transition.run (step systemTextJson) elevenCredits allAdding = some s' ∧
      (s'.posts.calls.filterMap fun c => c.phase.added).length = 11 ∧
      (s'.posts.redis (getBankStatementKey 1)).entries.length = 10 ∧
      ∀ c ∈ s'.posts.calls, ∀ account t, c.phase.added = some (account, t) →
        entryOf systemTextJson t
            ∈ (s'.posts.redis (getBankStatementKey t.accountId)).entries ∨
          10 ≤ (TopRank.above (s'.posts.redis (getBankStatementKey t.accountId)).toFinset
            (entryOf systemTextJson t)).card := by
  obtain ⟨s', hrun, hadded, hlength⟩ := allAdding_done
  refine ⟨s', hrun, hadded, hlength, acknowledged_is_kept systemTextJson elevenCredits s'
    (fun c hc => ?_) (fun _ _ he => by cases he) allAdding hrun⟩
  rw [List.eq_of_mem_replicate hc]

end Retention

end Rinha
