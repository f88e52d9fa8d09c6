/-
  How large the window of an account gets.

  `Save` cuts the set to ten, but between its add and its cut other `Save`s add too, and a restart
  can put the seed back without cutting.  So the bound counts: apart from the seed there are at
  most ten members, and one more for each `Save` that has added and not yet cut
  (`window_bound`).  A cut leaves ten whatever came before it, which is what makes the bound
  survive cuts that run late.
-/
import RinhaBackend.SaveRun

namespace Rinha

namespace WindowBound

open CachedRepository InitializeRedis SaveRun

variable (json : TransactionJson) (k : Int32) (seed : Transaction)

/-- The members that are not the seed. -/
def nonSeed (set : RedisSet) : Finset (Nat ×ₗ Text) :=
  set.toFinset.filter fun e => SortedSet.member e ≠ json.serialize seed

/-- How many `Save`s of account `k` have done their add but not yet their trim. -/
def inFlight (s : State) : Nat :=
  s.tasks.countP fun task => task.transaction.accountId = k ∧ task.phase = .trimming

variable {json k seed}

/-! ## Counting -/

theorem mem_nonSeed {set : RedisSet} {e : Nat ×ₗ Text} : e ∈ nonSeed json seed set ↔
    e ∈ set.entries ∧ SortedSet.member e ≠ json.serialize seed := by
  rw [nonSeed, Finset.mem_filter, SortedSet.mem_toFinset]

/-- One add is at most one member more. -/
theorem card_nonSeed_add (set : RedisSet) (t : Transaction) :
    (nonSeed json seed (set.add t.realizadaEm.score (json.serialize t))).card
      ≤ (nonSeed json seed set).card + 1 := by
  have hsub : nonSeed json seed (set.add t.realizadaEm.score (json.serialize t))
      ⊆ insert (entryOf json t) (nonSeed json seed set) := by
    intro e he
    obtain ⟨hmem, hne⟩ := mem_nonSeed.mp he
    rcases SortedSet.of_mem_add hmem with rfl | hmem
    · exact Finset.mem_insert_self _ _
    · exact Finset.mem_insert_of_mem (mem_nonSeed.mpr ⟨hmem, hne⟩)
  exact (Finset.card_le_card hsub).trans (Finset.card_insert_le _ _)

/-- Adding the seed again adds no other member. -/
theorem card_nonSeed_add_seed (set : RedisSet) :
    (nonSeed json seed (set.add seed.realizadaEm.score (json.serialize seed))).card
      ≤ (nonSeed json seed set).card := by
  refine Finset.card_le_card fun e he => ?_
  obtain ⟨hmem, hne⟩ := mem_nonSeed.mp he
  rcases SortedSet.of_mem_add hmem with rfl | hmem
  · exact absurd rfl hne
  · exact mem_nonSeed.mpr ⟨hmem, hne⟩

/-- A cut leaves ten members, seed or not. -/
theorem card_nonSeed_keepTop (set : RedisSet) : (nonSeed json seed (set.keepTop 10)).card ≤ 10 := by
  have hcard : (nonSeed json seed (set.keepTop 10)).card ≤ (set.keepTop 10).toFinset.card :=
    Finset.card_filter_le _ _
  rw [SortedSet.card_toFinset, SortedSet.length_keepTop] at hcard
  omega

/-- The seed is at most one member. -/
theorem length_le_nonSeed (set : RedisSet) :
    set.entries.length ≤ (nonSeed json seed set).card + 1 := by
  have hone :
      (set.toFinset.filter fun e => ¬ SortedSet.member e ≠ json.serialize seed).card ≤ 1 := by
    refine Finset.card_le_one.mpr fun a ha b hb => ?_
    obtain ⟨ha, hma⟩ := Finset.mem_filter.mp ha
    obtain ⟨hb, hmb⟩ := Finset.mem_filter.mp hb
    exact set.entry_unique (SortedSet.mem_toFinset.mp ha) (SortedSet.mem_toFinset.mp hb)
      ((not_not.mp hma).trans (not_not.mp hmb).symm)
  have hsplit := Finset.card_filter_add_card_filter_not (s := set.toFinset)
    (p := fun e => SortedSet.member e ≠ json.serialize seed)
  rw [SortedSet.card_toFinset] at hsplit
  rw [nonSeed]
  omega

/-! ## Runs -/

/-- A re-seeding of account `k` adds the seed. -/
def SameSeed (k : Int32) (seed : Transaction) : Action → Prop
  | .save _ => True
  | .reseed row => row.accountId = k → seed? row = some seed

/-- The invariant. -/
def Bounded (json : TransactionJson) (k : Int32) (seed : Transaction) (s : State) : Prop :=
  (nonSeed json seed (s.redis (getBankStatementKey k))).card ≤ 10 + inFlight k s

section InFlight

variable {s : State} {i : Nat} {task : Task} (htask : s.tasks[i]? = some task) (db : Redis)

include htask

/-- The add of a `Save` of account `k` puts it in flight. -/
theorem inFlight_add (hk : task.transaction.accountId = k) (hphase : task.phase = .inserting) :
    inFlight k ⟨db, s.tasks.set i { task with phase := .trimming }⟩ = inFlight k s + 1 := by
  obtain ⟨hlt, hget⟩ := List.getElem?_eq_some_iff.mp htask
  rw [inFlight, inFlight, List.countP_set hlt, hget]
  simp [hk, hphase]

/-- A `Save` of another account is not counted. -/
theorem inFlight_other (hk : task.transaction.accountId ≠ k) (phase : BoundedWindow.Phase) :
    inFlight k ⟨db, s.tasks.set i { task with phase := phase }⟩ = inFlight k s := by
  obtain ⟨hlt, hget⟩ := List.getElem?_eq_some_iff.mp htask
  rw [inFlight, inFlight, List.countP_set hlt, hget]
  simp [hk]

end InFlight

theorem bounded_step {s s' : State} {a : Action} (hI : Bounded json k seed s)
    (hseed : SameSeed k seed a) (h : step json s a = some s') : Bounded json k seed s' := by
  rw [Bounded] at hI ⊢
  cases a with
  | save i =>
    obtain ⟨task, htask, hcases⟩ := step_save_cases h
    by_cases hk : task.transaction.accountId = k
    · rcases hcases with ⟨hphase, rfl⟩ | ⟨hphase, rfl⟩
      · -- one member more at most, and one `Save` more in flight
        have hcard : (nonSeed json seed ((s.redis (getBankStatementKey k)).add
              task.transaction.realizadaEm.score (json.serialize task.transaction))).card
            ≤ (nonSeed json seed (s.redis (getBankStatementKey k))).card + 1 := card_nonSeed_add _ _
        rw [inFlight_add htask _ hk hphase]
        dsimp only
        rw [saveInsert_of_eq json s.redis _ hk]
        omega
      · -- ten members, however many there were
        dsimp only
        rw [saveTrim_of_eq s.redis _ hk]
        exact (card_nonSeed_keepTop _).trans (Nat.le_add_right _ _)
    · rcases hcases with ⟨-, rfl⟩ | ⟨-, rfl⟩
      · rw [inFlight_other htask _ hk]
        dsimp only
        rw [saveInsert_of_ne json s.redis _ hk]
        exact hI
      · rw [inFlight_other htask _ hk]
        dsimp only
        rw [saveTrim_of_ne s.redis _ hk]
        exact hI
  | reseed row =>
    obtain ⟨t, ht, rfl⟩ := Option.map_eq_some_iff.mp h
    dsimp only
    rw [inFlight, ← inFlight, addSeed_eq_saveInsert]
    by_cases hk : t.accountId = k
    · have hrow : row.accountId = k := by rw [← accountId_of_seed? ht, hk]
      obtain rfl : t = seed := Option.some.inj (ht.symm.trans (hseed hrow))
      rw [saveInsert_of_eq json s.redis t hk]
      exact (card_nonSeed_add_seed _).trans hI
    · rw [saveInsert_of_ne json s.redis t hk]
      exact hI

/-- **The window bound.**  From a seeded account, in every state of every run of `Save`s and of
    re-seedings with the same seed, the members that are not the seed are at most ten and one for
    each `Save` between its add and its trim.  So with no `Save` in flight the set has at most
    eleven members, and the ranks `-11 .. -1` of a statement are all of it. -/
theorem window_bound (json : TransactionJson) (k : Int32) (seed : Transaction) (s s' : State)
    (hseed : (s.redis (getBankStatementKey k)).entries = [entryOf json seed])
    (actions : List Action) (hsame : ∀ a ∈ actions, SameSeed k seed a)
    (hrun : Transition.run (step json) s actions = some s') :
    (nonSeed json seed (s'.redis (getBankStatementKey k))).card ≤ 10 + inFlight k s' ∧
      (inFlight k s' = 0 →
        (s'.redis (getBankStatementKey k)).entries.length ≤ 11 ∧
        s'.redis.sortedSetRangeByRank (getBankStatementKey k) (-11) (-1) .descending
          = ((s'.redis (getBankStatementKey k)).entries.map SortedSet.member).reverse) := by
  have hstart : Bounded json k seed s := by
    have hnone : nonSeed json seed (s.redis (getBankStatementKey k)) = ∅ := by
      refine Finset.eq_empty_of_forall_notMem fun e he => ?_
      obtain ⟨hmem, hne⟩ := mem_nonSeed.mp he
      rw [hseed, List.mem_singleton] at hmem
      rw [hmem] at hne
      exact hne rfl
    rw [Bounded, hnone, Finset.card_empty]
    exact Nat.zero_le _
  have hbound : Bounded json k seed s' := Transition.run_invariant_of (step json)
    (C := fun _ a => SameSeed k seed a) (fun _ _ _ hI hC hs => bounded_step hI hC hs) actions s s'
    hstart (Transition.allSteps_of_forall (step json) (fun a ha _ => hsame a ha) s) hrun
  refine ⟨hbound, fun hnone => ?_⟩
  rw [Bounded, hnone] at hbound
  have hlength : (s'.redis (getBankStatementKey k)).entries.length ≤ 11 :=
    (length_le_nonSeed _).trans (Nat.succ_le_succ hbound)
  refine ⟨hlength, ?_⟩
  show (s'.redis _).rangeDescending (-((11 : Nat) : Int)) (-1) = _
  rw [SortedSet.rangeDescending_last _ 11 (by decide), List.take_of_length_le hlength]

/-- Two `Save`s that have added, and a restart. -/
theorem window_bound_two :
    ∃ s', Transition.run (step systemTextJson) (freshSaves seededCache 2)
        [.save 0, .reseed seedRow, .save 1] = some s' ∧
      (nonSeed systemTextJson seedRecord (s'.redis (getBankStatementKey 1))).card
        ≤ 10 + inFlight 1 s' := by
  have hsame : ∀ a ∈ [Action.save 0, .reseed seedRow, .save 1], SameSeed 1 seedRecord a := by
    intro a ha
    rcases List.mem_cons.mp ha with rfl | ha
    · exact trivial
    · rcases List.mem_pair.mp ha with rfl | rfl
      · exact fun _ => rfl
      · exact trivial
  exact ⟨_, rfl, (window_bound systemTextJson 1 seedRecord (freshSaves seededCache 2) _
    seededCache_entries _ hsame rfl).1⟩

end WindowBound

end Rinha
