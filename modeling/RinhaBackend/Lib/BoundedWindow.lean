/-
  Concurrent writers to one bounded sorted set.

  A writer is two separate atomic commands: add an entry, then cut the set to its `n` highest.
  Commands of different writers interleave freely, and entries may also be added by someone who
  never cuts.  `final_content` is CONFLUENCE: whatever the order, once every writer has finished
  the set holds the `n` highest entries of everything that was there or was added.  The invariant
  (`Pending`) is that what is stored, together with what is still to be added, has the same top
  `n` throughout: an add moves an entry from one side to the other, and a cut is absorbed by the
  later ones (`TopRank.top_union_absorb`).
-/
import RinhaBackend.Lib.Parties
import RinhaBackend.Lib.SortedSet
import RinhaBackend.Lib.Transition

namespace BoundedWindow

/-- Where a writer stands. -/
inductive Phase where
  | inserting | trimming | finished
  deriving DecidableEq, Repr

variable {σ μ : Type}

/-- A writer: its entry and its phase. -/
structure Writer (σ μ : Type) where
  score : σ
  member : μ
  phase : Phase

/-- The entry a writer adds. -/
def Writer.entry (w : Writer σ μ) : σ ×ₗ μ := toLex (w.score, w.member)

variable [LinearOrder σ] [LinearOrder μ]

/-- The set and its writers. -/
structure State (σ μ : Type) [LinearOrder σ] [LinearOrder μ] where
  set : SortedSet σ μ
  writers : List (Writer σ μ)

/-- The next command of a writer. -/
def stepWriter (n : Nat) (set : SortedSet σ μ) (w : Writer σ μ) :
    Option (SortedSet σ μ × Writer σ μ) :=
  match w.phase with
  | .inserting => some (set.add w.score w.member, { w with phase := .trimming })
  | .trimming => some (set.keepTop n, { w with phase := .finished })
  | .finished => none

/-- The next command of writer `i`. -/
def step (n : Nat) (s : State σ μ) (i : Nat) : Option (State σ μ) :=
  (s.writers[i]?).bind fun w => (stepWriter n s.set w).map fun r => ⟨r.1, s.writers.set i r.2⟩

/-- What a step can do: writer `w` at `i` adds its entry, or cuts. -/
theorem step_cases {n : Nat} {s s' : State σ μ} {i : Nat} (h : step n s i = some s') :
    ∃ w, s.writers[i]? = some w ∧
      ((w.phase = .inserting ∧
          s' = ⟨s.set.add w.score w.member, s.writers.set i { w with phase := .trimming }⟩) ∨
       (w.phase = .trimming ∧
          s' = ⟨s.set.keepTop n, s.writers.set i { w with phase := .finished }⟩)) := by
  obtain ⟨w, hw, hmap⟩ := Option.bind_eq_some_iff.mp h
  obtain ⟨r, hr, rfl⟩ := Option.map_eq_some_iff.mp hmap
  refine ⟨w, hw, ?_⟩
  rw [stepWriter] at hr
  split at hr
  · next hphase =>
    cases hr
    exact Or.inl ⟨hphase, rfl⟩
  · next hphase =>
    cases hr
    exact Or.inr ⟨hphase, rfl⟩
  · cases hr

/-- The entries that writers have still to add. -/
def pending (ws : List (Writer σ μ)) : Finset (σ ×ₗ μ) :=
  ((ws.filter fun w => w.phase = .inserting).map Writer.entry).toFinset

theorem mem_pending {ws : List (Writer σ μ)} {e : σ ×ₗ μ} :
    e ∈ pending ws ↔ ∃ w ∈ ws, w.phase = .inserting ∧ w.entry = e := by
  rw [pending, List.mem_toFinset, List.mem_map]
  constructor
  · rintro ⟨w, hw, rfl⟩
    obtain ⟨hmem, hphase⟩ := List.mem_filter.mp hw
    exact ⟨w, hmem, of_decide_eq_true hphase, rfl⟩
  · rintro ⟨w, hw, hphase, rfl⟩
    exact ⟨w, List.mem_filter.mpr ⟨hw, decide_eq_true hphase⟩, rfl⟩

/-- Moving writer `i` out of `inserting` leaves at most its own entry less to add. -/
theorem pending_set {ws : List (Writer σ μ)} {i : Nat} {w : Writer σ μ} (hw : ws[i]? = some w)
    {p : Phase} (hp : p ≠ .inserting) (hi : w.phase = .inserting) :
    insert w.entry (pending (ws.set i { w with phase := p })) = pending ws := by
  have hwmem : w ∈ ws := List.mem_of_getElem? hw
  ext e
  rw [Finset.mem_insert, mem_pending, mem_pending]
  constructor
  · rintro (rfl | ⟨v, hv, hphase, rfl⟩)
    · exact ⟨w, hwmem, hi, rfl⟩
    · rcases List.mem_or_eq_of_mem_set hv with hv | rfl
      · exact ⟨v, hv, hphase, rfl⟩
      · exact absurd hphase hp
  · rintro ⟨v, hv, hphase, rfl⟩
    rcases Parties.mem_or_moved hw hv { w with phase := p } with hv | rfl
    · exact Or.inr ⟨v, hv, hphase, rfl⟩
    · exact Or.inl rfl

/-- A writer that has already added has nothing pending. -/
theorem pending_set_of_not_inserting {ws : List (Writer σ μ)} {i : Nat} {w : Writer σ μ}
    (hw : ws[i]? = some w) {p : Phase} (hp : p ≠ .inserting) (hi : w.phase ≠ .inserting) :
    pending (ws.set i { w with phase := p }) = pending ws := by
  ext e
  rw [mem_pending, mem_pending]
  constructor
  · rintro ⟨v, hv, hphase, rfl⟩
    rcases List.mem_or_eq_of_mem_set hv with hv | rfl
    · exact ⟨v, hv, hphase, rfl⟩
    · exact absurd hphase hp
  · rintro ⟨v, hv, hphase, rfl⟩
    rcases Parties.mem_or_moved hw hv { w with phase := p } with hv | rfl
    · exact ⟨v, hv, hphase, rfl⟩
    · exact absurd hphase hi

/-- Everything in `total` with one member is one entry: a member always carries the same score. -/
def Consistent (total : Finset (σ ×ₗ μ)) : Prop :=
  ∀ a ∈ total, ∀ b ∈ total, SortedSet.member a = SortedSet.member b → a = b

/-- The invariant: all content comes from `total`, stored and pending entries together have its
    top `n`, and a set nobody is about to cut is already cut. -/
structure Pending (n : Nat) (total : Finset (σ ×ₗ μ)) (s : State σ μ) : Prop where
  stored : s.set.toFinset ⊆ total
  added : ∀ w ∈ s.writers, w.entry ∈ total
  window : TopRank.top n (s.set.toFinset ∪ pending s.writers) = TopRank.top n total
  cut : (∃ w ∈ s.writers, w.phase ≠ .finished) ∨ TopRank.top n s.set.toFinset = s.set.toFinset

theorem pending_step {n : Nat} {total : Finset (σ ×ₗ μ)} (hcons : Consistent total)
    {s s' : State σ μ} {i : Nat} (hI : Pending n total s) (h : step n s i = some s') :
    Pending n total s' := by
  obtain ⟨w, hw, ⟨hphase, rfl⟩ | ⟨hphase, rfl⟩⟩ := step_cases h
  · have hwmem : w ∈ s.writers := List.mem_of_getElem? hw
    have hadd : (s.set.add w.score w.member).toFinset = insert w.entry s.set.toFinset := by
      refine SortedSet.toFinset_add fun e he hm => ?_
      have heq := hcons e (hI.stored (SortedSet.mem_toFinset.mpr he)) _ (hI.added w hwmem) hm
      rw [heq]
      rfl
    refine ⟨?_, ?_, ?_, ?_⟩
    · rw [hadd]
      exact Finset.insert_subset (hI.added w hwmem) hI.stored
    · intro v hv
      rcases List.mem_or_eq_of_mem_set hv with hv | rfl
      · exact hI.added v hv
      · exact hI.added w hwmem
    · -- the entry moves from the pending side to the stored side
      rw [hadd, Finset.insert_union, ← Finset.union_insert, pending_set hw (by decide) hphase]
      exact hI.window
    · exact Or.inl ⟨_, Parties.moved_mem hw _, fun hc => Phase.noConfusion hc⟩
  · refine ⟨?_, ?_, ?_, ?_⟩
    · rw [SortedSet.toFinset_keepTop]
      exact (TopRank.top_subset _ _).trans hI.stored
    · intro v hv
      rcases List.mem_or_eq_of_mem_set hv with hv | rfl
      · exact hI.added v hv
      · exact hI.added w (List.mem_of_getElem? hw)
    · -- an early cut is absorbed by the cuts still to come
      rw [SortedSet.toFinset_keepTop, TopRank.top_union_absorb,
        pending_set_of_not_inserting hw (by decide) (by rw [hphase]; decide)]
      exact hI.window
    · refine Or.inr ?_
      rw [SortedSet.toFinset_keepTop, TopRank.top_idem]

/-- **Confluence.**  Writers that all start by adding, run in any order to the end, leave exactly
    the `n` highest entries of the initial content and everything added. -/
theorem final_content {n : Nat} {s s' : State σ μ} {total : Finset (σ ×ₗ μ)}
    (hne : s.writers ≠ []) (hstart : ∀ w ∈ s.writers, w.phase = .inserting)
    (htotal : ∀ e, e ∈ total ↔ e ∈ s.set.entries ∨ ∃ w ∈ s.writers, w.entry = e)
    (hcons : Consistent total) {is : List Nat} (hrun : Transition.run (step n) s is = some s')
    (hdone : ∀ w ∈ s'.writers, w.phase = .finished) :
    s'.set.toFinset = TopRank.top n total := by
  have hunion : s.set.toFinset ∪ pending s.writers = total := by
    ext e
    rw [Finset.mem_union, SortedSet.mem_toFinset, mem_pending, htotal]
    constructor
    · rintro (h | ⟨w, hw, -, rfl⟩)
      · exact Or.inl h
      · exact Or.inr ⟨w, hw, rfl⟩
    · rintro (h | ⟨w, hw, rfl⟩)
      · exact Or.inl h
      · exact Or.inr ⟨w, hw, hstart w hw, rfl⟩
  have hinit : Pending n total s := by
    refine ⟨?_, fun w hw => (htotal _).mpr (Or.inr ⟨w, hw, rfl⟩), by rw [hunion], Or.inl ?_⟩
    · rw [← hunion]
      exact Finset.subset_union_left
    · obtain ⟨w, hw⟩ := List.exists_mem_of_ne_nil _ hne
      exact ⟨w, hw, by rw [hstart w hw]; decide⟩
  have hfinal := Transition.run_invariant (step n) (fun _ _ _ => pending_step hcons) hinit hrun
  have hnone : pending s'.writers = ∅ := by
    refine Finset.eq_empty_of_forall_notMem fun e he => ?_
    obtain ⟨w, hw, hphase, -⟩ := mem_pending.mp he
    rw [hdone w hw] at hphase
    exact absurd hphase (by decide)
  have hcut : TopRank.top n s'.set.toFinset = s'.set.toFinset := by
    rcases hfinal.cut with ⟨w, hw, hphase⟩ | hcut
    · exact absurd (hdone w hw) hphase
    · exact hcut
  have hwindow := hfinal.window
  rwa [hnone, Finset.union_empty, hcut] at hwindow

end BoundedWindow
