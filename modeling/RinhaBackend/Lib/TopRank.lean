/-
  The `n` highest elements of a finite set, as a filter: `x` is kept when fewer than `n`
  elements lie strictly above it.

  The point of the file is the ABSORPTION law `top_union_absorb`: cutting to the top `n` early
  never changes what a later cut keeps, `top n (top n A ∪ B) = top n (A ∪ B)`.  It is what makes
  a bounded window fed by concurrent writers confluent: the order of insertions and cuts does
  not matter once a cut comes last.

  `Retains` is what holds in between: at every moment the window has the top `n` of everything that
  was ever inserted.
-/
import Mathlib.Data.Finset.Card
import Mathlib.Data.Finset.Max

namespace TopRank

variable {α : Type} [LinearOrder α]

/-- The elements of `A` strictly above `x`. -/
def above (A : Finset α) (x : α) : Finset α := A.filter fun y => x < y

/-- The `n` highest elements of `A` (all of them when there are fewer). -/
def top (n : Nat) (A : Finset α) : Finset α := A.filter fun x => (above A x).card < n

theorem mem_above {A : Finset α} {x y : α} : y ∈ above A x ↔ y ∈ A ∧ x < y := by
  rw [above, Finset.mem_filter]

theorem mem_top {n : Nat} {A : Finset α} {x : α} :
    x ∈ top n A ↔ x ∈ A ∧ (above A x).card < n := by
  rw [top, Finset.mem_filter]

theorem top_subset (n : Nat) (A : Finset α) : top n A ⊆ A := Finset.filter_subset _ _

theorem above_mono {A B : Finset α} (h : A ⊆ B) (x : α) : above A x ⊆ above B x :=
  Finset.filter_subset_filter _ h

/-- A smaller set has at least as many survivors: what is in the top of `B` and lies in
    `A ⊆ B` is in the top of `A`. -/
theorem mem_top_of_subset {n : Nat} {A B : Finset α} (h : A ⊆ B) {x : α} (hx : x ∈ A)
    (htop : x ∈ top n B) : x ∈ top n A :=
  mem_top.mpr ⟨hx, Nat.lt_of_le_of_lt (Finset.card_le_card (above_mono h x)) (mem_top.mp htop).2⟩

/-- Adding an element below everything else only matters while the window is not full. -/
theorem top_insert_min {n : Nat} {A : Finset α} {a : α} (hmin : ∀ x ∈ A, a < x) :
    top n (insert a A) = if A.card < n then insert a (top n A) else top n A := by
  have habove : ∀ x ∈ A, above (insert a A) x = above A x := by
    intro x hx
    rw [above, Finset.filter_insert, if_neg (not_lt.mpr (hmin x hx).le), above]
  have hself : above (insert a A) a = A := by
    rw [above, Finset.filter_insert, if_neg (lt_irrefl a)]
    exact Finset.filter_true_of_mem hmin
  ext x
  rw [mem_top]
  by_cases hcard : A.card < n
  · rw [if_pos hcard, Finset.mem_insert, Finset.mem_insert]
    constructor
    · rintro ⟨rfl | hx, hlt⟩
      · exact Or.inl rfl
      · exact Or.inr (mem_top.mpr ⟨hx, by rwa [habove x hx] at hlt⟩)
    · rintro (rfl | hx)
      · exact ⟨Or.inl rfl, by rwa [hself]⟩
      · obtain ⟨hxA, hlt⟩ := mem_top.mp hx
        exact ⟨Or.inr hxA, by rwa [habove x hxA]⟩
  · rw [if_neg hcard, Finset.mem_insert]
    constructor
    · rintro ⟨rfl | hx, hlt⟩
      · exact absurd (by rwa [hself] at hlt) hcard
      · exact mem_top.mpr ⟨hx, by rwa [habove x hx] at hlt⟩
    · intro hx
      obtain ⟨hxA, hlt⟩ := mem_top.mp hx
      exact ⟨Or.inr hxA, by rwa [habove x hxA]⟩

/-- The window holds `n` elements, or all of them when there are fewer. -/
theorem card_top (n : Nat) (A : Finset α) : (top n A).card = min n A.card := by
  induction A using Finset.induction_on_min with
  | empty => simp [top]
  | insert a A hmin ih =>
    have haA : a ∉ A := fun h => lt_irrefl a (hmin a h)
    have hatop : a ∉ top n A := fun h => haA (top_subset n A h)
    rw [top_insert_min hmin, Finset.card_insert_of_notMem haA]
    by_cases hcard : A.card < n
    · rw [if_pos hcard, Finset.card_insert_of_notMem hatop, ih]
      omega
    · rw [if_neg hcard, ih]
      omega

/-- Cutting the part of `A` above `y` is the part above `y` of the cut. -/
theorem top_above (n : Nat) (A : Finset α) (y : α) : top n (above A y) = above (top n A) y := by
  have hup : ∀ x, y < x → above (above A y) x = above A x := by
    intro x hyx
    ext z
    rw [mem_above, mem_above, mem_above]
    exact ⟨fun h => ⟨h.1.1, h.2⟩, fun h => ⟨⟨h.1, lt_trans hyx h.2⟩, h.2⟩⟩
  ext x
  rw [mem_top, mem_above, mem_above, mem_top]
  constructor
  · rintro ⟨⟨hxA, hyx⟩, hlt⟩
    rw [hup x hyx] at hlt
    exact ⟨⟨hxA, hlt⟩, hyx⟩
  · rintro ⟨⟨hxA, hlt⟩, hyx⟩
    exact ⟨⟨hxA, hyx⟩, by rwa [hup x hyx]⟩

/-- What a cut dropped had at least `n` survivors above it. -/
theorem le_card_above_top {n : Nat} {A : Finset α} {y : α} (hy : n ≤ (above A y).card) :
    n ≤ (above (top n A) y).card := by
  rw [← top_above, card_top]
  omega

/-- **Absorption.**  An early cut never drops an element a later cut would keep. -/
theorem top_union_absorb (n : Nat) (A B : Finset α) :
    top n (top n A ∪ B) = top n (A ∪ B) := by
  have hsub : top n A ∪ B ⊆ A ∪ B := Finset.union_subset_union_left (top_subset n A)
  ext x
  constructor
  · intro hx
    obtain ⟨hmem, hlt⟩ := mem_top.mp hx
    refine mem_top.mpr ⟨hsub hmem, ?_⟩
    -- if some element above `x` was cut from `A`, its `n` betters alone fill the window
    by_cases hcut : ∃ y ∈ A, x < y ∧ y ∉ top n A
    · obtain ⟨y, hyA, hxy, hynot⟩ := hcut
      have hge : n ≤ (above A y).card :=
        not_lt.mp fun h => hynot (mem_top.mpr ⟨hyA, h⟩)
      have hsubset : above (top n A) y ⊆ above (top n A ∪ B) x := by
        intro z hz
        obtain ⟨hzA, hyz⟩ := mem_above.mp hz
        exact mem_above.mpr ⟨Finset.mem_union_left B hzA, lt_trans hxy hyz⟩
      have := Finset.card_le_card hsubset
      have := le_card_above_top hge
      omega
    · have hsame : above (A ∪ B) x ⊆ above (top n A ∪ B) x := by
        intro z hz
        obtain ⟨hzmem, hxz⟩ := mem_above.mp hz
        refine mem_above.mpr ⟨?_, hxz⟩
        rcases Finset.mem_union.mp hzmem with hzA | hzB
        · refine Finset.mem_union_left B (Classical.not_not.mp fun hznot => ?_)
          exact hcut ⟨z, hzA, hxz, hznot⟩
        · exact Finset.mem_union_right _ hzB
      exact Nat.lt_of_le_of_lt (Finset.card_le_card hsame) hlt
  · intro hx
    refine mem_top_of_subset hsub ?_ hx
    rcases Finset.mem_union.mp (mem_top.mp hx).1 with hxA | hxB
    · exact Finset.mem_union_left B (mem_top_of_subset Finset.subset_union_left hxA hx)
    · exact Finset.mem_union_right _ hxB

/-- Cutting twice is cutting once. -/
theorem top_idem (n : Nat) (A : Finset α) : top n (top n A) = top n A := by
  have h := top_union_absorb n A ∅
  rwa [Finset.union_empty, Finset.union_empty] at h

/-! ## A window in between -/

/-- `S` is what is left of `E`, its top `n` included. -/
structure Retains (n : Nat) (E S : Finset α) : Prop where
  subset : S ⊆ E
  top_subset : top n E ⊆ S

section Retaining

variable {n : Nat} {E S : Finset α}

theorem Retains.refl (n : Nat) (E : Finset α) : Retains n E E :=
  ⟨Finset.Subset.refl E, TopRank.top_subset n E⟩

/-- What is added is retained. -/
theorem Retains.add (h : Retains n E S) {E' S' : Finset α} {a : α}
    (hE : ∀ x, x ∈ E' ↔ x = a ∨ x ∈ E) (hS : ∀ x, x ∈ S' ↔ x = a ∨ x ∈ S) : Retains n E' S' := by
  refine ⟨fun x hx => (hE x).mpr (((hS x).mp hx).imp_right fun hmem => h.subset hmem), ?_⟩
  intro x hx
  rcases (hE x).mp (mem_top.mp hx).1 with rfl | hxE
  · exact (hS x).mpr (Or.inl rfl)
  · refine (hS x).mpr (Or.inr (h.top_subset ?_))
    exact mem_top_of_subset (fun y hy => (hE y).mpr (Or.inr hy)) hxE hx

/-- A cut leaves what has to be retained. -/
theorem Retains.cut (h : Retains n E S) : Retains n E (top n S) :=
  ⟨(TopRank.top_subset n S).trans h.subset,
    fun _ hx => mem_top_of_subset h.subset (h.top_subset hx) hx⟩

/-- What is missing has `n` elements above it that are not. -/
theorem Retains.le_card_above (h : Retains n E S) {x : α} (hx : x ∈ E) (hnot : x ∉ S) :
    n ≤ (above S x).card := by
  have hfull : n ≤ (above E x).card :=
    not_lt.mp fun hlt => hnot (h.top_subset (mem_top.mpr ⟨hx, hlt⟩))
  exact (le_card_above_top hfull).trans (Finset.card_le_card (above_mono h.top_subset x))

/-- The top `n` of what is left is the top `n` of everything. -/
theorem Retains.top_eq (h : Retains n E S) : top n S = top n E := by
  refine Finset.Subset.antisymm (fun x hx => ?_) h.cut.top_subset
  obtain ⟨hxS, hlt⟩ := mem_top.mp hx
  refine mem_top.mpr ⟨h.subset hxS, not_le.mp fun hfull => ?_⟩
  -- the top `n` of everything is left, so there would be `n` above `x` in what is left too
  have hleft := Finset.card_le_card (above_mono h.top_subset x)
  have habove := le_card_above_top hfull
  omega

/-- The highest element is never missing. -/
theorem Retains.max_mem (h : Retains n E S) (hn : 0 < n) {x : α} (hx : x ∈ E)
    (hmax : ∀ y ∈ E, y ≤ x) : x ∈ S := by
  refine h.top_subset (mem_top.mpr ⟨hx, ?_⟩)
  have hnone : above E x = ∅ := by
    refine Finset.eq_empty_of_forall_notMem fun y hy => ?_
    obtain ⟨hyE, hlt⟩ := mem_above.mp hy
    exact absurd (hmax y hyE) (not_le.mpr hlt)
  rwa [hnone]

end Retaining

end TopRank
