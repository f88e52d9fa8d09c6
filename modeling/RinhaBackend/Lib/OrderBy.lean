/-
  `ORDER BY key LIMIT n`, as far as SQL fixes it.

  A query returns the rows in SOME order in which the keys ascend: rows with equal keys may come in
  any order, and a limit may cut between them.  `OrderBy key` is any such ordering, so a result
  over every `OrderBy` holds of whatever the database does with ties; `OrderBy.stable` is the one
  that keeps ties as they are stored.

  Two lemmas matter.  `take_eq`: the first `n` rows are known, however the ties further down are
  broken, as soon as no row can come before any of them.  `sort_eq`: all rows are, if only equal
  rows have equal keys.
-/
import Mathlib.Data.List.Sort

/-- An ordering by `key`: the rows rearranged so that the keys ascend. -/
structure OrderBy {α κ : Type} [LinearOrder κ] (key : α → κ) where
  sort : List α → List α
  perm : ∀ l, (sort l).Perm l
  sorted : ∀ l, (sort l).Pairwise fun a b => key a ≤ key b

namespace OrderBy

variable {α κ : Type} [LinearOrder κ] {key : α → κ}

/-- Rows with equal keys in the order they are given. -/
def stable (key : α → κ) : OrderBy key where
  sort := List.insertionSort fun a b => key a ≤ key b
  perm := List.perm_insertionSort _
  sorted l := by
    have : Std.Total fun a b : α => key a ≤ key b := ⟨fun a b => le_total _ _⟩
    have : IsTrans α fun a b => key a ≤ key b := ⟨fun _ _ _ => le_trans⟩
    exact List.pairwise_insertionSort _ l

/-- What is not below anything behind it stands at the head of every sorted rearrangement. -/
theorem head_eq {l full : List α} {b : α} (hsorted : l.Pairwise fun a b => key a ≤ key b)
    (hperm : l.Perm (b :: full)) (hfirst : ∀ x ∈ full, key b < key x) :
    ∃ rest, l = b :: rest ∧ rest.Perm full := by
  rcases l with _ | ⟨a, rest⟩
  · exact absurd hperm.length_eq (by simp)
  · have ha : a = b := by
      rcases List.mem_cons.mp (hperm.subset List.mem_cons_self) with hab | hmem
      · exact hab
      · -- then `b` stands behind `a`, and comes after it
        have hb : b ∈ a :: rest := hperm.symm.subset List.mem_cons_self
        rcases List.mem_cons.mp hb with hba | hb
        · exact hba.symm
        · exact absurd (hfirst a hmem) (not_lt.mpr (List.rel_of_pairwise_cons hsorted hb))
    subst ha
    exact ⟨rest, rfl, (List.perm_cons a).mp hperm⟩

/-- **The first `n` rows**, of every sorted rearrangement of `full`, if each of them comes before
    all that `full` has behind it. -/
theorem take_eq_of_sorted : ∀ (n : Nat) {l full : List α},
    l.Pairwise (fun a b => key a ≤ key b) → l.Perm full →
    (∀ i j a b, i < n → i < j → full[i]? = some a → full[j]? = some b → key a < key b) →
    l.take n = full.take n := by
  intro n
  induction n with
  | zero => exact fun _ _ _ => rfl
  | succ n ih =>
    intro l full hsorted hperm hbefore
    rcases full with _ | ⟨b, full⟩
    · rw [hperm.eq_nil]
    · obtain ⟨rest, rfl, hrest⟩ := head_eq hsorted hperm fun x hx => by
        obtain ⟨j, hj⟩ := List.mem_iff_getElem?.mp hx
        exact hbefore 0 (j + 1) b x (Nat.succ_pos n) (Nat.succ_pos j) rfl hj
      rw [List.take_succ_cons, List.take_succ_cons, ih (List.pairwise_cons.mp hsorted).2 hrest]
      intro i j a x hi hij ha hx
      exact hbefore (i + 1) (j + 1) a x (Nat.succ_lt_succ hi) (Nat.succ_lt_succ hij) ha hx

variable (order : OrderBy key)

theorem take_eq {l full : List α} (n : Nat) (hperm : l.Perm full)
    (hbefore : ∀ i j a b, i < n → i < j → full[i]? = some a → full[j]? = some b →
      key a < key b) : (order.sort l).take n = full.take n :=
  take_eq_of_sorted n (order.sorted l) ((order.perm l).trans hperm) hbefore

/-- **All rows**, if equal keys are those of equal rows. -/
theorem sort_eq {l full : List α} (hperm : l.Perm full)
    (hfull : full.Pairwise fun a b => a = b ∨ key a < key b) : order.sort l = full := by
  have hne : full.Pairwise fun a b => key a = key b → a = b := by
    refine hfull.imp fun hab heq => ?_
    rcases hab with hab | hlt
    · exact hab
    · exact absurd heq hlt.ne
  have hsame : ∀ a ∈ full, ∀ b ∈ full, key a = key b → a = b := fun a ha b hb =>
    hne.forall_of_forall_of_flip (fun _ _ _ => rfl) (hne.imp fun h heq => (h heq.symm).symm) ha hb
  have hsorted : full.Pairwise fun a b => key a ≤ key b := by
    refine hfull.imp fun hab => ?_
    rcases hab with rfl | hlt
    · exact le_refl _
    · exact hlt.le
  have hsort : (order.sort l).Perm full := (order.perm l).trans hperm
  exact hsort.eq_of_pairwise (fun a b ha hb hab hba =>
    hsame a (hsort.subset ha) b hb (le_antisymm hab hba)) (order.sorted l) hsorted

theorem mem_sort {l : List α} {a : α} : a ∈ order.sort l ↔ a ∈ l := (order.perm l).mem_iff

/-- With different keys the order is strict. -/
theorem strict {l : List α} (h : l.Pairwise fun a b => key a ≠ key b) :
    (order.sort l).Pairwise fun a b => key a < key b := by
  have hne : (order.sort l).Pairwise fun a b => key a ≠ key b :=
    (order.perm l).symm.pairwise h fun hab => hab.symm
  exact (order.sorted l).imp₂ (fun a b hle hne => lt_of_le_of_ne hle hne) hne

/-- What comes first, of rows that are not none, comes before all the others. -/
theorem exists_head {l : List α} (hne : l ≠ []) {R : α → α → Prop}
    (h : (order.sort l).Pairwise R) :
    ∃ a rest, order.sort l = a :: rest ∧ a ∈ l ∧ ∀ b ∈ l, b = a ∨ R a b := by
  rcases hsort : order.sort l with _ | ⟨a, rest⟩
  · have hperm := order.perm l
    rw [hsort] at hperm
    exact absurd hperm.nil_eq.symm hne
  · have hmem : ∀ b, b ∈ a :: rest ↔ b ∈ l := by
      intro b
      rw [← hsort, mem_sort]
    rw [hsort] at h
    refine ⟨a, rest, rfl, (hmem a).mp List.mem_cons_self, fun b hb => ?_⟩
    rcases List.mem_cons.mp ((hmem b).mpr hb) with heq | hlater
    · exact Or.inl heq
    · exact Or.inr (List.rel_of_pairwise_cons h hlater)

end OrderBy
