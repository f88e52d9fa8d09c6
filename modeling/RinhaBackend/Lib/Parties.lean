/-
  Systems of many parties: the state is a list with one entry a party, and a step replaces the
  entry of the party that moved.

  What a proof then needs is how a property of some party, or a sum over all of them, follows from
  what the one replaced entry does: `mem_or_moved` for properties, `sum_map_set` for sums.
-/
import Mathlib.Algebra.BigOperators.Group.List.Basic

namespace Parties

variable {α : Type} {l : List α} {i : Nat} {a : α}

/-- A party is still there after a step, unless it is the one that moved. -/
theorem mem_or_moved (h : l[i]? = some a) {c : α} (hc : c ∈ l) (b : α) :
    c ∈ l.set i b ∨ c = a := by
  obtain ⟨j, hj⟩ := List.mem_iff_getElem?.mp hc
  by_cases hij : i = j
  · subst hij
    rw [h, Option.some.injEq] at hj
    exact Or.inr hj.symm
  · refine Or.inl (List.mem_iff_getElem?.mpr ⟨j, ?_⟩)
    rw [List.getElem?_set_ne hij]
    exact hj

/-- The party that moved is there with its new entry. -/
theorem moved_mem (h : l[i]? = some a) (b : α) : b ∈ l.set i b :=
  List.mem_set (List.getElem?_eq_some_iff.mp h).1 b

/-- Where two systems agree on `f` of every party, they have the same parties. -/
theorem exists_of_map_eq {β : Type} {f : α → β} {l' : List α} (hf : l.map f = l'.map f)
    (h : l[i]? = some a) : ∃ a', l'[i]? = some a' ∧ f a' = f a := by
  have hget : (l'.map f)[i]? = some (f a) := by rw [← hf, List.getElem?_map, h, Option.map_some]
  rw [List.getElem?_map] at hget
  exact Option.map_eq_some_iff.mp hget

/-- What a step does not change about the party that moved, it changes about none. -/
theorem map_set_of_eq {β : Type} {f : α → β} (h : l[i]? = some a) {b : α} (hf : f b = f a) :
    (l.set i b).map f = l.map f := by
  obtain ⟨hlt, rfl⟩ := List.getElem?_eq_some_iff.mp h
  have hlt' : i < (l.map f).length := by rwa [List.length_map]
  have hget : f b = (l.map f)[i] := by rw [hf, List.getElem_map]
  rw [List.map_set, hget, List.set_getElem_self]

/-- What a party that had shown nothing shows joins what the others have. -/
theorem sublist_filterMap_set {β : Type} {f : α → Option β} (h : l[i]? = some a)
    (hf : f a = none) (b : α) : (l.filterMap f).Sublist ((l.set i b).filterMap f) := by
  induction l generalizing i with
  | nil => cases h
  | cons x l ih =>
    cases i with
    | zero =>
      rw [List.getElem?_cons_zero, Option.some.injEq] at h
      subst h
      rw [List.filterMap_cons_none hf, List.set_cons_zero]
      exact (List.sublist_cons_self b l).filterMap f
    | succ i =>
      rw [List.getElem?_cons_succ] at h
      rw [List.set_cons_succ, List.filterMap_cons, List.filterMap_cons]
      split
      · exact ih h
      · exact (ih h).cons_cons _

variable {M : Type} [AddCommMonoid M]

/-- **Sums over the parties** change by what the one that moved contributes. -/
theorem sum_map_set (f : α → M) (h : l[i]? = some a) (b : α) :
    ((l.set i b).map f).sum + f a = (l.map f).sum + f b := by
  induction l generalizing i with
  | nil => cases h
  | cons x l ih =>
    cases i with
    | zero =>
      rw [List.getElem?_cons_zero, Option.some.injEq] at h
      subst h
      rw [List.set_cons_zero, List.map_cons, List.sum_cons, List.map_cons, List.sum_cons,
        add_right_comm, add_comm (f b) (f x), add_right_comm]
    | succ i =>
      rw [List.getElem?_cons_succ] at h
      rw [List.set_cons_succ, List.map_cons, List.sum_cons, List.map_cons, List.sum_cons, add_assoc,
        ih h, add_assoc]

/-- A step that changes no contribution changes no sum. -/
theorem sum_map_set_of_eq {f : α → M} (h : l[i]? = some a) {b : α} (hf : f b = f a) :
    ((l.set i b).map f).sum = (l.map f).sum := by
  rw [map_set_of_eq h hf]

end Parties
