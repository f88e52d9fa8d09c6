/-
  Deleting steps from a run.

  A run is watched at the steps that are kept, through a view of the state.  If the other steps can
  be deleted without an observer noticing, the run without them exists and shows the same
  (`run_filter`).  What is left to prove of a system are the two halves of an unwinding argument,
  both about one step: a deleted step keeps the two states related, and a kept step can be taken
  from the related state too, to states that are again related.
-/
import RinhaBackend.Lib.Transition

namespace Projection

open Transition

variable {S A V : Type} (step : S → A → Option S) (keep : A → Bool) (view : S → V)

/-- The view after each step that is kept. -/
def observed : S → List A → List V
  | _, [] => []
  | s, a :: as =>
    match step s a with
    | none => []
    | some s' => if keep a then view s' :: observed s' as else observed s' as

variable {step keep view}

theorem observed_cons {s s' : S} {a : A} {as : List A} (h : step s a = some s') :
    observed step keep view s (a :: as)
      = if keep a then view s' :: observed step keep view s' as
        else observed step keep view s' as := by
  rw [observed, h]

/-- **Unwinding.**  If deleted steps keep the relation `R` to a second state, and kept steps can be
    followed there, then a run filtered to its kept steps is a run from the second state, it ends in
    a related state, and the observer sees the same after each kept step. -/
theorem run_filter {R : S → S → Prop}
    (hskip : ∀ s s' t a, R s t → keep a = false → step s a = some s' → R s' t)
    (hkeep : ∀ s s' t a, R s t → keep a = true → step s a = some s' →
      ∃ t', step t a = some t' ∧ R s' t')
    (hview : ∀ s t, R s t → view s = view t) :
    ∀ (as : List A) (s s' t : S), R s t → run step s as = some s' →
      ∃ t', run step t (as.filter keep) = some t' ∧ R s' t' ∧
        observed step keep view s as = observed step keep view t (as.filter keep) := by
  intro as
  induction as with
  | nil =>
    intro s s' t hR hrun
    cases hrun
    exact ⟨t, rfl, hR, rfl⟩
  | cons a as ih =>
    intro s s' t hR hrun
    obtain ⟨m, hm, hrest⟩ := (run_cons step).mp hrun
    rw [observed_cons hm, List.filter_cons]
    by_cases ha : keep a = true
    · obtain ⟨n, hn, hR'⟩ := hkeep s m t a hR ha hm
      obtain ⟨t', hrun', hend, hobs⟩ := ih m s' n hR' hrest
      rw [if_pos ha, if_pos ha, observed_cons hn, if_pos ha, hview m n hR', hobs]
      exact ⟨t', (run_cons step).mpr ⟨n, hn, hrun'⟩, hend, rfl⟩
    · rw [if_neg ha, if_neg ha]
      exact ih m s' t (hskip s m t a hR (Bool.eq_false_iff.mpr ha) hm) hrest

end Projection
