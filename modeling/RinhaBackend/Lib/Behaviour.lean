/-
  Infinite runs, and the rules a liveness proof uses.

  An infinite run is a sequence of states `ρ` with the actions `α` that lead from each to the next
  (`Behaves`).  Its beginnings are runs, so what holds at the end of every run holds throughout
  (`Behaves.run`).  "From some time on" and "again and again" are Mathlib's `∀ᶠ` and `∃ᶠ` along
  `atTop`; fairness is a hypothesis of the second form.

  Two rules say what comes of fairness: a number that from some time on never grows stands still
  from some time on (`eventually_eq_of_le`), and what comes about again and again and is never lost
  holds from some time on (`eventually_of_frequently`).  And that a fairness asks nothing impossible
  is shown by a schedule that never gets stuck (`exists_behaves`).
-/
import Mathlib.Order.Filter.AtTopBot.Basic
import Mathlib.Order.OrderIsoNat
import RinhaBackend.Lib.Transition

namespace Transition

open Filter

section Sequences

/-- **The rule of descent**: what never grows stands still from some time on. -/
theorem eventually_eq_of_le {f : Nat → Nat} (h : ∀ᶠ t in atTop, f (t + 1) ≤ f t) :
    ∀ᶠ t in atTop, f (t + 1) = f t := by
  obtain ⟨T, hT⟩ := eventually_atTop.mp h
  have hanti : Antitone fun k => f (T + k) :=
    antitone_nat_of_succ_le fun k => hT (T + k) (Nat.le_add_right T k)
  obtain ⟨k, hk⟩ := WellFoundedLT.antitone_chain_condition hanti
  refine eventually_atTop.mpr ⟨T + k, fun t ht => ?_⟩
  obtain ⟨j, rfl⟩ := Nat.exists_eq_add_of_le (Nat.le_of_add_right_le ht)
  exact (hk (j + 1) (by omega)).symm.trans (hk j (by omega))

/-- What is kept from one time to the next, from some time on, holds from some time on or from some
    time on not at all. -/
theorem eventually_of_frequently {p : Nat → Prop} (hkeep : ∀ᶠ t in atTop, p t → p (t + 1))
    (h : ∃ᶠ t in atTop, p t) : ∀ᶠ t in atTop, p t := by
  obtain ⟨T, hT⟩ := eventually_atTop.mp hkeep
  obtain ⟨t, ht, hp⟩ := frequently_atTop.mp h T
  refine eventually_atTop.mpr ⟨t, fun u hu => ?_⟩
  induction u, hu using Nat.le_induction with
  | base => exact hp
  | succ u hu ih => exact hT u (ht.trans hu) ih

/-- What no longer changes has a last value. -/
theorem exists_eventually_eq {X : Type} {g : Nat → X} (h : ∀ᶠ t in atTop, g (t + 1) = g t) :
    ∃ x, ∀ᶠ t in atTop, g t = x := by
  obtain ⟨T, hT⟩ := eventually_atTop.mp h
  refine ⟨g T, eventually_atTop.mpr ⟨T, fun t ht => ?_⟩⟩
  induction t, ht using Nat.le_induction with
  | base => rfl
  | succ t ht ih => exact (hT t ht).trans ih

end Sequences

section Runs

variable {S A : Type} {step : S → A → Option S} {ρ : Nat → S} {α : Nat → A}

/-- An infinite run. -/
def Behaves (step : S → A → Option S) (ρ : Nat → S) (α : Nat → A) : Prop :=
  ∀ t, step (ρ t) (α t) = some (ρ (t + 1))

/-- The beginning of an infinite run is a run. -/
theorem Behaves.run (h : Behaves step ρ α) (t : Nat) :
    run step (ρ 0) ((List.range t).map α) = some (ρ t) := by
  induction t with
  | zero => rfl
  | succ t ih =>
    rw [List.range_succ, List.map_append]
    exact (run_concat step).mpr ⟨ρ t, ih, h t⟩

/-- And a condition all steps meet is met by it. -/
theorem Behaves.allSteps {C : S → A → Prop} (h : Behaves step ρ α) (hC : ∀ t, C (ρ t) (α t))
    (t : Nat) : AllSteps step C (ρ 0) ((List.range t).map α) := by
  induction t with
  | zero => exact trivial
  | succ t ih =>
    rw [List.range_succ, List.map_append]
    exact ih.append step (h.run t) fun _ _ => ⟨hC t, trivial⟩

/-- One state, or one action, in front of the others. -/
def prepend {X : Type} (x : X) (ρ : Nat → X) : Nat → X
  | 0 => x
  | t + 1 => ρ t

/-- The states a schedule leads through, from `s`. -/
def statesOf (step : S → A → Option S) (next : Nat → A) (s : S) : Nat → S
  | 0 => s
  | t + 1 => (step (statesOf step next s t) (next t)).getD (statesOf step next s t)

/-- **A run can go on for ever**: a run to a state from where a schedule never gets stuck is the
    beginning of an infinite run, whose steps meet what those of the run and of the schedule do. -/
theorem exists_behaves {I : S → Prop} {C : S → A → Prop} (next : Nat → A)
    (hnext : ∀ t s, I s → C s (next t) ∧ ∃ s', step s (next t) = some s' ∧ I s') (as : List A) :
    ∀ {s m : S}, Transition.run step s as = some m → AllSteps step C s as → I m →
      ∃ ρ α, ρ 0 = s ∧ (List.range as.length).map α = as ∧ Behaves step ρ α ∧
        (∀ t, C (ρ t) (α t)) ∧ ∀ t, I (ρ (as.length + t)) ∧ α (as.length + t) = next t := by
  induction as with
  | nil =>
    intro s m hrun _ hI
    cases hrun
    have hall : ∀ t, I (statesOf step next s t) := by
      intro t
      induction t with
      | zero => exact hI
      | succ t ih =>
        obtain ⟨-, s', hs', hI'⟩ := hnext t _ ih
        rw [statesOf, hs']
        exact hI'
    refine ⟨statesOf step next s, next, rfl, rfl, fun t => ?_, fun t => (hnext t _ (hall t)).1,
      fun t => ?_⟩
    · obtain ⟨-, s', hs', -⟩ := hnext t _ (hall t)
      rw [statesOf, hs']
      rfl
    · rw [List.length_nil, Nat.zero_add]
      exact ⟨hall t, rfl⟩
  | cons a as ih =>
    intro s m hrun hC hI
    obtain ⟨s', hs', hrest⟩ := (run_cons step).mp hrun
    obtain ⟨hCa, hCs⟩ := hC s' hs'
    obtain ⟨ρ, α, hzero, hbegin, hρ, hα, hend⟩ := ih hrest hCs hI
    refine ⟨prepend s ρ, prepend a α, rfl, ?_, fun t => ?_, fun t => ?_, fun t => ?_⟩
    · rw [List.length_cons, List.range_succ_eq_map, List.map_cons, List.map_map]
      exact congrArg (a :: ·) hbegin
    · cases t with
      | zero => exact hs'.trans (congrArg some hzero.symm)
      | succ t => exact hρ t
    · cases t with
      | zero => exact hCa
      | succ t => exact hα t
    · rw [List.length_cons, Nat.add_right_comm]
      exact hend t

end Runs

end Transition
