/-
  Runs of a partial step function, and the induction rules a safety proof uses.

  A system is a step function `step : S → A → Option S`: `none` says that the action is not
  enabled in the state.  Interleavings are lists of actions, so "every interleaving" is "every
  list", and "every reachable state" is "the end of every run" (a prefix of a run is a run).

  Three rules carry every safety argument built on this file:
  * `run_invariant`      — an invariant of all steps is an invariant of all runs;
  * `run_invariant_of`   — the same when the step only preserves it under a side condition that
                           each step of the run meets (`AllSteps`);
  * `allStates_iff_allSteps` — when that condition is also NECESSARY for the step to preserve
                           the invariant, the two notions coincide along every run.
  A fourth, `run_map`, replays a run under other names.

  What a run has gone through on the way is told by `yields`, what its steps yield one after
  another, with the invariant rule `run_yields`, and by `run_history`, induction on the run.

  That a run gets somewhere is `exists_run_of_measure`: while it is not there yet, some step is
  enabled and leaves less to do.
-/
import Mathlib.Data.List.Induction

namespace Transition

variable {S A : Type} (step : S → A → Option S)

/-- Run the actions from left to right; `none` as soon as one of them is not enabled. -/
def run : S → List A → Option S
  | s, [] => some s
  | s, a :: as => (step s a).bind fun s' => run s' as

/-- `C` holds before every step the run takes. -/
def AllSteps (C : S → A → Prop) : S → List A → Prop
  | _, [] => True
  | s, a :: as => ∀ s', step s a = some s' → C s a ∧ AllSteps C s' as

/-- `P` holds in every state the run visits, the first one included. -/
def AllStates (P : S → Prop) : S → List A → Prop
  | s, [] => P s
  | s, a :: as => P s ∧ ∀ s', step s a = some s' → AllStates P s' as

/-- The first step of a run, peeled off. -/
theorem run_cons {s s' : S} {a : A} {as : List A} :
    run step s (a :: as) = some s' ↔ ∃ m, step s a = some m ∧ run step m as = some s' := by
  rw [run, Option.bind_eq_some_iff]

/-- **The renaming rule.**  A map of states and actions that commutes with every step commutes
    with every run. -/
theorem run_map {S' A' : Type} (step' : S' → A' → Option S') {f : S → S'} {g : A → A'}
    (hstep : ∀ s a, step' (f s) (g a) = (step s a).map f) (as : List A) :
    ∀ s, run step' (f s) (as.map g) = (run step s as).map f := by
  induction as with
  | nil => exact fun s => rfl
  | cons a as ih =>
    intro s
    rw [List.map_cons, run, run, hstep]
    rcases step s a with _ | m
    · rfl
    · exact ih m

/-- **The invariant rule under a step condition.**  If every step that meets `C` preserves `I`,
    then `I` holds at the end of every run all of whose steps meet `C`. -/
theorem run_invariant_of {I : S → Prop} {C : S → A → Prop}
    (hstep : ∀ s a s', I s → C s a → step s a = some s' → I s') :
    ∀ (as : List A) (s s' : S), I s → AllSteps step C s as → run step s as = some s' → I s' := by
  intro as
  induction as with
  | nil =>
    intro s s' hI _ hrun
    cases hrun
    exact hI
  | cons a as ih =>
    intro s s' hI hC hrun
    obtain ⟨m, hm, hrest⟩ := (run_cons step).mp hrun
    obtain ⟨hCa, hCs⟩ := hC m hm
    exact ih m s' (hstep s a m hI hCa hm) hCs hrest

/-- The trivial condition is met by every run. -/
theorem allSteps_true (s : S) (as : List A) : AllSteps step (fun _ _ => True) s as := by
  induction as generalizing s with
  | nil => exact trivial
  | cons a as ih => exact fun s' _ => ⟨trivial, ih s'⟩

/-- A condition on the action alone is met by every run of actions that meet it. -/
theorem allSteps_of_forall {C : S → A → Prop} {as : List A} (h : ∀ a ∈ as, ∀ s, C s a) (s : S) :
    AllSteps step C s as := by
  induction as generalizing s with
  | nil => exact trivial
  | cons a as ih =>
    intro s' _
    exact ⟨h a List.mem_cons_self s, ih (fun b hb => h b (List.mem_cons_of_mem a hb)) s'⟩

/-- **The invariant rule.** -/
theorem run_invariant {I : S → Prop} (hstep : ∀ s a s', I s → step s a = some s' → I s')
    {as : List A} {s s' : S} (hI : I s) (hrun : run step s as = some s') : I s' :=
  run_invariant_of step (C := fun _ _ => True) (fun s a s' h _ => hstep s a s' h) as s s' hI
    (allSteps_true step s as) hrun

/-- What an invariant implies is met by every run from it. -/
theorem allSteps_of_invariant {I : S → Prop} {C : S → A → Prop}
    (hstep : ∀ s a s', I s → step s a = some s' → I s') (hC : ∀ s a, I s → C s a) (as : List A) :
    ∀ {s : S}, I s → AllSteps step C s as := by
  induction as with
  | nil => exact fun _ => trivial
  | cons a as ih => exact fun hI s' hs => ⟨hC _ a hI, ih (hstep _ a s' hI hs)⟩

/-- What an invariant of the steps that meet `C` implies together with `C` is met by every run
    whose steps meet `C`. -/
theorem AllSteps.of_invariant {I : S → Prop} {C D : S → A → Prop}
    (hstep : ∀ s a s', I s → C s a → step s a = some s' → I s')
    (hD : ∀ s a, I s → C s a → D s a) (as : List A) :
    ∀ {s : S}, I s → AllSteps step C s as → AllSteps step D s as := by
  induction as with
  | nil => exact fun _ _ => trivial
  | cons a as ih =>
    intro s hI hC s' hs
    obtain ⟨hCa, hCs⟩ := hC s' hs
    exact ⟨hD s a hI hCa, ih (hstep s a s' hI hCa hs) hCs⟩

/-- Conditions that are the same under an invariant are met by the same runs. -/
theorem allSteps_congr {I : S → Prop} {C D : S → A → Prop}
    (hstep : ∀ s a s', I s → step s a = some s' → I s') (hCD : ∀ s a, I s → (C s a ↔ D s a))
    (as : List A) : ∀ {s : S}, I s → (AllSteps step C s as ↔ AllSteps step D s as) := by
  induction as with
  | nil => exact fun _ => Iff.rfl
  | cons a as ih =>
    intro s hI
    refine forall_congr' fun s' => imp_congr_right fun hs => ?_
    exact and_congr (hCD s a hI) (ih (hstep s a s' hI hs))

/-- Conditions met throughout a run are met together. -/
theorem AllSteps.and {C D : S → A → Prop} {s : S} {as : List A} (hC : AllSteps step C s as)
    (hD : AllSteps step D s as) : AllSteps step (fun s a => C s a ∧ D s a) s as := by
  induction as generalizing s with
  | nil => exact trivial
  | cons a as ih =>
    exact fun s' hs => ⟨⟨(hC s' hs).1, (hD s' hs).1⟩, ih (hC s' hs).2 (hD s' hs).2⟩

/-- One step more. -/
theorem run_concat {s s' : S} {as : List A} {a : A} :
    run step s (as ++ [a]) = some s' ↔ ∃ m, run step s as = some m ∧ step m a = some s' := by
  induction as generalizing s with
  | nil =>
    rw [List.nil_append, run_cons]
    constructor
    · rintro ⟨m, hm, hrun⟩
      cases hrun
      exact ⟨s, rfl, hm⟩
    · rintro ⟨m, hrun, hm⟩
      cases hrun
      exact ⟨s', hm, rfl⟩
  | cons b as ih =>
    rw [List.cons_append, run_cons]
    constructor
    · rintro ⟨m, hm, hrun⟩
      obtain ⟨m', hrest, hlast⟩ := ih.mp hrun
      exact ⟨m', (run_cons step).mpr ⟨m, hm, hrest⟩, hlast⟩
    · rintro ⟨m', hrun, hlast⟩
      obtain ⟨m, hm, hrest⟩ := (run_cons step).mp hrun
      exact ⟨m, hm, ih.mpr ⟨m', hrest, hlast⟩⟩

/-- **Induction on the run**: what holds of the empty run, and is handed from a run to the run one
    step longer, holds of every run. -/
theorem run_history {s₀ : S} {I : List A → S → Prop} (hnil : I [] s₀)
    (hstep : ∀ as s a s', run step s₀ as = some s → I as s → step s a = some s' →
      I (as ++ [a]) s') (as : List A) : ∀ s, run step s₀ as = some s → I as s := by
  induction as using List.reverseRecOn with
  | nil =>
    intro s hrun
    cases hrun
    exact hnil
  | append_singleton as a ih =>
    intro s hrun
    obtain ⟨m, hm, hlast⟩ := (run_concat step).mp hrun
    exact hstep as m a s hm (ih m hm) hlast

section Yields

variable {B : Type} (f : S → A → List B)

/-- What the steps of a run yield, one after another. -/
def yields : S → List A → List B
  | _, [] => []
  | s, a :: as =>
    match step s a with
    | none => []
    | some s' => f s a ++ yields s' as

theorem yields_cons {s s' : S} {a : A} {as : List A} (h : step s a = some s') :
    yields step f s (a :: as) = f s a ++ yields step f s' as := by
  rw [yields, h]

theorem yields_concat {m s' : S} {a : A} (h : step m a = some s') : ∀ {as : List A} {s : S},
    run step s as = some m → yields step f s (as ++ [a]) = yields step f s as ++ f m a := by
  intro as
  induction as with
  | nil =>
    intro s hrun
    cases hrun
    exact (yields_cons step f h).trans (List.append_nil _)
  | cons b as ih =>
    intro s hrun
    obtain ⟨t, ht, hrest⟩ := (run_cons step).mp hrun
    rw [List.cons_append, yields_cons step f ht, yields_cons step f ht, ih hrest, List.append_assoc]

/-- What a run yields, and then the run that goes on from its end. -/
theorem yields_append {as bs : List A} {m : S} : ∀ {s : S}, run step s as = some m →
    yields step f s (as ++ bs) = yields step f s as ++ yields step f m bs := by
  induction as with
  | nil =>
    intro s hrun
    cases hrun
    rfl
  | cons a as ih =>
    intro s hrun
    obtain ⟨t, ht, hrest⟩ := (run_cons step).mp hrun
    rw [List.cons_append, yields_cons step f ht, yields_cons step f ht, ih hrest, List.append_assoc]

/-- Steps none of which yields anything yield nothing together. -/
theorem yields_eq_nil {as : List A} : ∀ {s : S}, AllSteps step (fun s a => f s a = []) s as →
    yields step f s as = [] := by
  induction as with
  | nil => exact fun _ => rfl
  | cons a as ih =>
    intro s h
    rcases hs : step s a with _ | m
    · rw [yields, hs]
    · obtain ⟨hnone, hrest⟩ := h m hs
      rw [yields_cons step f hs, hnone, ih hrest]
      rfl

/-- **The invariant rule with a history**: what every step that meets `C` keeps of the state and
    what has been yielded so far, every run whose steps meet `C` keeps. -/
theorem run_yields {I : S → List B → Prop} {C : S → A → Prop}
    (hstep : ∀ s a s' bs, I s bs → C s a → step s a = some s' → I s' (bs ++ f s a)) :
    ∀ (as : List A) (s s' : S) (bs : List B), I s bs → AllSteps step C s as →
      run step s as = some s' → I s' (bs ++ yields step f s as) := by
  intro as
  induction as with
  | nil =>
    intro s s' bs hI _ hrun
    cases hrun
    rw [yields, List.append_nil]
    exact hI
  | cons a as ih =>
    intro s s' bs hI hC hrun
    obtain ⟨m, hm, hrest⟩ := (run_cons step).mp hrun
    obtain ⟨hCa, hCs⟩ := hC m hm
    have hend := ih m s' (bs ++ f s a) (hstep s a m bs hI hCa hm) hCs hrest
    rw [List.append_assoc] at hend
    rw [yields_cons step f hm]
    exact hend

end Yields

/-- A condition met throughout a run is met throughout its beginning. -/
theorem AllSteps.of_append {C : S → A → Prop} {before after : List A} :
    ∀ {s : S}, AllSteps step C s (before ++ after) → AllSteps step C s before := by
  induction before with
  | nil => exact fun _ => trivial
  | cons a before ih => exact fun h s' hs => ⟨(h s' hs).1, ih (h s' hs).2⟩

/-- A condition met throughout a run implies any weaker one. -/
theorem AllSteps.mono {C D : S → A → Prop} {s : S} {as : List A} (h : AllSteps step C s as)
    (hCD : ∀ s a, C s a → D s a) : AllSteps step D s as := by
  induction as generalizing s with
  | nil => exact trivial
  | cons a as ih => exact fun s' hs => ⟨hCD s a (h s' hs).1, ih (h s' hs).2⟩

/-- A run whose steps meet a condition goes on with another one. -/
theorem AllSteps.append {C : S → A → Prop} {before after : List A} {m : S} :
    ∀ {s : S}, AllSteps step C s before → run step s before = some m → AllSteps step C m after →
      AllSteps step C s (before ++ after) := by
  induction before with
  | nil =>
    intro s _ hrun hafter
    cases hrun
    exact hafter
  | cons a before ih =>
    intro s hbefore hrun hafter s' hs
    obtain ⟨t, ht, hrest⟩ := (run_cons step).mp hrun
    rw [hs, Option.some.injEq] at ht
    subst ht
    exact ⟨(hbefore s' hs).1, ih (hbefore s' hs).2 hrest hafter⟩

/-- Two runs, one after the other. -/
theorem run_append {before after : List A} {m : S} :
    ∀ {s : S}, run step s before = some m → run step s (before ++ after) = run step m after := by
  induction before with
  | nil =>
    intro s hrun
    cases hrun
    rfl
  | cons a before ih =>
    intro s hrun
    obtain ⟨t, ht, hrest⟩ := (run_cons step).mp hrun
    rw [List.cons_append, run, ht, Option.bind_some, ih hrest]

/-- **The progress rule.**  If, wherever `I` holds and `P` does not, some step that meets `C` keeps
    `I` and lowers the measure, then a run of such steps leads from `I` to `P`, and it is no longer
    than the measure says. -/
theorem exists_run_of_measure {I P : S → Prop} {C : S → A → Prop} (μ : S → Nat)
    (hstep : ∀ s, I s → ¬ P s → ∃ a s', C s a ∧ step s a = some s' ∧ I s' ∧ μ s' < μ s) :
    ∀ (k : Nat) (s : S), μ s ≤ k → I s → ∃ as s', AllSteps step C s as ∧
      run step s as = some s' ∧ P s' ∧ as.length ≤ k := by
  intro k
  induction k with
  | zero =>
    intro s hk hI
    by_cases hP : P s
    · exact ⟨[], s, trivial, rfl, hP, Nat.le_refl 0⟩
    · obtain ⟨_, _, -, -, -, hlt⟩ := hstep s hI hP
      omega
  | succ k ih =>
    intro s hk hI
    by_cases hP : P s
    · exact ⟨[], s, trivial, rfl, hP, Nat.zero_le _⟩
    · obtain ⟨a, m, hC, hm, hIm, hlt⟩ := hstep s hI hP
      obtain ⟨as, s', hall, hrun, hend, hlength⟩ := ih m (by omega) hIm
      refine ⟨a :: as, s', fun t ht => ?_, (run_cons step).mpr ⟨m, hm, hrun⟩, hend,
        Nat.succ_le_succ hlength⟩
      rw [hm, Option.some.injEq] at ht
      subst ht
      exact ⟨hC, hall⟩

/-- A decidable condition is decided along a run by running it. -/
instance decidableAllSteps {C : S → A → Prop} [∀ s a, Decidable (C s a)] :
    ∀ (s : S) (as : List A), Decidable (AllSteps step C s as)
  | _, [] => isTrue trivial
  | s, a :: as =>
    match hs : step s a with
    | none => isTrue fun s' h => by rw [hs] at h; cases h
    | some m =>
      have : Decidable (AllSteps step C m as) := decidableAllSteps m as
      decidable_of_iff (C s a ∧ AllSteps step C m as) (by
        constructor
        · intro h s' hs'
          rw [hs, Option.some.injEq] at hs'
          rwa [← hs']
        · exact fun h => h m hs)

/-- **Exact side condition.**  If, on steps that meet `D`, `C` is exactly what a step needs to
    preserve `P`, then a run whose steps all meet `D` keeps `P` throughout if and only if every
    step of it meets `C`. -/
theorem allStates_iff_allSteps {P : S → Prop} {C D : S → A → Prop}
    (hstep : ∀ s a s', P s → D s a → step s a = some s' → (P s' ↔ C s a)) :
    ∀ (as : List A) (s : S), P s → AllSteps step D s as →
      (AllStates step P s as ↔ AllSteps step C s as) := by
  intro as
  induction as with
  | nil => exact fun s hP _ => ⟨fun _ => trivial, fun _ => hP⟩
  | cons a as ih =>
    intro s hP hD
    constructor
    · rintro ⟨-, hall⟩ s' hs
      -- every list of states starts with the state itself
      have hP' : P s' := by
        have h := hall s' hs
        cases as with
        | nil => exact h
        | cons b bs => exact h.1
      obtain ⟨hDa, hDs⟩ := hD s' hs
      exact ⟨(hstep s a s' hP hDa hs).mp hP', (ih s' hP' hDs).mp (hall s' hs)⟩
    · intro hall
      refine ⟨hP, fun s' hs => ?_⟩
      obtain ⟨hCa, hCs⟩ := hall s' hs
      obtain ⟨hDa, hDs⟩ := hD s' hs
      exact (ih s' ((hstep s a s' hP hDa hs).mpr hCa) hDs).mpr hCs

end Transition
