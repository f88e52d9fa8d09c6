/-
  Which messages become rows, by position.

  `rows_sublist_received` compares messages by value, and a bus may carry the same message twice:
  inserting one of the two twice would not show.  Here a row is traced to the POSITION of the
  message in what the receiver was given.

  The saver never looks into a transaction (`step_map`), so a run can be replayed with messages
  that carry their own number (`numberFrom`), and the numbers of the rows inserted there are the
  positions of the rows in the run itself, and in every run that receives other messages in their
  place (`rows_by_position`).
-/
import Mathlib.Data.List.Forall2
import RinhaBackend.SaveInBackground

namespace Rinha

namespace SaveInBackground

/-! ## The saver does not look into a transaction -/

section Renaming

variable (f : Transaction → Transaction)

def Phase.map : Phase → Phase
  | .draining transactionsToSave => .draining (transactionsToSave.map (Option.map f))
  | .executing transactionsToSave => .executing (transactionsToSave.map (Option.map f))
  | phase => phase

def Saver.map (s : Saver) : Saver := ⟨s.queue.map (Option.map f), s.channel, s.phase.map f⟩

/-- The state with every transaction in it replaced by its image. -/
def State.map (s : State) : State :=
  ⟨s.saver.map f, s.rows.map f, s.received.map (Option.map f)⟩

/-- The event with the transaction of its message replaced. -/
def Event.map : Event → Event
  | .enqueue m => .enqueue (Option.map f m)
  | e => e

theorem commands_map (ms : List Message) :
    commands (ms.map (Option.map f)) = (commands ms).map (List.map f) := by
  induction ms with
  | nil => rfl
  | cons m ms ih =>
    rcases m with _ | t
    · rfl
    · rw [List.map_cons, Option.map_some, commands, commands, ih, Option.map_map, Option.map_map]
      rfl

theorem Saver.step_map (s : Saver) (elapsed batchOk : Bool) :
    (s.map f).step elapsed batchOk
      = (s.step elapsed batchOk).map fun r => (r.1.map f, r.2.map f) := by
  obtain ⟨queue, channel, phase⟩ := s
  cases phase with
  | polling => cases queue <;> rfl
  | tryingRead => cases channel <;> rfl
  | checking =>
    simp only [Saver.step, Saver.map, Phase.map, List.length_map, Option.map_some, List.map_nil]
    split <;> rfl
  | sending => cases queue <;> rfl
  | draining hand =>
    cases queue with
    | nil => rfl
    | cons m queue => simp [Saver.step, Saver.map, Phase.map]
  | executing hand =>
    rw [Saver.step, Saver.step]
    dsimp only [Saver.map, Phase.map]
    rw [commands_map]
    rcases commands hand with _ | rows
    · rfl
    · cases batchOk <;> rfl
  | clearing => rfl
  | exited => rfl

theorem Saver.enqueue_map (s : Saver) (m : Message) :
    (s.map f).enqueue (Option.map f m) = (s.enqueue m).map (Saver.map f) := by
  obtain ⟨queue, channel, phase⟩ := s
  cases phase with
  | draining hand => rfl
  | _ => simp [Saver.enqueue, Saver.map, Phase.map]

theorem Saver.stop_map (s : Saver) : (s.map f).stop = s.stop.map (Saver.map f) := by
  obtain ⟨queue, channel, phase⟩ := s
  cases phase <;> rfl

/-- **One event on other transactions** does the same to the others. -/
theorem step_map (s : State) (e : Event) :
    step (s.map f) (e.map f) = (step s e).map (State.map f) := by
  cases e with
  | enqueue m =>
    rw [Event.map, step, step, State.map, Saver.enqueue_map, Option.map_map, Option.map_map]
    refine congrArg (Option.map · _) (funext fun saver => ?_)
    dsimp only [Function.comp_apply, State.map]
    rw [List.map_append, List.map_singleton]
  | wake => rfl
  | saver elapsed batchOk =>
    rw [Event.map, step, step, State.map, Saver.step_map, Option.map_map, Option.map_map]
    · refine congrArg (Option.map · _) (funext fun r => ?_)
      dsimp only [Function.comp_apply, State.map]
      rw [List.map_append]
    · intro m hm
      cases hm
  | stop =>
    rw [Event.map, step, step, State.map, Saver.stop_map, Option.map_map, Option.map_map]
    · rfl
    · intro m hm
      cases hm

end Renaming

/-! ## Numbered messages -/

/-- The messages the receiver is given, in order. -/
def enqueued : List Event → List Message
  | [] => []
  | .enqueue m :: events => m :: enqueued events
  | _ :: events => enqueued events

/-- A transaction that carries the number `n`. -/
def numbered (n : Nat) : Transaction :=
  ⟨0, 'c', some (List.replicate n 'x'), 0, 0, 0, .ofTicks 0 .localTime⟩

/-- The number a transaction carries. -/
def number (t : Transaction) : Nat := (t.descricao.getD []).length

/-- The same events with the transactions numbered from `n`; a null message stays null. -/
def numberFrom : Nat → List Event → List Event
  | _, [] => []
  | n, .enqueue m :: events => .enqueue (m.map fun _ => numbered n) :: numberFrom (n + 1) events
  | n, e :: events => e :: numberFrom n events

theorem number_numbered (n : Nat) : number (numbered n) = n := List.length_replicate

theorem received_step {s s' : State} {e : Event} (h : step s e = some s') :
    s'.received = s.received ++ enqueued [e] := by
  cases e with
  | enqueue m =>
    obtain ⟨saver, -, rfl⟩ := Option.map_eq_some_iff.mp h
    rfl
  | wake =>
    cases h
    exact (List.append_nil _).symm
  | stop =>
    obtain ⟨saver, -, rfl⟩ := Option.map_eq_some_iff.mp h
    exact (List.append_nil _).symm
  | saver elapsed batchOk =>
    obtain ⟨r, -, rfl⟩ := Option.map_eq_some_iff.mp h
    exact (List.append_nil _).symm

theorem enqueued_cons (e : Event) (events : List Event) :
    enqueued (e :: events) = enqueued [e] ++ enqueued events := by
  cases e <;> rfl

theorem received_run (events : List Event) : ∀ {s s' : State},
    Transition.run step s events = some s' → s'.received = s.received ++ enqueued events := by
  induction events with
  | nil =>
    intro s s' hrun
    cases hrun
    exact (List.append_nil _).symm
  | cons e events ih =>
    intro s s' hrun
    obtain ⟨m, hm, hrest⟩ := (Transition.run_cons step).mp hrun
    rw [ih hrest, received_step hm, enqueued_cons e events, List.append_assoc]

/-- The number is the position. -/
theorem number_of_enqueued (events : List Event) : ∀ {n i : Nat} {t : Transaction},
    (enqueued (numberFrom n events))[i]? = some (some t) → number t = n + i := by
  induction events with
  | nil => exact fun h => nomatch h
  | cons e events ih =>
    intro n i t h
    cases e with
    | enqueue m =>
      cases i with
      | zero =>
        obtain ⟨u, -, rfl⟩ := Option.map_eq_some_iff.mp (Option.some.inj h)
        exact number_numbered n
      | succ i =>
        rw [ih (n := n + 1) (i := i) h]
        omega
    | _ => exact ih h

/-- Any events are their numbered ones with the transactions put back. -/
theorem map_numberFrom (events : List Event) (f : Transaction → Transaction) : ∀ {n : Nat},
    (∀ i t, (enqueued events)[i]? = some (some t) → f (numbered (n + i)) = t) →
    (numberFrom n events).map (Event.map f) = events := by
  induction events with
  | nil => exact fun _ => rfl
  | cons e events ih =>
    intro n hf
    cases e with
    | enqueue m =>
      have hrest : (numberFrom (n + 1) events).map (Event.map f) = events := by
        refine ih fun i t h => ?_
        rw [Nat.add_right_comm]
        exact hf (i + 1) t h
      have hfirst : Option.map f (m.map fun _ => numbered n) = m := by
        rcases m with _ | t
        · rfl
        · exact congrArg some (hf 0 t rfl)
      rw [numberFrom, List.map_cons, hrest, Event.map, hfirst]
    | _ => exact congrArg (_ :: ·) (ih hf)

theorem exists_map_numberFrom (events : List Event) :
    ∃ f, (numberFrom 0 events).map (Event.map f) = events := by
  refine ⟨fun t => ((enqueued events)[number t]?.join).getD t, map_numberFrom events _ ?_⟩
  intro i t h
  rw [number_numbered, Nat.zero_add, h]
  rfl

/-! ## Positions -/

/-- Two events that differ at most in the transaction of a message. -/
inductive SameShape : Event → Event → Prop where
  | enqueue (m m' : Message) (h : m.isSome = m'.isSome) : SameShape (.enqueue m) (.enqueue m')
  | refl (e : Event) : SameShape e e

/-- The rows inserted are the messages received at `positions`. -/
def RowsAt (positions : List Nat) (s : State) : Prop :=
  positions.map (fun i => s.received[i]?) = s.rows.map fun t => some (some t)

theorem numberFrom_congr {events events' : List Event}
    (h : List.Forall₂ SameShape events events') :
    ∀ n, numberFrom n events' = numberFrom n events := by
  induction h with
  | nil => exact fun n => rfl
  | @cons e e' events events' hshape _ ih =>
    intro n
    cases hshape with
    | enqueue m m' hnull =>
      rw [numberFrom, numberFrom, ih]
      rcases m with _ | t <;> rcases m' with _ | t' <;> first | rfl | cases hnull
    | refl => cases e <;> exact congrArg (_ :: ·) (ih _)

section Numbered

variable {events : List Event} {s : State}
  (hrun : Transition.run step initial (numberFrom 0 events) = some s)

include hrun

theorem received_numbered {i : Nat} {t : Transaction} (h : s.received[i]? = some (some t)) :
    number t = i := by
  rw [received_run _ hrun] at h
  exact (number_of_enqueued events h).trans (Nat.zero_add i)

/-- The numbers of the rows are increasing: the rows are received in this order. -/
theorem pairwise_number : (s.rows.map number).Pairwise (· < ·) := by
  have hreceived : s.received.Pairwise fun a b => ∀ t u, a = some t → b = some u →
      number t < number u := by
    refine List.pairwise_iff_getElem.mpr fun i j hi hj hij t u ht hu => ?_
    rw [received_numbered hrun (List.getElem?_eq_some_iff.mpr ⟨hi, ht⟩),
      received_numbered hrun (List.getElem?_eq_some_iff.mpr ⟨hj, hu⟩)]
    exact hij
  have hrows := hreceived.sublist (rows_sublist_received hrun)
  rw [List.pairwise_map] at hrows ⊢
  exact hrows.imp fun h => h _ _ rfl rfl

/-- They are the positions of the rows, whatever is put in the place of the numbers. -/
theorem rowsAt_number (f : Transaction → Transaction) :
    RowsAt (s.rows.map number) (s.map f) := by
  rw [RowsAt, State.map, List.map_map, List.map_map]
  refine List.map_congr_left fun t ht => ?_
  have hmem : some t ∈ s.received :=
    (rows_sublist_received hrun).subset (List.mem_map_of_mem ht)
  obtain ⟨i, hi⟩ := List.mem_iff_getElem?.mp hmem
  dsimp only [Function.comp_apply]
  rw [received_numbered hrun hi, List.getElem?_map, hi]
  rfl

end Numbered

/-- **Every message is inserted at most once, and in order of receipt, by position.**  At the end
    of every run, at every moment of a run therefore, the rows inserted are the messages received
    at some strictly increasing positions; and those positions do not depend on what the messages
    are: a run that receives other messages in the same places inserts those of the same
    positions, so that equal messages are told apart. -/
theorem rows_by_position (events : List Event) (s : State)
    (hrun : Transition.run step initial events = some s) :
    ∃ positions : List Nat, positions.Pairwise (· < ·) ∧ RowsAt positions s ∧
      ∀ events', List.Forall₂ SameShape events events' →
        ∃ s', Transition.run step initial events' = some s' ∧ RowsAt positions s' := by
  have hreplay : ∀ f as, Transition.run step initial (as.map (Event.map f))
      = (Transition.run step initial as).map (State.map f) :=
    fun f as => Transition.run_map step step (step_map f) as initial
  obtain ⟨f, hf⟩ := exists_map_numberFrom events
  have hnumbered := hreplay f (numberFrom 0 events)
  rw [hf, hrun] at hnumbered
  obtain ⟨s₀, hs₀, rfl⟩ := Option.map_eq_some_iff.mp hnumbered.symm
  refine ⟨s₀.rows.map number, pairwise_number hs₀, rowsAt_number hs₀ f, fun events' hshape => ?_⟩
  obtain ⟨f', hf'⟩ := exists_map_numberFrom events'
  refine ⟨s₀.map f', ?_, rowsAt_number hs₀ f'⟩
  rw [← hf', hreplay, numberFrom_congr hshape, hs₀, Option.map_some]

/-- A message that arrives twice, the second time while the batch of the first runs. -/
theorem rows_by_position_twice :
    ∃ s positions, Transition.run step initial
        (oneBatch ++ [.enqueue (some (credited 1)), .saver true true]) = some s ∧
      positions.Pairwise (· < ·) ∧ RowsAt positions s := by
  obtain ⟨s, hrun⟩ : ∃ s, Transition.run step initial
      (oneBatch ++ [.enqueue (some (credited 1)), .saver true true]) = some s := ⟨_, rfl⟩
  obtain ⟨positions, hincreasing, hrows, -⟩ := rows_by_position _ s hrun
  exact ⟨s, positions, hrun, hincreasing, hrows⟩

end SaveInBackground

end Rinha
