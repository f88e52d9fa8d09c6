/-
  What becomes of the messages a saver receives.

  `nothing_lost_iff` says which runs lose nothing.  This file accounts for ALL runs, with batches
  that fail, null messages and a stop at any moment: what has been received is, in order, what the
  saver is done with and what is still pending, and what it is done with is an interleaving of the
  rows it has inserted and the messages it has lost (`messages_are_accounted_for`).  It loses
  messages in two places and no others (`lostBy`): a failed batch takes what it had drained, and the
  `Clear` after a batch takes what is in the queue; and that is exactly what was received since
  the drain of that batch ended (`clear_takes_what_arrived`).

  A saver that has left its loop inserts nothing any more, so a stop loses what is pending
  (`exited_is_final`).
-/
import RinhaBackend.SaveInBackground

namespace Rinha

namespace SaverFates

open SaveInBackground

/-- The messages an event loses: those of a batch that fails, and those a `Clear` finds. -/
def lostBy (s : State) (e : Event) : List Message :=
  match e, s.saver.phase with
  | .saver _ _, .executing hand => if batchSucceeds s e then [] else hand
  | .saver _ _, .clearing => s.saver.queue
  | _, _ => []

theorem lostBy_executing {s : State} {hand : List Message} (h : s.saver.phase = .executing hand)
    (elapsed batchOk : Bool) : lostBy s (.saver elapsed batchOk)
      = if batchSucceeds s (.saver elapsed batchOk) then [] else hand := by
  simp only [lostBy, h]

theorem lostBy_clearing {s : State} (h : s.saver.phase = .clearing) (elapsed batchOk : Bool) :
    lostBy s (.saver elapsed batchOk) = s.saver.queue := by
  simp only [lostBy, h]

/-- Nothing else loses a message. -/
theorem lostBy_of_ne {s : State} (e : Event) (hclear : s.saver.phase ≠ .clearing)
    (hexec : ∀ hand, s.saver.phase ≠ .executing hand) : lostBy s e = [] := by
  unfold lostBy
  split
  · next hand h => exact absurd h (hexec hand)
  · next h => exact absurd h hclear
  · rfl

/-- `settled` is a shuffle of `kept` and `lost`: each entry of it is the next of the one or the next
    of the other. -/
inductive Interleaves {α : Type} : List α → List α → List α → Prop where
  | nil : Interleaves [] [] []
  | kept (a : α) {settled kept lost : List α} (h : Interleaves settled kept lost) :
      Interleaves (a :: settled) (a :: kept) lost
  | lost (a : α) {settled kept lost : List α} (h : Interleaves settled kept lost) :
      Interleaves (a :: settled) kept (a :: lost)

namespace Interleaves

variable {α : Type} {settled kept lost : List α}

theorem of_kept (l : List α) : Interleaves l l [] := by
  induction l with
  | nil => exact .nil
  | cons a l ih => exact .kept a ih

theorem of_lost (l : List α) : Interleaves l [] l := by
  induction l with
  | nil => exact .nil
  | cons a l ih => exact .lost a ih

theorem append_kept (h : Interleaves settled kept lost) (l : List α) :
    Interleaves (settled ++ l) (kept ++ l) lost := by
  induction h with
  | nil => exact of_kept l
  | kept a h ih => exact .kept a ih
  | lost a h ih => exact .lost a ih

theorem append_lost (h : Interleaves settled kept lost) (l : List α) :
    Interleaves (settled ++ l) kept (lost ++ l) := by
  induction h with
  | nil => exact of_lost l
  | kept a h ih => exact .kept a ih
  | lost a h ih => exact .lost a ih

end Interleaves

/-! ## Every message is accounted for -/

/-- What has been received is what the saver is done with, and what is pending. -/
def Accounted (s : State) (lost : List Message) : Prop :=
  ∃ settled, s.received = settled ++ s.saver.pending ∧
    Interleaves settled (s.rows.map some) lost

theorem accounted_step {s s' : State} {e : Event} {lost : List Message} (hI : Accounted s lost)
    (h : step s e = some s') : Accounted s' (lost ++ lostBy s e) := by
  obtain ⟨settled, hreceived, hsettled⟩ := hI
  cases e with
  | enqueue m =>
    obtain ⟨saver, hsaver, rfl⟩ := Option.map_eq_some_iff.mp h
    refine ⟨settled, ?_, by rwa [show lostBy s (.enqueue m) = [] from rfl, List.append_nil]⟩
    dsimp only
    rw [hreceived, (pending_enqueue hsaver).1, List.append_assoc]
  | wake =>
    cases h
    exact ⟨settled, hreceived, by rwa [show lostBy s .wake = [] from rfl, List.append_nil]⟩
  | stop =>
    obtain ⟨saver, hsaver, rfl⟩ := Option.map_eq_some_iff.mp h
    refine ⟨settled, ?_, by rwa [show lostBy s .stop = [] from rfl, List.append_nil]⟩
    dsimp only
    rw [hreceived, pending_stop hsaver]
  | saver elapsed batchOk =>
    obtain ⟨⟨saver, rows⟩, hsaver, rfl⟩ := Option.map_eq_some_iff.mp h
    cases Saver.step_moves hsaver with
    | quiet _ hpending hphase hnot =>
      refine ⟨settled, ?_, ?_⟩
      · dsimp only
        rw [hreceived, hpending]
      · rwa [lostBy_of_ne _ hphase hnot, List.append_nil, List.append_nil]
    | insert _ hphase hok =>
      -- the batch in hand becomes the last rows
      have hsucceeds : batchSucceeds s (.saver elapsed batchOk) = true := by
        rw [batchSucceeds_executing hphase]
        refine decide_eq_true ⟨hok, fun hmem => ?_⟩
        obtain ⟨t, -, ht⟩ := List.mem_map.mp hmem
        cases ht
      refine ⟨settled ++ rows.map some, ?_, ?_⟩
      · dsimp only
        rw [hreceived, Saver.pending, inHand_of_executing hphase, List.append_assoc]
        rfl
      · rw [lostBy_executing hphase, if_pos hsucceeds, List.append_nil, List.map_append]
        exact hsettled.append_kept _
    | fail hand hphase hfail =>
      -- the batch in hand is lost
      have hfails : ¬ batchSucceeds s (.saver elapsed batchOk) = true := by
        rw [batchSucceeds_executing hphase]
        intro hc
        obtain ⟨hbatch, hnull⟩ := of_decide_eq_true hc
        rcases hfail with hfail | hfail
        · rw [hbatch] at hfail
          cases hfail
        · exact hnull hfail
      refine ⟨settled ++ hand, ?_, ?_⟩
      · dsimp only
        rw [hreceived, Saver.pending, inHand_of_executing hphase, List.append_assoc]
        rfl
      · rw [lostBy_executing hphase, if_neg hfails, List.append_nil]
        exact hsettled.append_lost hand
    | clear hphase =>
      -- nothing is in hand, and the queue is lost
      refine ⟨settled ++ s.saver.queue, ?_, ?_⟩
      · dsimp only
        rw [hreceived, Saver.pending, inHand_of_clearing hphase, List.nil_append]
        exact (List.append_nil _).symm
      · rw [lostBy_clearing hphase, List.append_nil]
        exact hsettled.append_lost _

/-- **Every message is accounted for.**  Whatever the order of events, whether batches succeed or
    fail, and whenever the saver is stopped: the messages received are, in order, those the saver is
    done with and those pending, and those it is done with are the rows it has inserted and the
    messages the events of the run have lost, each once and in the order of receipt. -/
theorem messages_are_accounted_for (events : List Event) (s : State)
    (hrun : Transition.run step initial events = some s) :
    ∃ settled, s.received = settled ++ s.saver.pending ∧
      Interleaves settled (s.rows.map some) (Transition.yields step lostBy initial events) := by
  have hstart : Accounted initial [] := ⟨[], rfl, .nil⟩
  have hend := Transition.run_yields step lostBy (C := fun _ _ => True)
    (fun _ _ _ _ hI _ h => accounted_step hI h) events initial s [] hstart
    (Transition.allSteps_true step initial events) hrun
  rwa [List.nil_append] at hend

/-- A batch that fails, with a message waiting, and one that succeeds. -/
def failThenSucceed : List Event :=
  oneBatch ++ [.enqueue (some (credited 2)), .saver true false]
    ++ List.replicate 5 (.saver true true) ++ [.enqueue (some (credited 3)), .saver true true]

theorem messages_are_accounted_for_failThenSucceed : ∃ s,
    Transition.run step initial failThenSucceed = some s ∧ s.rows = [credited 2] ∧
      ∃ settled, s.received = settled ++ [some (credited 3)] ∧
        Interleaves settled [some (credited 2)] [some (credited 1)] := by
  obtain ⟨s, hrun, hrows, hpending⟩ : ∃ s,
      Transition.run step initial failThenSucceed = some s ∧ s.rows = [credited 2] ∧
        s.saver.pending = [some (credited 3)] := ⟨_, rfl, rfl, rfl⟩
  obtain ⟨settled, hreceived, hsettled⟩ := messages_are_accounted_for failThenSucceed s hrun
  rw [hpending] at hreceived
  rw [hrows] at hsettled
  exact ⟨s, hrun, hrows, settled, hreceived, hsettled⟩

/-! ## What a `Clear` takes -/

/-- A batch that is running, and the moment of the run at which its drain had ended. -/
def SinceDrain (events : List Event) (s : State) : Prop :=
  (∀ hand, s.saver.phase = .executing hand →
    ∃ before during m, events = before ++ during ∧ Transition.run step initial before = some m ∧
      m.saver.phase = .executing hand ∧ m.saver.queue = [] ∧ m.rows = s.rows ∧
      s.received = m.received ++ s.saver.queue) ∧
  (s.saver.phase = .clearing →
    ∃ before during m hand, events = before ++ during ∧
      Transition.run step initial before = some m ∧
      m.saver.phase = .executing hand ∧ m.saver.queue = [] ∧
      s.rows.map some = m.rows.map some ++ hand ∧ s.received = m.received ++ s.saver.queue)

/-- An event that leaves the phase and adds as much to the queue as to what is received. -/
theorem SinceDrain.of_same {events : List Event} {s s' : State} (h : SinceDrain events s)
    (e : Event) (hphase : s'.saver.phase = s.saver.phase) (hrows : s'.rows = s.rows)
    {new : List Message} (hqueue : s'.saver.queue = s.saver.queue ++ new)
    (hreceived : s'.received = s.received ++ new) : SinceDrain (events ++ [e]) s' := by
  constructor
  · intro hand hexec
    rw [hphase] at hexec
    obtain ⟨before, during, m, rfl, hm, hmphase, hempty, hmrows, hsplit⟩ := h.1 hand hexec
    refine ⟨before, during ++ [e], m, List.append_assoc .., hm, hmphase, hempty,
      hmrows.trans hrows.symm, ?_⟩
    rw [hreceived, hsplit, hqueue, List.append_assoc]
  · intro hclear
    rw [hphase] at hclear
    obtain ⟨before, during, m, hand, rfl, hm, hmphase, hempty, hmrows, hsplit⟩ := h.2 hclear
    refine ⟨before, during ++ [e], m, hand, List.append_assoc .., hm, hmphase, hempty, ?_, ?_⟩
    · rw [hrows, hmrows]
    · rw [hreceived, hsplit, hqueue, List.append_assoc]

theorem sinceDrain_step (events : List Event) (s : State) (e : Event) (s' : State)
    (hrun : Transition.run step initial events = some s) (hI : SinceDrain events s)
    (h : step s e = some s') : SinceDrain (events ++ [e]) s' := by
  have hrun' : Transition.run step initial (events ++ [e]) = some s' :=
    (Transition.run_concat step).mpr ⟨s, hrun, h⟩
  cases e with
  | enqueue m =>
    obtain ⟨saver, hsaver, rfl⟩ := Option.map_eq_some_iff.mp h
    have hphase := (pending_enqueue hsaver).2
    have hqueue : saver.queue = s.saver.queue ++ [m] := by
      rw [Saver.enqueue] at hsaver
      split at hsaver
      · cases hsaver
      · cases hsaver
        rfl
    exact hI.of_same (.enqueue m) hphase rfl hqueue rfl
  | wake =>
    cases h
    exact hI.of_same .wake rfl rfl (List.append_nil _).symm (List.append_nil _).symm
  | stop =>
    obtain ⟨saver, hsaver, rfl⟩ := Option.map_eq_some_iff.mp h
    rw [Saver.stop] at hsaver
    split at hsaver
    · cases hsaver
      exact ⟨fun _ hc => (by cases hc), fun hc => (by cases hc)⟩
    · cases hsaver
  | saver elapsed batchOk =>
    obtain ⟨⟨saver, rows⟩, hsaver, rfl⟩ := Option.map_eq_some_iff.mp h
    have hmoves := Saver.step_moves hsaver
    cases hmoves with
    | quiet _ hpending hphase hnot hclear hdrained =>
      -- if a batch is running now, its drain has just ended
      refine ⟨fun hand hexec => ?_, fun hc => absurd hc hclear⟩
      have hempty : saver.queue = [] := hdrained hand hexec
      refine ⟨events ++ [.saver elapsed batchOk], [], _, (List.append_nil _).symm, hrun', hexec,
        hempty, rfl, ?_⟩
      dsimp only
      rw [hempty, List.append_nil]
    | insert _ hphase _ =>
      refine ⟨fun _ hc => (by cases hc), fun _ => ?_⟩
      obtain ⟨before, during, m, rfl, hm, hmphase, hempty, hmrows, hsplit⟩ := hI.1 _ hphase
      refine ⟨before, during ++ [.saver elapsed batchOk], m, rows.map some,
        List.append_assoc .., hm, hmphase, hempty, ?_, hsplit⟩
      rw [List.map_append, hmrows]
    | fail _ _ _ => exact ⟨fun _ hc => (by cases hc), fun hc => (by cases hc)⟩
    | clear _ => exact ⟨fun _ hc => (by cases hc), fun hc => (by cases hc)⟩

/-- **The `Clear` after a batch takes exactly what arrived while the batch ran.**  Whenever the
    saver is about to clear the queue, there was a moment at which the drain of the batch just
    inserted had ended; and what the `Clear` loses is all that has been received since. -/
theorem clear_takes_what_arrived (events : List Event) (s : State) (elapsed batchOk : Bool)
    (hrun : Transition.run step initial events = some s) (hphase : s.saver.phase = .clearing) :
    ∃ before during m hand, events = before ++ during ∧
      Transition.run step initial before = some m ∧
      m.saver.phase = .executing hand ∧ m.saver.queue = [] ∧
      s.rows.map some = m.rows.map some ++ hand ∧
      s.received = m.received ++ lostBy s (.saver elapsed batchOk) := by
  have hstart : SinceDrain [] initial :=
    ⟨fun _ hc => (by cases hc), fun hc => (by cases hc)⟩
  have hend := Transition.run_history step hstart sinceDrain_step events s hrun
  rw [lostBy_clearing hphase]
  exact hend.2 hphase

theorem clear_takes_what_arrived_oneBatch : ∃ s m : State,
    Transition.run step initial (oneBatch ++ [.enqueue (some (credited 2)), .saver true true])
      = some s ∧ s.received = m.received ++ [some (credited 2)] ∧ m.saver.queue = [] := by
  obtain ⟨s, hrun, hphase, hqueue⟩ : ∃ s, Transition.run step initial
      (oneBatch ++ [.enqueue (some (credited 2)), .saver true true]) = some s ∧
        s.saver.phase = .clearing ∧ s.saver.queue = [some (credited 2)] := ⟨_, rfl, rfl, rfl⟩
  obtain ⟨before, during, m, hand, -, -, -, hempty, -, hreceived⟩ :=
    clear_takes_what_arrived _ s true true hrun hphase
  rw [lostBy_clearing hphase, hqueue] at hreceived
  exact ⟨s, m, hrun, hreceived, hempty⟩

/-! ## A saver that has left its loop -/

/-- Past the loop nothing is inserted, and what is received stays in the queue. -/
def Over (base s : State) : Prop :=
  s.saver.phase = .exited ∧ s.rows = base.rows ∧
    ∃ later, s.received = base.received ++ later ∧ s.saver.queue = base.saver.queue ++ later

theorem over_step {base s s' : State} {e : Event} (hI : Over base s) (h : step s e = some s') :
    Over base s' := by
  obtain ⟨hphase, hrows, later, hreceived, hqueue⟩ := hI
  cases e with
  | enqueue m =>
    obtain ⟨saver, hsaver, rfl⟩ := Option.map_eq_some_iff.mp h
    rw [Saver.enqueue, hphase] at hsaver
    cases hsaver
    refine ⟨rfl, hrows, later ++ [m], ?_, ?_⟩
    · rw [hreceived, List.append_assoc]
    · rw [hqueue, List.append_assoc]
  | wake =>
    cases h
    exact ⟨hphase, hrows, later, hreceived, hqueue⟩
  | stop =>
    obtain ⟨saver, hsaver, rfl⟩ := Option.map_eq_some_iff.mp h
    rw [Saver.stop, hphase] at hsaver
    cases hsaver
  | saver elapsed batchOk =>
    obtain ⟨r, hsaver, rfl⟩ := Option.map_eq_some_iff.mp h
    rw [Saver.step, hphase] at hsaver
    cases hsaver

/-- **A stop loses what is pending.**  The saver leaves its loop with the queue as it is; in every
    continuation it inserts no further row, and the messages it left behind, and all that are
    received later, stay in the queue. -/
theorem exited_is_final (s s' : State) (hstop : step s .stop = some s') (events : List Event)
    (s'' : State) (hrun : Transition.run step s' events = some s'') :
    s''.rows = s.rows ∧ s''.saver.phase = .exited ∧
      ∃ later, s''.received = s.received ++ later ∧
        s''.saver.pending = s.saver.pending ++ later := by
  obtain ⟨saver, hsaver, rfl⟩ := Option.map_eq_some_iff.mp hstop
  have hpending := pending_stop hsaver
  have hexited : saver.phase = .exited := by
    rw [Saver.stop] at hsaver
    split at hsaver
    · cases hsaver
      rfl
    · cases hsaver
  have hhand : ∀ {t : State}, t.saver.phase = .exited → t.saver.pending = t.saver.queue := by
    intro t ht
    rw [Saver.pending, Saver.inHand, ht]
    rfl
  obtain ⟨hphase, hrows, later, hreceived, hqueue⟩ := Transition.run_invariant step
    (fun _ _ _ => over_step) (I := Over { s with saver := saver })
    ⟨hexited, rfl, [], (List.append_nil _).symm, (List.append_nil _).symm⟩ hrun
  refine ⟨hrows, hphase, later, hreceived, ?_⟩
  have hbase : saver.pending = saver.queue := hhand (t := { s with saver := saver }) hexited
  rw [hhand hphase, hqueue, ← hpending, hbase]

theorem exited_is_final_waiting : ∃ s s' s'', Transition.run step initial
      [.enqueue (some (credited 1))] = some s ∧ step s .stop = some s' ∧
    Transition.run step s' [.enqueue (some (credited 2))] = some s'' ∧ s''.rows = [] ∧
      s''.saver.pending = [some (credited 1), some (credited 2)] := by
  obtain ⟨s, s', s'', hs, hstop, hrun, hreceived⟩ : ∃ s s' s'', Transition.run step initial
        [.enqueue (some (credited 1))] = some s ∧ step s .stop = some s' ∧
      Transition.run step s' [.enqueue (some (credited 2))] = some s'' ∧
        s''.received = s.received ++ [some (credited 2)] := ⟨_, _, _, rfl, rfl, rfl, rfl⟩
  obtain ⟨hrows, -, later, hlater, hpending⟩ := exited_is_final s s' hstop _ s'' hrun
  rw [hreceived] at hlater
  rw [List.append_cancel_left hlater.symm] at hpending
  cases hs
  exact ⟨_, s', s'', rfl, hstop, hrun, hrows, hpending⟩

end SaverFates

end Rinha
