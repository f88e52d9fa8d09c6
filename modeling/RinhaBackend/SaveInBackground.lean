/-
  `SaveInBackgroundHostedService`: the write-behind saver of one instance.

  Two threads share a queue.  The receiver enqueues every message of the bus; the saver polls,
  drains the queue under the lock, inserts what it drained as one batch, and then clears the queue
  AGAIN, this time without the lock.  The lock keeps the receiver out of the drain only, so a
  message can arrive while the batch runs, and that second `Clear` takes it.

  `Saver.step` is one step of the saver's loop; `step` lets it interleave with the receiver.
  `nothing_lost_iff` says exactly which runs lose nothing while batches succeed, and
  `failed_batch_is_dropped` what a failing batch does to the messages it had drained.
-/
import RinhaBackend.Models
import RinhaBackend.Lib.Transition

namespace Rinha

namespace SaveInBackground

/-- `msg.Data`: null when the payload of the message is. -/
abbrev Message := Option Transaction

/-- `maxQueuedMessages`. -/
def maxQueuedMessages : Nat := 100

/-- Where the saver's thread stands: in the loop of `SaveTransactionsToDatabaseAsync` (`polling`,
    `tryingRead`, `checking`), in `SendTransactionsAsync` (`sending`; `draining` with the lock
    held; `executing` the batch in hand; `clearing` after it), or past the loop. -/
inductive Phase where
  | polling | tryingRead | checking | sending
  | draining (transactionsToSave : List Message)
  | executing (transactionsToSave : List Message)
  | clearing | exited
  deriving DecidableEq

/-- The saver of an instance: the queue, the wake-up channel, and its thread. -/
structure Saver where
  queue : List Message
  channel : Nat
  phase : Phase
  deriving DecidableEq

/-- The `foreach` that builds the batch, one INSERT a transaction (its parameters are the seven
    fields); a null message ends it with an exception. -/
def commands : List Message → Option (List Transaction)
  | [] => some []
  | none :: _ => none
  | some t :: ms => (commands ms).map (t :: ·)

/-- The next step of the saver's thread, and the rows it inserts.  `elapsed` says whether three
    seconds have passed since the last batch, `batchOk` whether `ExecuteNonQueryAsync` succeeds. -/
def Saver.step (s : Saver) (elapsed batchOk : Bool) : Option (Saver × List Transaction) :=
  match s.phase with
  | .polling => some ({ s with phase := if s.queue.isEmpty then .tryingRead else .checking }, [])
  | .tryingRead =>
    match s.channel with
    | 0 => some ({ s with phase := .polling }, [])
    | n + 1 => some ({ s with channel := n, phase := .checking }, [])
  | .checking =>
    some ({ s with
      phase := if maxQueuedMessages ≤ s.queue.length ∨ elapsed then .sending else .polling }, [])
  | .sending =>
    some ({ s with phase := if s.queue.isEmpty then .polling else .draining [] }, [])
  | .draining transactionsToSave =>
    match s.queue with
    | m :: queue =>
      some ({ s with queue := queue, phase := .draining (transactionsToSave ++ [m]) }, [])
    -- the first `Clear`, still under the lock, and the lock is released
    | [] => some ({ s with queue := [], phase := .executing transactionsToSave }, [])
  | .executing transactionsToSave =>
    match commands transactionsToSave, batchOk with
    | some rows, true => some ({ s with phase := .clearing }, rows)
    -- the `catch` swallows the exception, and what was drained goes with it
    | _, _ => some ({ s with phase := .polling }, [])
  -- the second `Clear`: no lock is held
  | .clearing => some ({ s with queue := [], phase := .polling }, [])
  | .exited => none

/-- `Enqueue` of the receiver, which takes the lock. -/
def Saver.enqueue (s : Saver) (m : Message) : Option Saver :=
  match s.phase with
  | .draining _ => none
  | _ => some { s with queue := s.queue ++ [m] }

/-- `TryWrite` of a request of the instance. -/
def Saver.wake (s : Saver) : Saver := { s with channel := s.channel + 1 }

/-- The loop sees the cancellation of the stopping token. -/
def Saver.stop (s : Saver) : Option Saver :=
  match s.phase with
  | .polling => some { s with phase := .exited }
  | _ => none

/-- The batch in hand: drained and not yet inserted. -/
def Saver.inHand (s : Saver) : List Message :=
  match s.phase with
  | .draining transactionsToSave | .executing transactionsToSave => transactionsToSave
  | _ => []

/-- What the saver still has to insert, in order. -/
def Saver.pending (s : Saver) : List Message := s.inHand ++ s.queue

/-! ## What the saver can do -/

theorem commands_eq_some {ms : List Message} {rows : List Transaction} :
    commands ms = some rows ↔ ms = rows.map some := by
  induction ms generalizing rows with
  | nil =>
    rw [commands, Option.some.injEq]
    constructor
    · rintro rfl
      rfl
    · exact fun h => (List.map_eq_nil_iff.mp h.symm).symm
  | cons m ms ih =>
    rcases m with _ | t
    · rw [commands]
      refine iff_of_false (fun h => nomatch h) fun h => ?_
      rcases rows with _ | ⟨t, rows⟩ <;> cases h
    · rw [commands, Option.map_eq_some_iff]
      constructor
      · rintro ⟨ts, hts, rfl⟩
        rw [List.map_cons, ih.mp hts]
      · intro h
        rcases rows with _ | ⟨u, rows⟩
        · cases h
        · rw [List.map_cons, List.cons.injEq, Option.some.injEq] at h
          obtain ⟨rfl, h⟩ := h
          exact ⟨rows, ih.mpr h, rfl⟩

/-- The steps of the saver: most leave what is pending alone; the others insert a batch, drop one
    that failed, or clear the queue. -/
inductive Saver.Moves (s : Saver) (batchOk : Bool) : Saver → List Transaction → Prop where
  | quiet (s' : Saver) (hpending : s'.pending = s.pending) (hphase : s.phase ≠ .clearing)
      (hnot : ∀ hand, s.phase ≠ .executing hand) (hclear : s'.phase ≠ .clearing)
      (hdrained : ∀ hand, s'.phase = .executing hand → s'.queue = []) : Moves s batchOk s' []
  | insert (rows : List Transaction) (hphase : s.phase = .executing (rows.map some))
      (hok : batchOk = true) : Moves s batchOk { s with phase := .clearing } rows
  | fail (hand : List Message) (hphase : s.phase = .executing hand)
      (hfail : batchOk = false ∨ none ∈ hand) : Moves s batchOk { s with phase := .polling } []
  | clear (hphase : s.phase = .clearing) :
      Moves s batchOk { s with queue := [], phase := .polling } []

/-- A batch with a message that cannot become a command has a null message. -/
theorem none_mem_of_commands {ms : List Message} (h : commands ms = none) : none ∈ ms := by
  induction ms with
  | nil => cases h
  | cons m ms ih =>
    rcases m with _ | t
    · exact List.mem_cons_self
    · rw [commands, Option.map_eq_none_iff] at h
      exact List.mem_cons_of_mem _ (ih h)

theorem Saver.step_moves {s s' : Saver} {elapsed batchOk : Bool} {rows : List Transaction}
    (h : s.step elapsed batchOk = some (s', rows)) : s.Moves batchOk s' rows := by
  obtain ⟨queue, channel, phase⟩ := s
  rw [Saver.step] at h
  cases phase with
  | polling =>
    cases h
    cases queue with
    | nil => exact .quiet _ rfl nofun nofun nofun nofun
    | cons m queue => exact .quiet _ rfl nofun nofun nofun nofun
  | tryingRead =>
    cases channel with
    | zero =>
      cases h
      exact .quiet _ rfl nofun nofun nofun nofun
    | succ n =>
      cases h
      exact .quiet _ rfl nofun nofun nofun nofun
  | checking =>
    cases h
    by_cases hfull : maxQueuedMessages ≤ queue.length ∨ elapsed = true
    · rw [if_pos hfull]
      exact .quiet _ rfl nofun nofun nofun nofun
    · rw [if_neg hfull]
      exact .quiet _ rfl nofun nofun nofun nofun
  | sending =>
    cases h
    cases queue with
    | nil => exact .quiet _ rfl nofun nofun nofun nofun
    | cons m queue => exact .quiet _ rfl nofun nofun nofun nofun
  | draining hand =>
    cases queue with
    | nil =>
      cases h
      exact .quiet _ rfl nofun nofun nofun fun _ _ => rfl
    | cons m queue =>
      cases h
      refine .quiet _ ?_ nofun nofun nofun nofun
      exact List.append_assoc hand [m] queue
  | executing hand =>
    dsimp only at h
    rcases hcommands : commands hand with _ | ts
    · rw [hcommands] at h
      cases h
      exact .fail hand rfl (Or.inr (none_mem_of_commands hcommands))
    · rw [hcommands] at h
      cases batchOk with
      | false =>
        cases h
        exact .fail hand rfl (Or.inl rfl)
      | true =>
        cases h
        exact .insert rows (by rw [commands_eq_some.mp hcommands]) rfl
  | clearing =>
    cases h
    exact .clear rfl
  | exited => cases h

/-! ## The receiver and the saver, interleaved -/

/-- The saver, the rows it has inserted, and everything the receiver has been given, in order. -/
structure State where
  saver : Saver
  rows : List Transaction
  received : List Message
  deriving DecidableEq

/-- What can happen next. -/
inductive Event where
  | enqueue (m : Message)
  | wake
  | saver (elapsed batchOk : Bool)
  | stop

/-- One event. -/
def step (s : State) : Event → Option State
  | .enqueue m => (s.saver.enqueue m).map fun saver =>
      { s with saver := saver, received := s.received ++ [m] }
  | .wake => some { s with saver := s.saver.wake }
  | .saver elapsed batchOk => (s.saver.step elapsed batchOk).map fun r =>
      { s with saver := r.1, rows := s.rows ++ r.2 }
  | .stop => s.saver.stop.map fun saver => { s with saver := saver }

/-- A service that has just started. -/
def initial : State := ⟨⟨[], 0, .polling⟩, [], []⟩

/-- The receiver adds to the end of what is pending. -/
theorem pending_enqueue {s s' : Saver} {m : Message} (h : s.enqueue m = some s') :
    s'.pending = s.pending ++ [m] ∧ s'.phase = s.phase := by
  obtain ⟨queue, channel, phase⟩ := s
  rw [Saver.enqueue] at h
  cases phase with
  | draining hand => cases h
  | _ =>
    cases h
    exact ⟨(List.append_assoc _ queue [m]).symm, rfl⟩

theorem pending_stop {s s' : Saver} (h : s.stop = some s') : s'.pending = s.pending := by
  obtain ⟨queue, channel, phase⟩ := s
  rw [Saver.stop] at h
  cases phase with
  | polling =>
    cases h
    rfl
  | _ => cases h

/-- A batch that is executed succeeds: it has no null message, and the database takes it. -/
def batchSucceeds (s : State) (e : Event) : Bool :=
  match e, s.saver.phase with
  | .saver _ batchOk, .executing hand => batchOk ∧ none ∉ hand
  | _, _ => true

/-- No message is waiting when the queue is cleared after a batch. -/
def clearsNothing (s : State) (e : Event) : Bool :=
  match e, s.saver.phase with
  | .saver _ _, .clearing => s.saver.queue = []
  | _, _ => true

/-- What has been received is in the table, in hand or in the queue, in this order. -/
def Conserved (s : State) : Prop :=
  s.received = s.rows.map some ++ s.saver.inHand ++ s.saver.queue

instance (s : State) : Decidable (Conserved s) :=
  inferInstanceAs (Decidable (s.received = s.rows.map some ++ s.saver.inHand ++ s.saver.queue))

theorem conserved_iff {s : State} :
    Conserved s ↔ s.received = s.rows.map some ++ s.saver.pending := by
  rw [Conserved, Saver.pending, List.append_assoc]

theorem inHand_of_executing {s : Saver} {hand : List Message} (h : s.phase = .executing hand) :
    s.inHand = hand := by
  rw [Saver.inHand, h]

theorem inHand_of_clearing {s : Saver} (h : s.phase = .clearing) : s.inHand = [] := by
  rw [Saver.inHand, h]

/-- Only the saver's step after a batch clears. -/
theorem clearsNothing_of_ne {s : State} (e : Event) (h : s.saver.phase ≠ .clearing) :
    clearsNothing s e = true := by
  unfold clearsNothing
  split
  · next hphase => exact absurd hphase h
  · rfl

theorem clearsNothing_clearing {s : State} (h : s.saver.phase = .clearing)
    (elapsed batchOk : Bool) :
    clearsNothing s (.saver elapsed batchOk) = decide (s.saver.queue = []) := by
  simp only [clearsNothing, h]

theorem batchSucceeds_executing {s : State} {hand : List Message}
    (h : s.saver.phase = .executing hand) (elapsed batchOk : Bool) :
    batchSucceeds s (.saver elapsed batchOk) = decide (batchOk = true ∧ none ∉ hand) := by
  simp only [batchSucceeds, h]

/-- One step keeps everything, exactly when it does not clear a waiting message. -/
theorem conserved_step {s s' : State} {e : Event} (hP : Conserved s)
    (hok : batchSucceeds s e = true) (h : step s e = some s') :
    Conserved s' ↔ clearsNothing s e = true := by
  rw [conserved_iff] at hP ⊢
  cases e with
  | enqueue m =>
    obtain ⟨saver, hsaver, rfl⟩ := Option.map_eq_some_iff.mp h
    refine iff_of_true ?_ rfl
    dsimp only
    rw [hP, (pending_enqueue hsaver).1, List.append_assoc]
  | wake =>
    cases h
    exact iff_of_true hP rfl
  | stop =>
    obtain ⟨saver, hsaver, rfl⟩ := Option.map_eq_some_iff.mp h
    refine iff_of_true ?_ rfl
    dsimp only
    rw [hP, pending_stop hsaver]
  | saver elapsed batchOk =>
    obtain ⟨⟨saver, rows⟩, hsaver, rfl⟩ := Option.map_eq_some_iff.mp h
    dsimp only
    cases Saver.step_moves hsaver with
    | quiet _ hpending hphase =>
      refine iff_of_true ?_ (clearsNothing_of_ne _ hphase)
      rw [hP, hpending, List.append_nil]
    | insert _ hphase _ =>
      -- the batch in hand becomes the last rows
      refine iff_of_true ?_ (clearsNothing_of_ne _ (by rw [hphase]; nofun))
      rw [hP, Saver.pending, inHand_of_executing hphase, List.map_append, List.append_assoc]
      rfl
    | fail hand hphase hfail =>
      -- excluded: every batch succeeds
      rw [batchSucceeds_executing hphase] at hok
      obtain ⟨hbatch, hnull⟩ := of_decide_eq_true hok
      rcases hfail with hfail | hfail
      · rw [hbatch] at hfail
        cases hfail
      · exact absurd hfail hnull
    | clear hphase =>
      -- nothing is in hand, so what is cleared is all that was pending
      rw [hP, Saver.pending, inHand_of_clearing hphase, List.nil_append, List.append_nil,
        clearsNothing_clearing hphase]
      constructor
      · exact fun heq => decide_eq_true (List.append_cancel_left heq)
      · intro hclear
        rw [of_decide_eq_true hclear]
        rfl

/-- **Nothing is lost, exactly when every `Clear` finds the queue empty.**  For every sequence of
    events in which all batches succeed, the received sequence is the rows inserted, the batch in
    hand and the queue, in every state of the run, if and only if no message is waiting when the
    queue is cleared after a batch. -/
theorem nothing_lost_iff (events : List Event)
    (hok : Transition.AllSteps step (fun s e => batchSucceeds s e = true) initial events) :
    Transition.AllStates step Conserved initial events
      ↔ Transition.AllSteps step (fun s e => clearsNothing s e = true) initial events :=
  Transition.allStates_iff_allSteps step (fun _ _ _ => conserved_step) events initial rfl hok

/-- A credit of `n` on account 1. -/
def credited (n : Int32) : Transaction :=
  ⟨n, 'c', some ['x'], 1, 1000, n, .ofTicks 0 .localTime⟩

/-- One batch: a message arrives, and the saver drains it. -/
def oneBatch : List Event :=
  .enqueue (some (credited 1)) :: List.replicate 5 (.saver true true)

theorem nothing_lost_iff_oneBatch : Transition.AllStates step Conserved initial
    (oneBatch ++ [.saver true true, .saver true true]) :=
  (nothing_lost_iff (oneBatch ++ [.saver true true, .saver true true]) (by decide)).mpr (by decide)

/-- A message that arrives while the batch runs is cleared away: received are two messages, and
    at the end one row is inserted and the queue is empty. -/
theorem message_arriving_during_batch_is_lost :
    ¬ ∀ (events : List Event) (s : State),
      Transition.AllSteps step (fun s e => batchSucceeds s e = true) initial events →
      Transition.run step initial events = some s → Conserved s := by
  intro h
  have hrun : ∃ s, Transition.run step initial
      (oneBatch ++ [.enqueue (some (credited 2)), .saver true true, .saver true true]) = some s ∧
        ¬ Conserved s := ⟨_, rfl, by decide⟩
  obtain ⟨s, hs, hlost⟩ := hrun
  exact hlost (h _ s (by decide) hs)

/-! ## A batch that fails -/

/-- What a state owes to an earlier one: the rows inserted since, and what is still pending, come
    in order from what was pending then or has been received since. -/
def Follows (base s : State) : Prop :=
  ∃ rows received, s.rows = base.rows ++ rows ∧ s.received = base.received ++ received ∧
    (rows.map some ++ s.saver.pending).Sublist (base.saver.pending ++ received)

theorem follows_refl (s : State) : Follows s s :=
  ⟨[], [], (List.append_nil _).symm, (List.append_nil _).symm, by
    rw [List.append_nil]
    exact List.Sublist.refl _⟩

theorem follows_step {base s s' : State} {e : Event} (hI : Follows base s)
    (h : step s e = some s') : Follows base s' := by
  obtain ⟨rows, received, hrows, hreceived, hsub⟩ := hI
  cases e with
  | enqueue m =>
    obtain ⟨saver, hsaver, rfl⟩ := Option.map_eq_some_iff.mp h
    refine ⟨rows, received ++ [m], hrows, by rw [hreceived, List.append_assoc], ?_⟩
    dsimp only
    rw [(pending_enqueue hsaver).1, ← List.append_assoc, ← List.append_assoc]
    exact hsub.append_right [m]
  | wake =>
    cases h
    exact ⟨rows, received, hrows, hreceived, hsub⟩
  | stop =>
    obtain ⟨saver, hsaver, rfl⟩ := Option.map_eq_some_iff.mp h
    refine ⟨rows, received, hrows, hreceived, ?_⟩
    dsimp only
    rw [pending_stop hsaver]
    exact hsub
  | saver elapsed batchOk =>
    obtain ⟨⟨saver, inserted⟩, hsaver, rfl⟩ := Option.map_eq_some_iff.mp h
    refine ⟨rows ++ inserted, received, by rw [hrows, List.append_assoc], hreceived, ?_⟩
    dsimp only
    refine List.Sublist.trans ?_ hsub
    rw [List.map_append, List.append_assoc]
    refine List.Sublist.append_left ?_ _
    cases Saver.step_moves hsaver with
    | quiet _ hpending =>
      rw [hpending]
      exact List.Sublist.refl _
    | insert _ hphase _ =>
      rw [Saver.pending, Saver.pending, inHand_of_executing hphase]
      exact List.Sublist.refl _
    -- these two lose messages, and a shorter list is still in order
    | fail hand _ _ => exact List.sublist_append_right _ _
    | clear hphase => exact List.nil_sublist _

/-- What is inserted keeps the order of receipt: the rows are a subsequence of the messages
    received.  Messages may be lost, by a failed batch or by a `Clear`. -/
theorem rows_sublist_received {events : List Event} {s : State}
    (hrun : Transition.run step initial events = some s) :
    (s.rows.map some).Sublist s.received := by
  obtain ⟨rows, received, hrows, hreceived, hsub⟩ := Transition.run_invariant step
    (fun _ _ _ => follows_step) (follows_refl initial) hrun
  rw [hrows, hreceived]
  exact (List.sublist_append_left _ _).trans hsub

/-- **A failed batch is dropped.**  Whatever the queue holds, the failure inserts no row, leaves
    the queue as it is and ends the batch; and in every continuation, each row inserted from then
    on comes from a message that was in the queue or was received later. -/
theorem failed_batch_is_dropped (s s' : State) (hand : List Message) (elapsed batchOk : Bool)
    (hphase : s.saver.phase = .executing hand) (hfail : batchOk = false ∨ none ∈ hand)
    (h : step s (.saver elapsed batchOk) = some s') :
    s'.rows = s.rows ∧ s'.saver.queue = s.saver.queue ∧ s'.saver.phase = .polling ∧
      s'.received = s.received ∧
      ∀ events s'', Transition.run step s' events = some s'' →
        ∃ rows received, s''.rows = s.rows ++ rows ∧ s''.received = s.received ++ received ∧
          (rows.map some).Sublist (s.saver.queue ++ received) := by
  obtain ⟨⟨saver, inserted⟩, hsaver, rfl⟩ := Option.map_eq_some_iff.mp h
  cases Saver.step_moves hsaver with
  | quiet _ _ _ hnot => exact absurd hphase (hnot hand)
  | insert rows hphase' hok =>
    -- a batch of commands has no null message
    rw [hphase, Phase.executing.injEq] at hphase'
    rcases hfail with hfail | hfail
    · rw [hok] at hfail
      cases hfail
    · rw [hphase'] at hfail
      obtain ⟨t, -, ht⟩ := List.mem_map.mp hfail
      cases ht
  | fail hand' _ _ =>
    refine ⟨List.append_nil _, rfl, rfl, rfl, fun events s'' hrun => ?_⟩
    obtain ⟨rows, received, hrows, hreceived, hsub⟩ := Transition.run_invariant step
      (fun _ _ _ => follows_step) (follows_refl _) hrun
    refine ⟨rows, received, ?_, hreceived, (List.sublist_append_left _ _).trans hsub⟩
    rw [hrows]
    exact congrArg (· ++ rows) (List.append_nil _)
  | clear hphase' =>
    rw [hphase] at hphase'
    cases hphase'

theorem failed_batch_is_dropped_oneBatch :
    ∃ s s', Transition.run step initial oneBatch = some s ∧
      step s (.saver true false) = some s' ∧ s'.rows = s.rows ∧
        s'.saver.queue = s.saver.queue := by
  obtain ⟨s, hrun, hphase⟩ : ∃ s, Transition.run step initial oneBatch = some s ∧
      s.saver.phase = .executing [some (credited 1)] := ⟨_, rfl, rfl⟩
  obtain ⟨s', hstep⟩ : ∃ s', step s (.saver true false) = some s' := by
    refine Option.isSome_iff_exists.mp ?_
    rw [step, Saver.step, hphase]
    rfl
  obtain ⟨hrows, hqueue, -⟩ := failed_batch_is_dropped s s' [some (credited 1)] true false hphase
    (Or.inl rfl) hstep
  exact ⟨s, s', hrun, hstep, hrows, hqueue⟩

/-- The drained message of a failed batch is in neither place. -/
theorem failed_batch_loses_what_it_drained :
    ¬ ∀ (events : List Event) (s s' : State) (hand : List Message) (elapsed batchOk : Bool),
      Transition.run step initial events = some s → s.saver.phase = .executing hand →
      (batchOk = false ∨ none ∈ hand) → step s (.saver elapsed batchOk) = some s' →
      ∀ t, some t ∈ hand → t ∈ s'.rows ∨ some t ∈ s'.saver.queue := by
  intro h
  rcases h oneBatch _ _ [some (credited 1)] true false rfl rfl (Or.inl rfl) rfl (credited 1)
    List.mem_cons_self with hrow | hqueue
  · cases hrow
  · cases hqueue

end SaveInBackground

end Rinha
