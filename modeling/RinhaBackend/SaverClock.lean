/-
  The saver on its clock.

  `SaveInBackground` leaves open whether three seconds have passed since the last batch.  Here the
  thread of the saver has its variable `start` and reads the clock: at the check of the loop, and
  when `SendTransactionsAsync` returns.  Every run on the clock is a run of `SaveInBackground`
  (`run_forget`), so what holds of all its runs holds here.

  Two things only the clock can tell.  How often the table is written to: with readings that do not
  go back, at most once for every three seconds and once for every hundred messages received
  (`batches_are_bounded`).  And that what is queued gets there: once three seconds have passed, or a
  hundred messages wait, the saver left alone inserts all that is pending within a bounded number
  of steps (`pending_is_drained`).
-/
import RinhaBackend.SaveInBackground

namespace Rinha

namespace SaverClock

open SaveInBackground (Message Phase Saver maxQueuedMessages commands commands_eq_some)

/-- `TimeSpan.FromSeconds(3)`, in ticks. -/
def threeSeconds : Nat := 30000000

/-- `DateTime.Now - start >= TimeSpan.FromSeconds(3)`. -/
def hasElapsed (start now : DateTime) : Bool :=
  (threeSeconds : Int) ≤ (now.ticks : Int) - start.ticks

/-- `SendTransactionsAsync` returns to the loop. -/
def returns : Phase → Phase → Bool
  | .sending, .polling | .executing _, .polling | .clearing, .polling => true
  | _, _ => false

/-- The service, the variable `start` of the saver's thread, and the last reading of its clock. -/
structure State where
  service : SaveInBackground.State
  start : DateTime
  clock : DateTime

/-- What can happen next; a step of the saver comes with the reading it sees if it looks. -/
inductive Event where
  | enqueue (m : Message)
  | wake
  | saver (now : DateTime) (batchOk : Bool)
  | stop

/-- The event, without the clock. -/
def Event.forget (start : DateTime) : Event → SaveInBackground.Event
  | .enqueue m => .enqueue m
  | .wake => .wake
  | .saver now batchOk => .saver (hasElapsed start now) batchOk
  | .stop => .stop

/-- The state after the service has moved: `start` is set when a batch is over. -/
def State.moved (s : State) (service : SaveInBackground.State) : Event → State
  | .saver now _ =>
    ⟨service, if returns s.service.saver.phase service.saver.phase then now else s.start, now⟩
  | _ => { s with service := service }

/-- One event. -/
def step (s : State) (e : Event) : Option State :=
  (SaveInBackground.step s.service (e.forget s.start)).map fun service => s.moved service e

/-- A service that has just started, at `now`. -/
def initial (now : DateTime) : State := ⟨SaveInBackground.initial, now, now⟩

/-- The readings do not go back. -/
def Advances (s : State) : Event → Prop
  | .saver now _ => s.clock.ticks ≤ now.ticks
  | _ => True

instance (s : State) : (e : Event) → Decidable (Advances s e)
  | .saver now _ => inferInstanceAs (Decidable (s.clock.ticks ≤ now.ticks))
  | .enqueue _ | .wake | .stop => isTrue trivial

theorem moved_service (s : State) (service : SaveInBackground.State) (e : Event) :
    (s.moved service e).service = service := by
  cases e <;> rfl

/-- **A run on the clock is a run of the service.** -/
theorem run_forget (events : List Event) : ∀ {s s' : State},
    Transition.run step s events = some s' →
      ∃ plain, Transition.run SaveInBackground.step s.service plain = some s'.service := by
  induction events with
  | nil =>
    intro s s' hrun
    cases hrun
    exact ⟨[], rfl⟩
  | cons e events ih =>
    intro s s' hrun
    obtain ⟨m, hm, hrest⟩ := (Transition.run_cons step).mp hrun
    obtain ⟨service, hservice, rfl⟩ := Option.map_eq_some_iff.mp hm
    obtain ⟨plain, hplain⟩ := ih hrest
    rw [moved_service] at hplain
    exact ⟨_ :: plain, (Transition.run_cons SaveInBackground.step).mpr ⟨service, hservice, hplain⟩⟩

/-! ## How often the table is written to -/

/-- Why the loop sends, and that a batch is executed. -/
inductive Mark where
  | full | timer | batch
  deriving DecidableEq

/-- What an event adds to the record of the run: the check of the loop says why it sends, the
    `ExecuteNonQueryAsync` that it does. -/
def mark (s : State) (e : Event) : List Mark :=
  match e, s.service.saver.phase with
  | .saver now _, .checking =>
    if maxQueuedMessages ≤ s.service.saver.queue.length then [.full]
    else if hasElapsed s.start now then [.timer] else []
  | .saver _ _, .executing _ => [.batch]
  | _, _ => []

/-- The thread is in `SendTransactionsAsync`. -/
def insideSend : Phase → Bool
  | .sending | .draining _ | .executing _ | .clearing => true
  | .polling | .tryingRead | .checking | .exited => false

/-- The batches a send has still to execute. -/
def owed : Phase → Nat
  | .sending | .draining _ | .executing _ => 1
  | .polling | .tryingRead | .checking | .clearing | .exited => 0

/-- The queue, as far as no send has laid hands on it. -/
def untouched (saver : Saver) : Nat :=
  match saver.phase with
  | .sending | .draining _ => 0
  | _ => saver.queue.length

/-- The invariant: what has been spent on sends of either kind, and on batches. -/
structure Budget (first : Nat) (s : State) (marks : List Mark) : Prop where
  clock : s.start.ticks ≤ s.clock.ticks
  timer : first + threeSeconds * marks.count .timer
    ≤ if insideSend s.service.saver.phase then s.clock.ticks else s.start.ticks
  full : maxQueuedMessages * marks.count .full + untouched s.service.saver
    ≤ s.service.received.length
  batch : marks.count .batch + owed s.service.saver.phase
    ≤ marks.count .timer + marks.count .full

/-- Executing batches counts as such. -/
theorem count_spent (marks : List Mark) (n : Nat) :
    (marks ++ List.replicate n Mark.batch).count Mark.timer = marks.count Mark.timer ∧
      (marks ++ List.replicate n Mark.batch).count Mark.full = marks.count Mark.full ∧
      (marks ++ List.replicate n Mark.batch).count Mark.batch = marks.count Mark.batch + n := by
  rw [List.count_append, List.count_append, List.count_append, List.count_replicate,
    List.count_replicate, List.count_replicate]
  exact ⟨rfl, rfl, rfl⟩

section Steps

variable {first : Nat} {marks : List Mark} {s s' : State}

/-- What is received waits in the queue, and costs nothing yet. -/
theorem budget_enqueue {m : Message} (hI : Budget first s marks)
    (h : step s (.enqueue m) = some s') : Budget first s' marks := by
  obtain ⟨service, hservice, rfl⟩ := Option.map_eq_some_iff.mp h
  obtain ⟨saver, hsaver, rfl⟩ := Option.map_eq_some_iff.mp hservice
  obtain ⟨⟨⟨queue, channel, phase⟩, rows, received⟩, start, clock⟩ := s
  obtain ⟨hclock, htimer, hfull, hbatch⟩ := hI
  dsimp only at hsaver hclock htimer hfull hbatch
  rw [Saver.enqueue] at hsaver
  cases phase with
  | draining hand => cases hsaver
  | sending =>
    cases hsaver
    refine ⟨hclock, htimer, ?_, hbatch⟩
    show _ + 0 ≤ (received ++ [m]).length
    rw [List.length_append]
    exact hfull.trans (Nat.le_add_right _ _)
  | polling | tryingRead | checking | executing _ | clearing | exited =>
    cases hsaver
    refine ⟨hclock, htimer, ?_, hbatch⟩
    show _ + (queue ++ [m]).length ≤ (received ++ [m]).length
    rw [List.length_append, List.length_append]
    simp only [untouched] at hfull
    omega

/-- The clock goes on, and of the batches owed `n` are executed. -/
theorem budget_go_on (n : Nat) {now : DateTime} {saver : Saver} {rows : List Transaction}
    (hI : Budget first s marks) (hadv : s.clock.ticks ≤ now.ticks)
    (hinside : insideSend saver.phase = insideSend s.service.saver.phase)
    (howed : n + owed saver.phase ≤ owed s.service.saver.phase)
    (huntouched : untouched saver ≤ untouched s.service.saver) :
    Budget first ⟨{ s.service with saver := saver, rows := rows }, s.start, now⟩
      (marks ++ List.replicate n .batch) := by
  obtain ⟨hclock, htimer, hfull, hbatch⟩ := hI
  have hcount := count_spent marks n
  refine ⟨hclock.trans hadv, ?_, ?_, ?_⟩
  · dsimp only
    rw [hinside, hcount.1]
    split
    · next hsend =>
      rw [if_pos hsend] at htimer
      exact htimer.trans hadv
    · next hsend =>
      rwa [if_neg hsend] at htimer
  · dsimp only
    rw [hcount.2.1]
    omega
  · dsimp only
    rw [hcount.1, hcount.2.1, hcount.2.2]
    omega

/-- A send is over, and `start` is set to the reading. -/
theorem budget_return (n : Nat) {now : DateTime} {saver : Saver} {rows : List Transaction}
    (hI : Budget first s marks) (hadv : s.clock.ticks ≤ now.ticks)
    (hphase : saver.phase = .polling) (hinside : insideSend s.service.saver.phase = true)
    (howed : n ≤ owed s.service.saver.phase)
    (hqueue : saver.queue.length ≤ untouched s.service.saver) :
    Budget first ⟨{ s.service with saver := saver, rows := rows }, now, now⟩
      (marks ++ List.replicate n .batch) := by
  obtain ⟨-, htimer, hfull, hbatch⟩ := hI
  have hcount := count_spent marks n
  rw [if_pos hinside] at htimer
  have hhere : untouched saver = saver.queue.length := by rw [untouched, hphase]
  refine ⟨le_refl _, ?_, ?_, ?_⟩
  · dsimp only
    rw [hphase, hcount.1]
    exact htimer.trans hadv
  · dsimp only
    rw [hcount.2.1]
    omega
  · dsimp only
    rw [hphase, hcount.1, hcount.2.1, hcount.2.2]
    show marks.count .batch + n + 0 ≤ _
    omega

/-- What the check of the loop spends. -/
theorem budget_check {now : DateTime} {batchOk : Bool} (hI : Budget first s marks)
    (hadv : s.clock.ticks ≤ now.ticks) (hphase : s.service.saver.phase = .checking)
    (h : step s (.saver now batchOk) = some s') :
    Budget first s' (marks ++ mark s (.saver now batchOk)) := by
  obtain ⟨hclock, htimer, hfull, hbatch⟩ := hI
  obtain ⟨⟨⟨queue, channel, phase⟩, rows, received⟩, start, clock⟩ := s
  dsimp only at hclock htimer hfull hbatch hphase hadv
  subst hphase
  change some (State.moved ⟨⟨⟨queue, channel, .checking⟩, rows, received⟩, start, clock⟩
    ⟨⟨queue, channel, if maxQueuedMessages ≤ queue.length ∨ hasElapsed start now = true then
      .sending else .polling⟩, rows ++ [], received⟩ (.saver now batchOk)) = some s' at h
  change first + threeSeconds * marks.count .timer ≤ start.ticks at htimer
  change maxQueuedMessages * marks.count .full + queue.length ≤ received.length at hfull
  change marks.count .batch + 0 ≤ marks.count .timer + marks.count .full at hbatch
  by_cases hmany : maxQueuedMessages ≤ queue.length
  · -- a hundred messages or more, which this send will drain
    have hmark : mark ⟨⟨⟨queue, channel, .checking⟩, rows, received⟩, start, clock⟩
        (.saver now batchOk) = [.full] := if_pos hmany
    rw [if_pos (Or.inl hmany)] at h
    cases h
    rw [hmark]
    refine ⟨hclock.trans hadv, ?_, ?_, ?_⟩
    · rw [List.count_append]
      exact htimer.trans (hclock.trans hadv)
    · rw [List.count_append]
      show maxQueuedMessages * (marks.count .full + 1) + 0 ≤ received.length
      rw [Nat.mul_add]
      omega
    · rw [List.count_append, List.count_append, List.count_append]
      show marks.count .batch + 0 + 1 ≤ marks.count .timer + 0 + (marks.count .full + 1)
      omega
  · by_cases helapsed : hasElapsed start now = true
    · -- three seconds or more since the last batch
      have hmark : mark ⟨⟨⟨queue, channel, .checking⟩, rows, received⟩, start, clock⟩
          (.saver now batchOk) = [.timer] := (if_neg hmany).trans (if_pos helapsed)
      have hwaited : start.ticks + threeSeconds ≤ now.ticks := by
        have hdiff := of_decide_eq_true helapsed
        omega
      rw [if_pos (Or.inr helapsed)] at h
      cases h
      rw [hmark]
      refine ⟨hclock.trans hadv, ?_, ?_, ?_⟩
      · rw [List.count_append]
        show first + threeSeconds * (marks.count .timer + 1) ≤ now.ticks
        rw [Nat.mul_add]
        omega
      · rw [List.count_append]
        show maxQueuedMessages * marks.count .full + 0 ≤ received.length
        omega
      · rw [List.count_append, List.count_append, List.count_append]
        show marks.count .batch + 0 + 1 ≤ marks.count .timer + 1 + (marks.count .full + 0)
        omega
    · -- neither: the loop goes on
      have hmark : mark ⟨⟨⟨queue, channel, .checking⟩, rows, received⟩, start, clock⟩
          (.saver now batchOk) = [] := (if_neg hmany).trans (if_neg helapsed)
      have hneither : ¬ (maxQueuedMessages ≤ queue.length ∨ hasElapsed start now = true) :=
        not_or.mpr ⟨hmany, helapsed⟩
      rw [if_neg hneither] at h
      cases h
      rw [hmark, List.append_nil marks]
      exact ⟨hclock.trans hadv, htimer, hfull, hbatch⟩

/-- **One event** keeps the budget. -/
theorem budget_step {e : Event} (hI : Budget first s marks) (hadv : Advances s e)
    (h : step s e = some s') : Budget first s' (marks ++ mark s e) := by
  cases e with
  | enqueue m =>
    rw [show mark s (.enqueue m) = [] from rfl, List.append_nil]
    exact budget_enqueue hI h
  | wake =>
    rw [show mark s .wake = [] from rfl, List.append_nil]
    cases h
    exact ⟨hI.clock, hI.timer, hI.full, hI.batch⟩
  | stop =>
    rw [show mark s .stop = [] from rfl, List.append_nil]
    obtain ⟨service, hservice, rfl⟩ := Option.map_eq_some_iff.mp h
    obtain ⟨saver, hsaver, rfl⟩ := Option.map_eq_some_iff.mp hservice
    obtain ⟨⟨⟨queue, channel, phase⟩, rows, received⟩, start, clock⟩ := s
    dsimp only at hsaver
    rw [Saver.stop] at hsaver
    cases phase with
    | polling =>
      cases hsaver
      exact ⟨hI.clock, hI.timer, hI.full, hI.batch⟩
    | _ => cases hsaver
  | saver now batchOk =>
    by_cases hchecking : s.service.saver.phase = .checking
    · exact budget_check hI hadv hchecking h
    obtain ⟨⟨⟨queue, channel, phase⟩, rows, received⟩, start, clock⟩ := s
    dsimp only at hchecking
    cases phase with
    | checking => exact absurd rfl hchecking
    | polling =>
      cases h
      cases queue with
      | nil => exact budget_go_on 0 hI hadv rfl (le_refl _) (le_refl _)
      | cons m queue => exact budget_go_on 0 hI hadv rfl (le_refl _) (le_refl _)
    | tryingRead =>
      cases channel with
      | zero =>
        cases h
        exact budget_go_on 0 hI hadv rfl (le_refl _) (le_refl _)
      | succ n =>
        cases h
        exact budget_go_on 0 hI hadv rfl (le_refl _) (le_refl _)
    | sending =>
      cases queue with
      | nil =>
        cases h
        exact budget_return 0 hI hadv rfl rfl (Nat.zero_le _) (le_refl _)
      | cons m queue =>
        cases h
        exact budget_go_on 0 hI hadv rfl (le_refl _) (le_refl _)
    | draining hand =>
      cases queue with
      | nil =>
        cases h
        exact budget_go_on 0 hI hadv rfl (le_refl _) (le_refl _)
      | cons m queue =>
        cases h
        exact budget_go_on 0 hI hadv rfl (le_refl _) (le_refl _)
    | executing hand =>
      obtain ⟨service, hservice, rfl⟩ := Option.map_eq_some_iff.mp h
      obtain ⟨⟨saver, inserted⟩, hsaver, rfl⟩ := Option.map_eq_some_iff.mp hservice
      cases Saver.step_moves hsaver with
      | quiet _ _ _ hnot => exact absurd rfl (hnot hand)
      | insert _ _ _ => exact budget_go_on 1 hI hadv rfl (le_refl _) (le_refl _)
      | fail _ _ _ => exact budget_return 1 hI hadv rfl rfl (le_refl _) (le_refl _)
      | clear hphase => cases hphase
    | clearing =>
      cases h
      exact budget_return 0 hI hadv rfl rfl (Nat.zero_le _) (Nat.zero_le _)
    | exited => cases h

end Steps

/-- **How often the table is written to.**  On a clock whose readings do not go back, the batches
    executed are at most one for every three seconds since the service has started and one for
    every hundred messages received, in every run. -/
theorem batches_are_bounded (now : DateTime) (events : List Event) (s : State)
    (hadv : Transition.AllSteps step Advances (initial now) events)
    (hrun : Transition.run step (initial now) events = some s) :
    (Transition.yields step mark (initial now) events).count .batch
      ≤ (s.clock.ticks - now.ticks) / threeSeconds
        + s.service.received.length / maxQueuedMessages := by
  have hstart : Budget now.ticks (initial now) [] :=
    ⟨le_refl _, le_refl _, le_refl _, le_refl _⟩
  have hend := Transition.run_yields step mark (fun _ _ _ _ hI hC h => budget_step hI hC h) events
    (initial now) s [] hstart hadv hrun
  rw [List.nil_append] at hend
  obtain ⟨hclock, htimer, hfull, hbatch⟩ := hend
  have hlast : now.ticks + threeSeconds
      * (Transition.yields step mark (initial now) events).count .timer ≤ s.clock.ticks := by
    refine htimer.trans ?_
    split
    · exact le_refl _
    · exact hclock
  have htimed : (Transition.yields step mark (initial now) events).count .timer
      ≤ (s.clock.ticks - now.ticks) / threeSeconds := by
    rw [Nat.le_div_iff_mul_le (by decide), Nat.mul_comm]
    omega
  have hfilled : (Transition.yields step mark (initial now) events).count .full
      ≤ s.service.received.length / maxQueuedMessages := by
    rw [Nat.le_div_iff_mul_le (by decide), Nat.mul_comm]
    omega
  omega

/-- A saver three seconds after its start, with one message: a batch of one. -/
def oneBatch : List Event :=
  .enqueue (some (SaveInBackground.credited 1)) ::
    List.replicate 7 (.saver (.ofTicks 30000005 .localTime) true)

theorem batches_are_bounded_oneBatch : ∃ s,
    Transition.run step (initial (.ofTicks 5 .localTime)) oneBatch = some s ∧
      (Transition.yields step mark (initial (.ofTicks 5 .localTime)) oneBatch).count .batch
        ≤ 1 := by
  obtain ⟨s, hrun, hclock, hreceived⟩ : ∃ s,
      Transition.run step (initial (.ofTicks 5 .localTime)) oneBatch = some s ∧
        s.clock.ticks = 30000005 ∧ s.service.received.length = 1 := ⟨_, rfl, rfl, rfl⟩
  have hbound := batches_are_bounded (.ofTicks 5 .localTime) oneBatch s (by decide +kernel) hrun
  rw [hclock, hreceived] at hbound
  exact ⟨s, hrun, hbound.trans (by decide)⟩

/-! ## What is queued gets to the table -/

/-- The saver left alone, with a table that takes its batch: one step for each reading. -/
def alone (readings : List DateTime) : List Event :=
  readings.map fun now => .saver now true

/-- How many steps a saver with messages in its queue takes before the check of the loop, if that
    is still to come. -/
def stepsToCheck (saver : Saver) : Option Nat :=
  match saver.phase with
  | .checking => some 0
  | .polling => some 1
  | .tryingRead => some (if saver.channel = 0 then 2 else 1)
  | .sending | .draining _ | .executing _ | .clearing | .exited => none

/-- A hundred messages wait, or at the check of the loop three seconds have passed since the last
    batch; the other readings do not matter. -/
def Due (s : State) (readings : List DateTime) : Prop :=
  maxQueuedMessages ≤ s.service.saver.queue.length ∨
    ∀ i, stepsToCheck s.service.saver = some i → ∀ now, readings[i]? = some now →
      hasElapsed s.start now = true

/-- On these readings the saver inserts `ts`, and then nothing is pending. -/
def InsertsIn (ts : List Transaction) (readings : List DateTime) (s : State) : Prop :=
  ∃ s', Transition.run step s (alone readings) = some s' ∧
    s'.service.saver.phase = .polling ∧ s'.service.saver.pending = [] ∧
    s'.service.rows = s.service.rows ++ ts ∧ s'.service.received = s.service.received

/-- On any `n` readings that are due the saver inserts `ts`. -/
def DrainsIn (ts : List Transaction) (n : Nat) (s : State) : Prop :=
  ∀ readings : List DateTime, readings.length = n → Due s readings → InsertsIn ts readings s

section Alone

variable {queue : List Message} {channel : Nat} {rows ts : List Transaction}
  {received : List Message} {start clock : DateTime}

/-- A step that inserts nothing, in front of the others. -/
theorem DrainsIn.next {n : Nat} {s : State} (m : DateTime → State)
    (hstep : ∀ now, step s (.saver now true) = some (m now))
    (hrows : ∀ now, (m now).service.rows = s.service.rows)
    (hreceived : ∀ now, (m now).service.received = s.service.received)
    (hm : ∀ now rest, rest.length = n → Due s (now :: rest) → InsertsIn ts rest (m now)) :
    DrainsIn ts (n + 1) s := by
  intro readings hlength hdue
  obtain ⟨now, rest, rfl⟩ := List.exists_cons_of_length_eq_add_one hlength
  obtain ⟨s', hrun, hphase, hpending, hinserted, hsame⟩ :=
    hm now rest (Nat.succ.inj hlength) hdue
  exact ⟨s', (Transition.run_cons step).mpr ⟨m now, hstep now, hrun⟩, hphase, hpending,
    by rw [hinserted, hrows], hsame.trans (hreceived now)⟩

/-- Where nothing is pending and the loop polls, nothing is left to do. -/
theorem drainsIn_done :
    DrainsIn [] 0 ⟨⟨⟨[], channel, .polling⟩, rows, received⟩, start, clock⟩ := by
  intro readings hlength _
  obtain rfl := List.eq_nil_of_length_eq_zero hlength
  exact ⟨_, rfl, rfl, rfl, (List.append_nil rows).symm, rfl⟩

/-- No check is to come once the loop sends. -/
theorem due_sending (readings : List DateTime) :
    Due ⟨⟨⟨queue, channel, .sending⟩, rows, received⟩, start, clock⟩ readings :=
  Or.inr fun _ hi => by cases hi

theorem due_draining (hand : List Message) (readings : List DateTime) :
    Due ⟨⟨⟨queue, channel, .draining hand⟩, rows, received⟩, start, clock⟩ readings :=
  Or.inr fun _ hi => by cases hi

/-- The batch in hand, and the `Clear` after it. -/
theorem drainsIn_executing (hand : List Message) (hts : hand = ts.map some) :
    DrainsIn ts 2 ⟨⟨⟨[], channel, .executing hand⟩, rows, received⟩, start, clock⟩ := by
  intro readings hlength _
  obtain ⟨first, rest, rfl⟩ := List.exists_cons_of_length_eq_add_one hlength
  obtain ⟨second, rfl⟩ := List.length_eq_one_iff.mp (Nat.succ.inj hlength)
  have hcommands : commands hand = some ts := commands_eq_some.mpr hts
  have hexecute : step ⟨⟨⟨[], channel, .executing hand⟩, rows, received⟩, start, clock⟩
      (.saver first true)
        = some ⟨⟨⟨[], channel, .clearing⟩, rows ++ ts, received⟩, start, first⟩ := by
    rw [step, Event.forget, SaveInBackground.step, Saver.step]
    dsimp only
    rw [hcommands]
    rfl
  refine ⟨_, (Transition.run_cons step).mpr ⟨_, hexecute, rfl⟩, rfl, rfl, ?_, rfl⟩
  exact List.append_nil _

/-- From the drain on: one step for each message, the end of the drain, the batch, the `Clear`. -/
theorem drainsIn_draining (channel : Nat) (start : DateTime) (ts : List Transaction)
    (received queue : List Message) : ∀ (rows : List Transaction) (hand : List Message)
    (clock : DateTime), hand ++ queue = ts.map some → DrainsIn ts (queue.length + 3)
      ⟨⟨⟨queue, channel, .draining hand⟩, rows, received⟩, start, clock⟩ := by
  induction queue with
  | nil =>
    intro rows hand clock hts
    rw [List.append_nil] at hts
    refine DrainsIn.next _ (fun _ => rfl) (fun _ => List.append_nil rows) (fun _ => rfl) ?_
    intro now rest hlength _
    exact drainsIn_executing hand hts rest hlength (Or.inr fun _ hi => by cases hi)
  | cons m queue ih =>
    intro rows hand clock hts
    refine DrainsIn.next _ (fun _ => rfl) (fun _ => List.append_nil rows) (fun _ => rfl) ?_
    intro now rest hlength _
    refine ih (rows ++ []) (hand ++ [m]) now ?_ rest hlength (due_draining _ rest)
    rw [List.append_assoc]
    exact hts

theorem drainsIn_sending (hts : queue = ts.map some) : ∃ n ≤ queue.length + 4, ∀ clock,
    DrainsIn ts n ⟨⟨⟨queue, channel, .sending⟩, rows, received⟩, start, clock⟩ := by
  cases queue with
  | nil =>
    obtain rfl : ts = [] := List.map_eq_nil_iff.mp hts.symm
    refine ⟨1, by omega, fun clock => ?_⟩
    refine DrainsIn.next _ (fun _ => rfl) (fun _ => List.append_nil rows) (fun _ => rfl) ?_
    intro now rest hlength _
    obtain rfl := List.eq_nil_of_length_eq_zero hlength
    exact drainsIn_done [] rfl (Or.inr fun _ _ _ hnow => by cases hnow)
  | cons m queue =>
    refine ⟨_, le_refl _, fun clock => ?_⟩
    refine DrainsIn.next _ (fun _ => rfl) (fun _ => List.append_nil rows) (fun _ => rfl) ?_
    intro now rest hlength _
    exact drainsIn_draining channel start ts received (m :: queue) (rows ++ []) [] now hts rest
      hlength (due_draining [] rest)

theorem drainsIn_checking (hts : queue = ts.map some) : ∃ n ≤ queue.length + 5, ∀ clock,
    DrainsIn ts n ⟨⟨⟨queue, channel, .checking⟩, rows, received⟩, start, clock⟩ := by
  obtain ⟨n, hn, hdrains⟩ := @drainsIn_sending queue channel (rows ++ []) ts received start hts
  refine ⟨n + 1, by omega, fun clock => ?_⟩
  refine DrainsIn.next (fun now => ⟨⟨⟨queue, channel,
    if maxQueuedMessages ≤ queue.length ∨ hasElapsed start now = true then .sending else .polling⟩,
    rows ++ [], received⟩, start, now⟩) (fun _ => rfl) (fun _ => List.append_nil rows)
    (fun _ => rfl) fun now rest hlength hdue => ?_
  -- the reading is due, so the loop sends
  have hsend : maxQueuedMessages ≤ queue.length ∨ hasElapsed start now = true :=
    hdue.imp_right fun h => h 0 rfl now rfl
  rw [if_pos hsend]
  exact hdrains now rest hlength (due_sending rest)

theorem drainsIn_polling (hts : queue = ts.map some) : ∃ n ≤ queue.length + 6, ∀ clock,
    DrainsIn ts n ⟨⟨⟨queue, channel, .polling⟩, rows, received⟩, start, clock⟩ := by
  cases queue with
  | nil =>
    obtain rfl : ts = [] := List.map_eq_nil_iff.mp hts.symm
    exact ⟨0, by omega, fun _ => drainsIn_done⟩
  | cons m queue =>
    obtain ⟨n, hn, hdrains⟩ :=
      @drainsIn_checking (m :: queue) channel (rows ++ []) ts received start hts
    refine ⟨n + 1, by omega, fun clock => ?_⟩
    refine DrainsIn.next _ (fun _ => rfl) (fun _ => List.append_nil rows) (fun _ => rfl) ?_
    intro now rest hlength hdue
    refine hdrains now rest hlength (hdue.imp_right fun h i hi => ?_)
    cases hi
    exact h 1 rfl

theorem drainsIn_tryingRead (hts : queue = ts.map some) : ∃ n ≤ queue.length + 7, ∀ clock,
    DrainsIn ts n ⟨⟨⟨queue, channel, .tryingRead⟩, rows, received⟩, start, clock⟩ := by
  cases channel with
  | zero =>
    obtain ⟨n, hn, hdrains⟩ := @drainsIn_polling queue 0 (rows ++ []) ts received start hts
    refine ⟨n + 1, by omega, fun clock => ?_⟩
    refine DrainsIn.next _ (fun _ => rfl) (fun _ => List.append_nil rows) (fun _ => rfl) ?_
    intro now rest hlength hdue
    refine hdrains now rest hlength (hdue.imp_right fun h i hi => ?_)
    cases hi
    exact h 2 rfl
  | succ channel =>
    obtain ⟨n, hn, hdrains⟩ := @drainsIn_checking queue channel (rows ++ []) ts received start hts
    refine ⟨n + 1, by omega, fun clock => ?_⟩
    refine DrainsIn.next _ (fun _ => rfl) (fun _ => List.append_nil rows) (fun _ => rfl) ?_
    intro now rest hlength hdue
    refine hdrains now rest hlength (hdue.imp_right fun h i hi => ?_)
    cases hi
    exact h 1 rfl

end Alone

/-- **What is queued gets to the table.**  Take any state in which the saver runs, is not between a
    batch and its `Clear`, and has only transactions pending.  The saver left alone with a table
    that takes its batch inserts all that is pending, in order, within `n + 7` steps, `n` being the
    length of the queue, whatever its clock reads meanwhile: if only a hundred messages wait, or at
    the check of the loop three seconds have passed since the last batch. -/
theorem pending_is_drained (s : State) (ts : List Transaction)
    (hpending : s.service.saver.pending = ts.map some)
    (hexited : s.service.saver.phase ≠ .exited) (hclearing : s.service.saver.phase ≠ .clearing)
    (hexecuting : ∀ hand, s.service.saver.phase ≠ .executing hand) :
    ∃ n ≤ s.service.saver.queue.length + 7, ∀ readings : List DateTime, readings.length = n →
      Due s readings → InsertsIn ts readings s := by
  obtain ⟨⟨⟨queue, channel, phase⟩, rows, received⟩, start, clock⟩ := s
  dsimp only at hexited hclearing hexecuting ⊢
  cases phase with
  | polling =>
    have hqueue : queue = ts.map some := hpending
    obtain ⟨n, hn, hdrains⟩ := @drainsIn_polling queue channel rows ts received start hqueue
    exact ⟨n, by omega, hdrains clock⟩
  | tryingRead =>
    have hqueue : queue = ts.map some := hpending
    obtain ⟨n, hn, hdrains⟩ := @drainsIn_tryingRead queue channel rows ts received start hqueue
    exact ⟨n, hn, hdrains clock⟩
  | checking =>
    have hqueue : queue = ts.map some := hpending
    obtain ⟨n, hn, hdrains⟩ := @drainsIn_checking queue channel rows ts received start hqueue
    exact ⟨n, by omega, hdrains clock⟩
  | sending =>
    have hqueue : queue = ts.map some := hpending
    obtain ⟨n, hn, hdrains⟩ := @drainsIn_sending queue channel rows ts received start hqueue
    exact ⟨n, by omega, hdrains clock⟩
  | draining hand =>
    exact ⟨_, by omega, drainsIn_draining channel start ts received queue rows hand clock hpending⟩
  | executing hand => exact absurd rfl (hexecuting hand)
  | clearing => exact absurd rfl hclearing
  | exited => exact absurd rfl hexited

/-- One message in the queue. -/
def oneWaiting : State :=
  ⟨⟨⟨[some (SaveInBackground.credited 1)], 0, .polling⟩, [], [some (SaveInBackground.credited 1)]⟩,
    .ofTicks 5 .localTime, .ofTicks 5 .localTime⟩

/-- A clock that reaches three seconds at the check, one step after the start. -/
def ticking (n : Nat) : List DateTime :=
  (List.range n).map fun i => .ofTicks (30000004 + i) .localTime

theorem pending_is_drained_one : ∃ n ≤ 8, InsertsIn [SaveInBackground.credited 1] (ticking n)
    oneWaiting := by
  obtain ⟨n, hn, hdrained⟩ := pending_is_drained oneWaiting [SaveInBackground.credited 1] rfl
    (fun hc => nomatch hc) (fun hc => nomatch hc) (fun _ hc => nomatch hc)
  refine ⟨n, hn, hdrained (ticking n) ?_ (Or.inr fun i hi now hnow => ?_)⟩
  · rw [ticking, List.length_map, List.length_range]
  · cases hi
    rw [ticking, List.getElem?_map] at hnow
    obtain ⟨j, hj, rfl⟩ := Option.map_eq_some_iff.mp hnow
    obtain ⟨-, rfl⟩ := List.getElem?_eq_some_iff.mp hj
    rw [List.getElem_range]
    decide

end SaverClock

end Rinha
