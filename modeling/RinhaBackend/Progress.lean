/-
  Nothing gets stuck.

  From every state in which no thread has ended, a run in which nothing fails leads to rest, where
  every call has returned, every statement is answered, every start-up has ended, and every message
  is delivered and drained (`exists_rest`).  So what the results about a system at rest say is said
  of a state that can always be reached, and a success that has been answered can always get to the
  table (`successes_reach_the_table`).

  After failures the instances have to start again, all of them: a saver works on the one connection
  it opened, so a thread that is still there may have lost it.  What they were serving is cut off,
  a call half done with its record in the cache and not published.  From there on nothing fails and
  nothing is lost, and the calls not taken up before are served (`comes_to_rest`).

  The proof counts what is left to do (`work`).  A call has at most seven steps to go; each is
  counted as often as makes up for a message to every instance.  A saver goes round its loop, so
  what it has left to do is not where it stands alone: its queue counts too, and a place where the
  queue has been drained counts more than one where it has yet to be (`saverWork`).
-/
import RinhaBackend.Losses

namespace Rinha

namespace Progress

open Deployment (Node fanOut natsDestination isRunning)
open EndToEnd (Action Booted Inserted State acknowledged calm hear heard insertedBy publishedBy step
  twoBooting wakeAt)
open Losses (lostBy)
open LostUpdate (Returned isReturned)
open RequestRun (Call Phase Moves stepCall)
open SaveInBackground (Saver commands)
open ServiceRun (Extrato stepStartUp)

/-- Nothing is left to do. -/
structure Rested (s : State) : Prop where
  returned : Returned s.service.posts
  answered : ∀ x ∈ s.service.extratos, x.response.isSome = true
  ended : ∀ rows ∈ s.service.startUps, rows = []
  quiet : ∀ node ∈ s.nodes, node.inbox = [] ∧ node.saver.pending = []

/-- The calls and the start-ups that go on. -/
structure Scope where
  call : Nat → Prop
  startUp : Nat → Prop

/-- All of them. -/
def Scope.all : Scope := ⟨fun _ => True, fun _ => True⟩

/-- Those that are still to come when every instance starts again in the state `s`: a call that has
    been taken up, or a start-up under way, ends with its process. -/
def Scope.after (s : State) : Scope where
  call i := ∃ c, s.service.posts.calls[i]? = some c ∧ c.phase = .received
  startUp i := s.service.startUps.length ≤ i

/-- A step of nothing else. -/
def Scope.Within (scope : Scope) : Action → Prop
  | .service (.post a) => scope.call a.call
  | .service (.startUp i) => scope.startUp i
  | .service (.extrato _ _) | .deliver _ _ | .saver _ _ _ | .stop _ | .restart _ => True

/-- Nothing of what goes on is left to do. -/
structure RestedIn (scope : Scope) (s : State) : Prop where
  returned : ∀ i c, s.service.posts.calls[i]? = some c → scope.call i → isReturned c = true
  answered : ∀ x ∈ s.service.extratos, x.response.isSome = true
  ended : ∀ i rows, s.service.startUps[i]? = some rows → scope.startUp i → rows = []
  quiet : ∀ node ∈ s.nodes, node.inbox = [] ∧ node.saver.pending = []

theorem RestedIn.rested {s : State} (h : RestedIn Scope.all s) : Rested s := by
  refine ⟨fun c hc => ?_, h.answered, fun rows hrows => ?_, h.quiet⟩
  · obtain ⟨i, hi⟩ := List.mem_iff_getElem?.mp hc
    exact h.returned i c hi trivial
  · obtain ⟨i, hi⟩ := List.mem_iff_getElem?.mp hrows
    exact h.ended i rows hi trivial

/-! ## The service -/

/-- The steps a call has at most to go. -/
def stepsLeft : Phase → Nat
  | .received => 7
  | .reading => 6
  | .read _ => 5
  | .adding .. => 4
  | .trimming .. => 3
  | .publishing .. => 2
  | .responding .. => 1
  | .returned .. => 0

/-- Only a call that has not been taken up has all its steps to go. -/
theorem received_of_stepsLeft {phase : Phase} (h : stepsLeft phase = 7) : phase = .received := by
  cases phase <;> first | rfl | cases h

/-- One for a statement that has not been answered. -/
def unanswered (x : Extrato) : Nat := if x.response.isSome then 0 else 1

/-- The steps the service has at most to go. -/
def serviceWork (service : ServiceRun.State) : Nat :=
  (service.posts.calls.map fun c => stepsLeft c.phase).sum + (service.extratos.map unanswered).sum
    + (service.startUps.map List.length).sum

section Service

variable {json : TransactionJson}

theorem stepsLeft_of_moves {call : Call} {now : DateTime} {stores stores' : Stores}
    {phase phase' : Phase} (h : Moves json call now stores phase stores' phase') :
    stepsLeft phase' < stepsLeft phase := by
  cases h <;> simp only [stepsLeft] <;> omega

/-- A call that has not returned has a next step. -/
theorem exists_stepCall {call : Call} (h : isReturned call = false) (now : DateTime)
    (stores : Stores) : ∃ r, stepCall json call now stores = some r := by
  obtain ⟨host, accountId, request, phase⟩ := call
  rw [stepCall]
  cases phase with
  | received =>
    dsimp only
    split
    · exact ⟨_, rfl⟩
    · exact ⟨_, rfl⟩
  | reading =>
    dsimp only
    split
    · exact ⟨_, rfl⟩
    · exact ⟨_, rfl⟩
    · split
      · exact ⟨_, rfl⟩
      · exact ⟨_, rfl⟩
  | read account =>
    dsimp only
    split
    · exact ⟨_, rfl⟩
    · exact ⟨_, rfl⟩
  | adding account t | trimming account t | publishing account t | responding account t =>
    exact ⟨_, rfl⟩
  | returned executed outcome => cases h

/-- A start-up with rows left takes the next one. -/
theorem exists_stepStartUp {rows : List Row} (h : rows ≠ []) (db : Redis) :
    ∃ r, stepStartUp json rows db = some r := by
  rcases rows with _ | ⟨row, rest⟩
  · exact absurd rfl h
  · rw [stepStartUp]
    split
    · exact ⟨_, rfl⟩
    · split
      · exact ⟨_, rfl⟩
      · exact ⟨_, rfl⟩

theorem length_lt_of_stepStartUp {rows rest : List Row} {db db' : Redis}
    (h : stepStartUp json rows db = some (db', rest)) : rest.length < rows.length := by
  rcases rows with _ | ⟨row, rows⟩
  · cases h
  · rw [stepStartUp] at h
    split at h
    · cases h
      exact Nat.lt_succ_self _
    · split at h
      · cases h
        exact Nat.succ_pos _
      · cases h
        exact Nat.lt_succ_self _

/-- **Every step of the service** leaves it less to do. -/
theorem serviceWork_step {s s' : ServiceRun.State} {a : ServiceRun.Action}
    (h : ServiceRun.step json s a = some s') : serviceWork s' < serviceWork s := by
  cases a with
  | post a =>
    obtain ⟨posts, hposts, rfl⟩ := ServiceRun.step_post h
    obtain ⟨call, stores, phase, hcall, hmove, rfl⟩ := RequestRun.step_moves hposts
    have hlt := stepsLeft_of_moves hmove
    have hsum := Parties.sum_map_set (fun c => stepsLeft c.phase) hcall { call with phase := phase }
    rw [serviceWork, serviceWork, RequestRun.State.put]
    dsimp only at hsum ⊢
    omega
  | extrato i now =>
    obtain ⟨x, hx, hnone, rfl⟩ := ServiceRun.step_extrato h
    have hbefore : unanswered x = 1 := by
      rw [unanswered, hnone]
      rfl
    have hsum := Parties.sum_map_set unanswered hx { x with
      response := some (Endpoints.getBankStatementAsync json x.accountId now
        (s.posts.storesOf x.host)) }
    rw [show unanswered { x with response := some (Endpoints.getBankStatementAsync json x.accountId
      now (s.posts.storesOf x.host)) } = 0 from rfl] at hsum
    rw [serviceWork, serviceWork]
    dsimp only
    omega
  | startUp i =>
    obtain ⟨rows, db, rest, hrows, hstep, rfl⟩ := ServiceRun.step_startUp h
    have hlt := length_lt_of_stepStartUp hstep
    have hsum := Parties.sum_map_set List.length hrows rest
    rw [serviceWork, serviceWork, ServiceRun.State.putStartUp]
    dsimp only
    omega

/-- Where a property fails of some entry of a list, it fails at some place. -/
theorem exists_getElem?_of_not_forall {α : Type} {P : α → Prop} {l : List α}
    (h : ¬ ∀ a ∈ l, P a) : ∃ (i : Nat) (a : α), l[i]? = some a ∧ ¬ P a := by
  by_contra hall
  refine h fun a ha => by_contra fun hne => ?_
  obtain ⟨i, hi⟩ := List.mem_iff_getElem?.mp ha
  exact hall ⟨i, a, hi, hne⟩

/-- **The service has a step** while something that goes on is left to do. -/
theorem exists_service_step {scope : Scope} {s : State}
    (h : ¬ ((∀ i c, s.service.posts.calls[i]? = some c → scope.call i → isReturned c = true) ∧
      (∀ x ∈ s.service.extratos, x.response.isSome = true) ∧
      ∀ i rows, s.service.startUps[i]? = some rows → scope.startUp i → rows = [])) :
    ∃ a service, calm s (.service a) = true ∧ scope.Within (.service a) ∧
      ServiceRun.step json s.service a = some service := by
  rcases not_and_or.mp h with hposts | h
  · simp only [not_forall] at hposts
    obtain ⟨i, c, hi, hscope, hnot⟩ := hposts
    obtain ⟨⟨stores, phase⟩, hstep⟩ := @exists_stepCall json c (Bool.eq_false_iff.mpr hnot)
      (.ofTicks 0 .localTime) (s.service.posts.storesOf c.host)
    have hpost : RequestRun.step json s.service.posts ⟨i, .ofTicks 0 .localTime⟩
        = some (s.service.posts.put i c stores phase) :=
      RequestRun.step_eq_some.mpr ⟨c, stores, phase, hi, hstep, rfl⟩
    refine ⟨.post ⟨i, .ofTicks 0 .localTime⟩, ?_⟩
    rw [ServiceRun.step, hpost, Option.map_some]
    exact ⟨_, rfl, hscope, rfl⟩
  rcases not_and_or.mp h with hextratos | hstartUps
  · obtain ⟨i, x, hi, hnot⟩ := exists_getElem?_of_not_forall hextratos
    refine ⟨.extrato i (.ofTicks 0 .localTime), ?_⟩
    rw [ServiceRun.step, hi, Option.bind_some, Option.not_isSome_iff_eq_none.mp hnot]
    exact ⟨_, rfl, trivial, rfl⟩
  · simp only [not_forall] at hstartUps
    obtain ⟨i, rows, hi, hscope, hne⟩ := hstartUps
    obtain ⟨⟨db, rest⟩, hstep⟩ := @exists_stepStartUp json rows hne s.service.posts.redis
    refine ⟨.startUp i, s.service.putStartUp i db rest, rfl, hscope, ?_⟩
    rw [ServiceRun.step, hi, Option.bind_some, hstep, Option.map_some]

end Service

/-! ## The instances -/

/-- What a saver has left to do, with ten for each message of its queue: it polls, checks, sends
    and drains going down, and a drained queue makes up for the way back. -/
def saverWork (saver : Saver) : Nat :=
  10 * saver.queue.length +
    match saver.phase with
    | .draining _ => if saver.queue.isEmpty then 11 else 4
    | .executing _ => 10
    | .clearing => 9
    | .tryingRead => 8
    | .polling => 7
    | .checking => 6
    | .sending => 5
    | .exited => 0

/-- A message is worth more before it is taken. -/
def nodeWork (node : Node) : Nat := 11 * node.inbox.length + saverWork node.saver

/-- What the whole has left to do. -/
def work (s : State) : Nat :=
  (11 * s.nodes.length + 1) * serviceWork s.service + (s.nodes.map nodeWork).sum

/-- The saver's thread is where it neither holds a batch nor the lock. -/
def isIdle (saver : Saver) : Bool :=
  match saver.phase with
  | .polling | .tryingRead | .checking | .sending => true
  | .draining _ | .executing _ | .clearing | .exited => false

theorem isRunning_of_isIdle {saver : Saver} (h : isIdle saver = true) :
    isRunning saver = false := by
  obtain ⟨queue, channel, phase⟩ := saver
  cases phase <;> first | rfl | cases h

theorem inHand_of_isIdle {saver : Saver} (h : isIdle saver = true) : saver.inHand = [] := by
  obtain ⟨queue, channel, phase⟩ := saver
  cases phase <;> first | rfl | cases h

/-- A saver that has something pending has a message in its queue or a batch in hand. -/
theorem busy_of_pending {saver : Saver} (h : saver.pending ≠ []) :
    saver.queue ≠ [] ∨ isIdle saver = false := by
  by_contra hc
  obtain ⟨hqueue, hidle⟩ := not_or.mp hc
  rw [not_not] at hqueue
  rw [Bool.not_eq_false] at hidle
  exact h (by rw [Saver.pending, inHand_of_isIdle hidle, hqueue, List.append_nil])

/-- A thread that has not ended has a next step. -/
theorem exists_saver_step {saver : Saver} (h : saver.phase ≠ .exited) (elapsed ok : Bool) :
    ∃ saver' rows, saver.step elapsed ok = some (saver', rows) := by
  obtain ⟨queue, channel, phase⟩ := saver
  cases phase with
  | polling | checking | sending | clearing => exact ⟨_, _, rfl⟩
  | tryingRead => cases channel <;> exact ⟨_, _, rfl⟩
  | draining hand => cases queue <;> exact ⟨_, _, rfl⟩
  | executing hand =>
    rw [Saver.step]
    dsimp only
    split <;> exact ⟨_, _, rfl⟩
  | exited => exact absurd rfl h

/-- **A step of a saver** that has a message in its queue or a batch in hand leaves it less to do,
    whether or not the batch succeeds, unless it checks too early. -/
theorem saverWork_step {saver saver' : Saver} {elapsed ok : Bool} {rows : List Transaction}
    (h : saver.step elapsed ok = some (saver', rows))
    (hbusy : saver.queue ≠ [] ∨ isIdle saver = false)
    (helapsed : saver.phase = .checking → elapsed = true) : saverWork saver' < saverWork saver := by
  obtain ⟨queue, channel, phase⟩ := saver
  cases phase with
  | polling =>
    cases h
    rcases queue with _ | ⟨m, queue⟩
    · exact absurd rfl (hbusy.resolve_right Bool.noConfusion)
    · exact Nat.add_lt_add_left (show 6 < 7 by decide) _
  | tryingRead =>
    rcases channel with _ | n
    · cases h
      exact Nat.add_lt_add_left (show 7 < 8 by decide) _
    · cases h
      exact Nat.add_lt_add_left (show 6 < 8 by decide) _
  | checking =>
    cases h
    rw [if_pos (Or.inr (helapsed rfl))]
    exact Nat.add_lt_add_left (show 5 < 6 by decide) _
  | sending =>
    cases h
    rcases queue with _ | ⟨m, queue⟩
    · exact absurd rfl (hbusy.resolve_right Bool.noConfusion)
    · exact Nat.add_lt_add_left (show 4 < 5 by decide) _
  | draining hand =>
    rcases queue with _ | ⟨m, queue⟩
    · cases h
      exact Nat.add_lt_add_left (show 10 < 11 by decide) _
    · cases h
      -- the message is worth ten, and the last one makes the queue an empty one
      cases queue <;> simp [saverWork]
  | executing hand =>
    rw [Saver.step] at h
    dsimp only at h
    split at h
    · cases h
      exact Nat.add_lt_add_left (show 9 < 10 by decide) _
    · cases h
      exact Nat.add_lt_add_left (show 7 < 10 by decide) _
  | clearing =>
    cases h
    exact Nat.add_lt_add_of_le_of_lt (Nat.mul_le_mul_left 10 (Nat.zero_le _)) (show 7 < 9 by decide)
  | exited => cases h

/-- No step of a saver ends its thread; that is `stop`. -/
theorem phase_ne_exited {saver saver' : Saver} {elapsed ok : Bool} {rows : List Transaction}
    (h : saver.step elapsed ok = some (saver', rows)) : saver'.phase ≠ .exited := by
  intro hexited
  obtain ⟨queue, channel, phase⟩ := saver
  cases phase with
  | polling =>
    cases h
    cases queue <;> cases hexited
  | tryingRead =>
    cases channel with
    | zero =>
      cases h
      cases hexited
    | succ n =>
      cases h
      cases hexited
  | checking =>
    cases h
    dsimp only at hexited
    split at hexited
    · cases hexited
    · cases hexited
  | sending =>
    cases h
    cases queue <;> cases hexited
  | draining hand =>
    cases queue with
    | nil =>
      cases h
      cases hexited
    | cons m queue =>
      cases h
      cases hexited
  | executing hand =>
    rw [Saver.step] at h
    dsimp only at h
    split at h
    · cases h
      cases hexited
    · cases h
      cases hexited
  | clearing =>
    cases h
    cases hexited
  | exited => cases h

/-- A saver that is idle takes a message, and its instance has less to do. -/
theorem exists_take {node : Node} {t : Transaction} {inbox : List Transaction}
    (hinbox : node.inbox = t :: inbox) (hidle : isIdle node.saver = true) :
    ∃ saver, node.saver.enqueue (some t) = some saver ∧ saver.phase = node.saver.phase ∧
      nodeWork ⟨inbox, saver⟩ < nodeWork node := by
  have htake : ∃ saver, node.saver.enqueue (some t) = some saver ∧
      saver.phase = node.saver.phase ∧ saverWork saver = saverWork node.saver + 10 := by
    obtain ⟨_, ⟨queue, channel, phase⟩⟩ := node
    cases phase with
    | polling | tryingRead | checking | sending =>
      refine ⟨_, rfl, rfl, ?_⟩
      rw [saverWork, saverWork, List.length_append, List.length_singleton]
      exact Nat.add_right_comm _ _ _
    | draining _ | executing _ | clearing | exited => cases hidle
  obtain ⟨saver, hsaver, hphase, hwork⟩ := htake
  refine ⟨saver, hsaver, hphase, ?_⟩
  rw [nodeWork, nodeWork, hinbox, List.length_cons]
  dsimp only
  omega

/-- A message to every instance. -/
theorem sum_nodeWork_fanOut (t : Transaction) (nodes : List Node) :
    ((fanOut natsDestination t nodes).map nodeWork).sum
      = (nodes.map nodeWork).sum + 11 * nodes.length := by
  induction nodes with
  | nil => rfl
  | cons node nodes ih =>
    have hsame : Deployment.subscription = natsDestination := rfl
    have hfirst : nodeWork (if Deployment.subscription = natsDestination then
        { node with inbox := node.inbox ++ [t] } else node) = nodeWork node + 11 := by
      rw [if_pos hsame, nodeWork, nodeWork, List.length_append, List.length_singleton]
      dsimp only
      omega
    rw [fanOut, List.map_cons, ← fanOut, List.map_cons, List.sum_cons, hfirst, ih, List.map_cons,
      List.sum_cons, List.length_cons]
    omega

/-- A wake-up gives a saver nothing more to do. -/
theorem sum_nodeWork_wakeAt (i : Nat) (nodes : List Node) :
    ((wakeAt i nodes).map nodeWork).sum = (nodes.map nodeWork).sum := by
  rcases hnode : nodes[i]? with _ | node
  · rw [wakeAt, List.modify_eq_self (List.getElem?_eq_none_iff.mp hnode)]
  · rw [EndToEnd.wakeAt_eq_set hnode]
    exact Parties.sum_map_set_of_eq hnode rfl

/-- What the instances notice of a step of the service is a message at most. -/
theorem sum_nodeWork_hear (service : ServiceRun.State) (nodes : List Node)
    (a : ServiceRun.Action) :
    ((hear service nodes a).map nodeWork).sum ≤ (nodes.map nodeWork).sum + 11 * nodes.length := by
  cases a with
  | post a =>
    rw [hear]
    split
    · rw [heard]
      split
      · exact Nat.le_of_eq (sum_nodeWork_fanOut _ nodes)
      · rw [sum_nodeWork_wakeAt]
        exact Nat.le_add_right _ _
      · exact Nat.le_add_right _ _
    · exact Nat.le_add_right _ _
  | extrato i now => exact Nat.le_add_right _ _
  | startUp i => exact Nat.le_add_right _ _

/-- No thread has ended. -/
def Running (nodes : List Node) : Prop := ∀ node ∈ nodes, node.saver.phase ≠ .exited

theorem Running.set {nodes : List Node} (h : Running nodes) (i : Nat) (inbox : List Transaction)
    {saver : Saver} (hsaver : saver.phase ≠ .exited) : Running (nodes.set i ⟨inbox, saver⟩) := by
  intro m hm
  rcases List.mem_or_eq_of_mem_set hm with hm | rfl
  · exact h m hm
  · exact hsaver

/-- The instances hear nothing that ends a thread. -/
theorem Running.hear {nodes : List Node} (h : Running nodes) (service : ServiceRun.State)
    (a : ServiceRun.Action) : Running (hear service nodes a) := by
  cases a with
  | post a =>
    rw [EndToEnd.hear]
    split
    · next call _ =>
      rw [heard]
      split
      · intro node hnode
        obtain ⟨old, hold, rfl⟩ := List.mem_map.mp hnode
        exact h old hold
      · rcases hold : nodes[call.host]? with _ | old
        · rw [wakeAt, List.modify_eq_self (List.getElem?_eq_none_iff.mp hold)]
          exact h
        · rw [EndToEnd.wakeAt_eq_set hold]
          exact h.set _ old.inbox (h old (List.mem_of_getElem? hold))
      · exact h
    · exact h
  | extrato i now => exact h
  | startUp i => exact h

/-! ## Coming to rest -/

section Rest

variable {json : TransactionJson} {scope : Scope} {s : State}

/-- An instance with a message to take or a batch to bring home has a step, and less to do after
    it. -/
theorem exists_node_step (hrunning : Running s.nodes)
    (h : ¬ ∀ node ∈ s.nodes, node.inbox = [] ∧ node.saver.pending = []) :
    ∃ a s', (calm s a = true ∧ scope.Within a) ∧ step json s a = some s' ∧ Running s'.nodes ∧
      work s' < work s := by
  obtain ⟨i, node, hi, hnot⟩ := exists_getElem?_of_not_forall h
  have hphase := hrunning node (List.mem_of_getElem? hi)
  by_cases hbusy : node.saver.queue ≠ [] ∨ isIdle node.saver = false
  · obtain ⟨saver, rows, hstep⟩ := exists_saver_step hphase true
      (EndToEnd.batchOk true node.saver s.table)
    have hlt := saverWork_step hstep hbusy fun _ => rfl
    have hsum := Parties.sum_map_set nodeWork hi { node with saver := saver }
    refine ⟨.saver i true true, { s with
      nodes := s.nodes.set i { node with saver := saver }
      table := (SaveInBackground.executeNonQueryAsync rows s.table).getD s.table },
      ⟨rfl, trivial⟩, ?_, hrunning.set i node.inbox (phase_ne_exited hstep), ?_⟩
    · rw [step, hi, Option.bind_some, hstep, Option.map_some]
    · rw [work, work]
      rw [nodeWork, nodeWork] at hsum
      dsimp only at hsum ⊢
      rw [List.length_set]
      omega
  · -- the saver waits at an empty queue, so there is a message to take
    have hpending : node.saver.pending = [] := by_contra fun h => hbusy (busy_of_pending h)
    have hidle : isIdle node.saver = true := Bool.not_eq_false _ ▸ (not_or.mp hbusy).2
    rcases hinbox : node.inbox with _ | ⟨t, inbox⟩
    · exact absurd ⟨hinbox, hpending⟩ hnot
    obtain ⟨saver, hsaver, hsame, hlt⟩ := exists_take hinbox hidle
    have hsum := Parties.sum_map_set nodeWork hi ⟨inbox, saver⟩
    have hphase' : saver.phase ≠ .exited := by rwa [hsame]
    refine ⟨.deliver i 0, { s with nodes := s.nodes.set i ⟨inbox, saver⟩ }, ⟨?_, trivial⟩, ?_,
      hrunning.set i inbox hphase', ?_⟩
    · rw [calm, hi, Option.all_some, isRunning_of_isIdle hidle]
      rfl
    · rw [step, hi, Option.bind_some, hinbox, List.getElem?_cons_zero, Option.bind_some, hsaver,
        Option.map_some]
      rfl
    · rw [work, work]
      dsimp only
      rw [List.length_set]
      omega

/-- **While something is left to do** there is a step at which nothing fails, and less to do after
    it. -/
theorem exists_step (hrunning : Running s.nodes) (h : ¬ RestedIn scope s) :
    ∃ a s', (calm s a = true ∧ scope.Within a) ∧ step json s a = some s' ∧ Running s'.nodes ∧
      work s' < work s := by
  by_cases hservice :
      (∀ i c, s.service.posts.calls[i]? = some c → scope.call i → isReturned c = true) ∧
        (∀ x ∈ s.service.extratos, x.response.isSome = true) ∧
        ∀ i rows, s.service.startUps[i]? = some rows → scope.startUp i → rows = []
  · refine exists_node_step hrunning fun hquiet => h ?_
    exact ⟨hservice.1, hservice.2.1, hservice.2.2, hquiet⟩
  · obtain ⟨a, service, hcalm, hwithin, hstep⟩ := @exists_service_step json scope s hservice
    refine ⟨.service a, { s with service := service, nodes := hear s.service s.nodes a },
      ⟨hcalm, hwithin⟩, ?_, hrunning.hear s.service a, ?_⟩
    · rw [step, hstep, Option.map_some]
    · -- the step is worth one message to every instance, and one more
      have hsum := sum_nodeWork_hear s.service s.nodes a
      have hmul : (11 * s.nodes.length + 1) * (serviceWork service + 1)
          ≤ (11 * s.nodes.length + 1) * serviceWork s.service :=
        Nat.mul_le_mul_left _ (serviceWork_step hstep)
      rw [Nat.mul_succ] at hmul
      rw [work, work]
      dsimp only
      rw [EndToEnd.length_hear]
      omega

end Rest

/-- **Nothing gets stuck.**  From any state in which no thread has ended some run in which nothing
    fails leads all that goes on to rest, in at most `work s` steps. -/
theorem exists_restedIn (json : TransactionJson) (scope : Scope) {s : State}
    (hrunning : Running s.nodes) :
    ∃ actions s', Transition.AllSteps (step json) (fun s a => calm s a = true ∧ scope.Within a) s
        actions ∧
      Transition.run (step json) s actions = some s' ∧ RestedIn scope s' ∧
      actions.length ≤ work s :=
  Transition.exists_run_of_measure (step json) (I := fun s => Running s.nodes) work
    (fun _ hI hP => exists_step hI hP) (work s) s (Nat.le_refl _) hrunning

/-- Where no call or start-up has been cut off, all of them end. -/
theorem exists_rest (json : TransactionJson) {s : State} (hrunning : Running s.nodes) :
    ∃ actions s', Transition.AllSteps (step json) (fun s a => calm s a = true) s actions ∧
      Transition.run (step json) s actions = some s' ∧ Rested s' ∧ actions.length ≤ work s := by
  obtain ⟨actions, s', hall, hrun, hrested, hlength⟩ := exists_restedIn json Scope.all hrunning
  exact ⟨actions, s', hall.mono _ fun _ _ h => h.1, hrun, hrested.rested, hlength⟩

/-! ## After any failures -/

/-- Every instance starts again. -/
def restartAll (n : Nat) : List Action := (List.range n).map Action.restart

/-- Nothing fails in a step: it is calm, the batch of its saver goes through, and no copy is
    lost. -/
structure Smooth (s : State) (a : Action) : Prop where
  calm : EndToEnd.calm s a = true
  batch : ∀ i elapsed up, a = .saver i elapsed up → ∀ node, s.nodes[i]? = some node →
    EndToEnd.batchOk up node.saver s.table = true
  kept : lostBy s a = []

section Failures

variable {json : TransactionJson} {base : List Row} {n : Nat} {s s' : State}
  {ts : List Transaction}

/-- Where the database takes every batch, a calm step is one in which nothing fails. -/
theorem smooth_of_calm (hI : EndToEnd.Ready json base n s ts) {a : Action}
    (hcalm : calm s a = true) : Smooth s a := by
  refine ⟨hcalm, fun i elapsed up ha node hnode => ?_, ?_⟩
  · subst ha
    obtain rfl : up = true := hcalm
    exact hI.batchOk hnode
  · cases a with
    | service a => rfl
    | deliver i j => rfl
    | saver i elapsed up =>
      obtain rfl : up = true := hcalm
      rcases hnode : s.nodes[i]? with _ | node
      · rw [lostBy, hnode]
      · rw [lostBy, hnode]
        dsimp only
        rw [hI.batchOk hnode, Losses.lostBySaver]
        split
        · rfl
        · next hphase =>
          -- what the `Clear` finds is nothing: no message has arrived during the batch
          have htidy := hI.tidy node (List.mem_of_getElem? hnode)
          rw [htidy.drained (by rw [isRunning, hphase])]
          rfl
        · rfl
    | stop i => cases hcalm
    | restart i => cases hcalm

/-- The calls keep what can be inserted through any run on a local clock. -/
theorem insertable_run (hs : Booted base n s)
    (hnul : ∀ c ∈ s.service.posts.calls, ∀ d, c.request.descricao = some d → Table.nul ∉ d)
    {actions : List Action}
    (hlocal : ∀ a ∈ actions, EndToEnd.onLocalClock a = true)
    (hrun : Transition.run (step json) s actions = some s') :
    EndToEnd.Insertable s'.service := by
  have hend := Transition.run_invariant_of (step json)
    (I := fun s => (∃ ts, EndToEnd.Integral json base n s ts) ∧ EndToEnd.Insertable s.service)
    (C := fun _ a => EndToEnd.onLocalClock a = true)
    (fun _ _ _ ⟨⟨_, hintegral⟩, hinsertable⟩ hlocal h =>
      ⟨⟨_, EndToEnd.integral_step hintegral h⟩,
        hinsertable.step hintegral.faithful.sound hlocal h⟩)
    actions s s' ⟨⟨_, hs.integral⟩, hs.insertable hnul⟩
    (Transition.allSteps_of_forall _ (fun a ha _ => hlocal a ha) s) hrun
  exact hend.2

/-- When every instance starts again, each has an empty inbox and an empty queue, and the calls are
    where they were. -/
theorem run_restarts (s : State) : ∀ k ≤ s.nodes.length, ∃ m,
    Transition.run (step json) s (restartAll k) = some m ∧
      m.nodes = List.replicate k EndToEnd.started ++ s.nodes.drop k ∧
      m.service.posts = s.service.posts := by
  intro k
  induction k with
  | zero => exact fun _ => ⟨s, rfl, rfl, rfl⟩
  | succ k ih =>
    intro hk
    obtain ⟨m, hm, hnodes, hposts⟩ := ih (by omega)
    have hnext : s.nodes.drop k = s.nodes[k] :: s.nodes.drop (k + 1) := List.drop_eq_getElem_cons hk
    have hnode : m.nodes[k]? = some s.nodes[k] := by
      rw [hnodes, List.getElem?_append_right (List.length_replicate.le), List.length_replicate,
        Nat.sub_self, hnext, List.getElem?_cons_zero]
    refine ⟨{ m with
      service := { m.service with startUps := m.service.startUps ++ [m.table] }
      nodes := m.nodes.set k EndToEnd.started }, ?_, ?_, hposts⟩
    · rw [restartAll, List.range_succ, List.map_append, List.map_singleton, ← restartAll,
        Transition.run_concat]
      refine ⟨m, hm, ?_⟩
      rw [step, hnode, Option.map_some]
    · dsimp only
      rw [hnodes, List.set_append_right _ _ List.length_replicate.le, List.length_replicate,
        Nat.sub_self, hnext, List.set_cons_zero, List.replicate_succ', List.append_assoc,
        List.singleton_append]

end Failures

/-- **Rest after any failures.**  Whatever has happened in a run of `n` instances (batches that
    failed, instances that stopped or started again, messages that arrived during a batch), with no
    U+0000 in a description: once every instance starts again, a run in which nothing more fails and
    nothing more is lost leads to rest.  It takes no step of a call or a start-up that was under
    way; the calls not taken up by then return, the statements are answered, and the new start-ups
    end.  Every copy of what was published is a row of the table or was lost by then. -/
theorem comes_to_rest (json : TransactionJson) (base : List Row) (n : Nat) (s s' : State)
    (hs : Booted base n s)
    (hnul : ∀ c ∈ s.service.posts.calls, ∀ d, c.request.descricao = some d → Table.nul ∉ d)
    (actions : List Action)
    (hlocal : ∀ a ∈ actions, EndToEnd.onLocalClock a = true)
    (hrun : Transition.run (step json) s actions = some s') :
    ∃ m calms s'', Transition.run (step json) s' (restartAll n) = some m ∧
      Transition.AllSteps (step json) (fun s a => Smooth s a ∧ (Scope.after s').Within a) m calms ∧
      Transition.run (step json) m calms = some s'' ∧ RestedIn (Scope.after s') s'' ∧
      Inserted base (Transition.yields (step json) insertedBy s (actions ++ restartAll n ++ calms))
        s''.table ∧
      ∀ t, (Transition.yields (step json) insertedBy s (actions ++ restartAll n ++ calms)).count t
          + (Transition.yields (step json) lostBy s (actions ++ restartAll n)).count t
        = n * (publishedBy s''.service).count t := by
  have hlength : s'.nodes.length = n := (EndToEnd.integral_run hs hrun).accounted.nodes
  obtain ⟨m, hm, hnodes, hposts⟩ := @run_restarts json s' n hlength.ge
  rw [List.drop_of_length_le hlength.le, List.append_nil] at hnodes
  have hmiddle : Transition.run (step json) s (actions ++ restartAll n) = some m := by
    rw [Transition.run_append _ hrun, hm]
  -- the instances have just started, and what the calls have made can be inserted
  have hready : EndToEnd.Ready json base n m
      (Transition.yields (step json) insertedBy s (actions ++ restartAll n)) := by
    refine ⟨EndToEnd.integral_run hs hmiddle, ?_, ?_⟩
    · rw [hnodes]
      exact EndToEnd.tidy_replicate
    · obtain ⟨hnul', hstorable⟩ := insertable_run hs hnul hlocal hrun
      rw [← hposts] at hnul' hstorable
      exact ⟨hnul', hstorable⟩
  have hrunning : Running m.nodes := by
    intro node hnode
    rw [hnodes] at hnode
    obtain rfl := List.eq_of_mem_replicate hnode
    exact nofun
  obtain ⟨calms, s'', hcalms, hend, hrested, -⟩ :=
    exists_restedIn json (Scope.after s') hrunning
  have hsmooth : Transition.AllSteps (step json)
      (fun s a => Smooth s a ∧ (Scope.after s').Within a) m calms :=
    Transition.AllSteps.of_invariant _ (I := fun s => ∃ ts, EndToEnd.Ready json base n s ts)
      (fun _ _ _ ⟨_, hI⟩ hcalm h => ⟨_, EndToEnd.ready_step hI hcalm.1 h⟩)
      (fun _ _ ⟨_, hI⟩ hcalm => ⟨smooth_of_calm hI hcalm.1, hcalm.2⟩) calms ⟨_, hready⟩ hcalms
  have hall : Transition.run (step json) s (actions ++ restartAll n ++ calms) = some s'' := by
    rw [Transition.run_append _ hmiddle, hend]
  refine ⟨m, calms, s'', hm, hsmooth, hend, hrested,
    (EndToEnd.integral_run hs hall).accounted.inserted, fun t => ?_⟩
  have hload : (s''.nodes.map (Deployment.load t)).sum = 0 :=
    EndToEnd.sum_load_of_quiet hrested.quiet t
  have hnothing : Transition.yields (step json) lostBy m calms = [] :=
    Transition.yields_eq_nil _ _ (hsmooth.mono _ fun _ _ h => h.1.kept)
  have hcount := Losses.count_run hs hall t
  rw [Transition.yields_append _ lostBy hmiddle, hnothing, List.append_nil] at hcount
  omega

/-- Two instances over the seed of account 1, and three credits of 10. -/
def threeCredits : State :=
  ⟨⟨⟨Redis.empty, [], fun _ => 0, [⟨0, 1, TransactionService.creditOfTen, .received⟩,
      ⟨1, 1, TransactionService.creditOfTen, .received⟩,
      ⟨0, 1, TransactionService.creditOfTen, .received⟩]⟩, [],
    [[InitializeRedis.seedRow], [InitializeRedis.seedRow]]⟩,
    List.replicate 2 EndToEnd.started, [InitializeRedis.seedRow]⟩

theorem threeCredits_booted : Booted [InitializeRedis.seedRow] 2 threeCredits := by
  refine ⟨rfl, fun c hc => ?_, fun rows hrows => ?_, rfl, rfl⟩
  · simp only [threeCredits, List.mem_cons, List.not_mem_nil, or_false] at hc
    rcases hc with rfl | rfl | rfl <;> rfl
  · rcases List.mem_pair.mp hrows with rfl | rfl <;> rfl

theorem threeCredits_nul : ∀ c ∈ threeCredits.service.posts.calls, ∀ d,
    c.request.descricao = some d → Table.nul ∉ d := by
  intro c hc d hd
  have hrequest : c.request = TransactionService.creditOfTen := by
    simp only [threeCredits, List.mem_cons, List.not_mem_nil, or_false] at hc
    rcases hc with rfl | rfl | rfl <;> rfl
  rw [hrequest] at hd
  cases hd
  decide

/-- The first credit is answered, and the database refuses the batch it is in; the second has been
    added to the set when the thread of its instance ends; the third has not been taken up. -/
def refused : List Action :=
  .service (.startUp 0) :: (List.replicate 7 (.service (.post ⟨0, .ofTicks 5 .localTime⟩))
    ++ [.deliver 0 0] ++ List.replicate 6 (.saver 0 true false)
    ++ List.replicate 4 (.service (.post ⟨1, .ofTicks 6 .localTime⟩)) ++ [.stop 1])

theorem comes_to_rest_refused : ∃ s' m calms s'',
    Transition.run (step systemTextJson) threeCredits refused = some s' ∧ ¬ Running s'.nodes ∧
      Transition.run (step systemTextJson) s' (restartAll 2) = some m ∧
      Transition.run (step systemTextJson) m calms = some s'' ∧
      RestedIn (Scope.after s') s'' ∧ (Scope.after s').call 2 ∧
      (Transition.yields (step systemTextJson) lostBy threeCredits
        (refused ++ restartAll 2)).length = 2 ∧
      ∀ t, (Transition.yields (step systemTextJson) insertedBy threeCredits
            (refused ++ restartAll 2 ++ calms)).count t
          + (Transition.yields (step systemTextJson) lostBy threeCredits
            (refused ++ restartAll 2)).count t
        = 2 * (publishedBy s''.service).count t := by
  have hend : (Transition.run (step systemTextJson) threeCredits refused).any (fun s =>
      (¬ ∀ node ∈ s.nodes, node.saver.phase ≠ .exited) ∧
        (s.service.posts.calls[2]?).any (fun c => stepsLeft c.phase = 7)) = true := by
    decide +kernel
  obtain ⟨s', hrun, hall⟩ := (Option.any_eq_true _ _).mp hend
  obtain ⟨hstopped, hthird⟩ := of_decide_eq_true hall
  obtain ⟨c, hc, hseven⟩ := (Option.any_eq_true _ _).mp hthird
  have hreceived : c.phase = .received := received_of_stepsLeft (of_decide_eq_true hseven)
  obtain ⟨m, calms, s'', hm, -, hcalms, hrested, -, hcount⟩ := comes_to_rest systemTextJson
    [InitializeRedis.seedRow] 2 threeCredits s' threeCredits_booted threeCredits_nul refused
    (by decide) hrun
  exact ⟨s', m, calms, s'', hrun, hstopped, hm, hcalms, hrested,
    ⟨c, hc, hreceived⟩, by decide +kernel, hcount⟩

/-! ## Successes get to the table -/

/-- The records of the successes answered so far, call by call. -/
def acknowledgedBy (s : State) : List Transaction :=
  s.service.posts.calls.filterMap fun c => acknowledged c.phase

section Successes

variable {json : TransactionJson} {base : List Row} {n : Nat} {s s' : State}

/-- A success stays a success. -/
theorem acknowledged_step {a : Action} (h : step json s a = some s') :
    (acknowledgedBy s).Sublist (acknowledgedBy s') := by
  rw [acknowledgedBy, acknowledgedBy]
  rcases EndToEnd.step_service h with ⟨b, rfl, hb⟩ | ⟨-, hsame⟩ | ⟨i, rfl, hrestart⟩
  · cases b with
    | post b =>
      obtain ⟨posts, hposts, hservice⟩ := ServiceRun.step_post hb
      obtain ⟨call, stores, phase, hcall, hmove, rfl⟩ := RequestRun.step_moves hposts
      rw [hservice]
      refine Parties.sublist_filterMap_set hcall ?_ _
      obtain ⟨host, accountId, request, before⟩ := call
      dsimp only at hmove ⊢
      cases hmove <;> rfl
    | extrato i now =>
      obtain ⟨x, -, -, hservice⟩ := ServiceRun.step_extrato hb
      rw [hservice]
    | startUp i =>
      obtain ⟨rows, db, rest, -, -, hservice⟩ := ServiceRun.step_startUp hb
      rw [hservice]
      exact List.Sublist.refl _
  · rw [hsame]
  · rw [hrestart]

/-- While nothing stops, no thread ends. -/
theorem running_step {a : Action} (hI : Running s.nodes) (hcalm : calm s a = true)
    (h : step json s a = some s') : Running s'.nodes := by
  cases a with
  | service a =>
    obtain ⟨service, -, rfl⟩ := Option.map_eq_some_iff.mp h
    exact hI.hear s.service a
  | deliver i j =>
    obtain ⟨node, hnode, hbind⟩ := Option.bind_eq_some_iff.mp h
    obtain ⟨t, -, hmap⟩ := Option.bind_eq_some_iff.mp hbind
    obtain ⟨saver, hsaver, rfl⟩ := Option.map_eq_some_iff.mp hmap
    refine hI.set i _ ?_
    rw [(SaveInBackground.pending_enqueue hsaver).2]
    exact hI node (List.mem_of_getElem? hnode)
  | saver i elapsed up =>
    obtain ⟨node, hnode, hmap⟩ := Option.bind_eq_some_iff.mp h
    obtain ⟨⟨saver, rows⟩, hsaver, rfl⟩ := Option.map_eq_some_iff.mp hmap
    exact hI.set i node.inbox (phase_ne_exited hsaver)
  | stop i => cases hcalm
  | restart i => cases hcalm

end Successes

/-- **A success can always get to the table.**  From every state of a run in which nothing fails,
    some run in which nothing fails leads to rest, and then the rows added to the table are those
    of the successes, `n` for each, the ones answered before among them. -/
theorem successes_reach_the_table (json : TransactionJson) (base : List Row) (n : Nat)
    (s s' : State) (hs : Booted base n s)
    (hnul : ∀ c ∈ s.service.posts.calls, ∀ d, c.request.descricao = some d → Table.nul ∉ d)
    (actions : List Action)
    (hcalm : Transition.AllSteps (step json) (fun s a => calm s a = true) s actions)
    (hrun : Transition.run (step json) s actions = some s') :
    ∃ more s'' ts, Transition.AllSteps (step json) (fun s a => calm s a = true) s' more ∧
      Transition.run (step json) s' more = some s'' ∧ Rested s'' ∧ Inserted base ts s''.table ∧
      (∀ t, ts.count t = n * (acknowledgedBy s'').count t) ∧
      (acknowledgedBy s').Sublist (acknowledgedBy s'') := by
  have hstart : Running s.nodes := by
    intro node hnode
    rw [hs.nodes] at hnode
    obtain rfl := List.eq_of_mem_replicate hnode
    exact nofun
  have hrunning : Running s'.nodes := Transition.run_invariant_of (step json)
    (I := fun s => Running s.nodes) (fun _ _ _ hI hcalm h => running_step hI hcalm h) actions s s'
    hstart hcalm hrun
  obtain ⟨more, s'', hmore, hend, hrested, -⟩ := exists_rest json hrunning
  have hlast := EndToEnd.calm_run hs hnul (hcalm.append _ hrun hmore)
    ((Transition.run_append _ hrun).trans hend)
  refine ⟨more, s'', _, hmore, hend, hrested, hlast.integral.accounted.inserted,
    hlast.count_acknowledged hrested.returned hrested.quiet, ?_⟩
  exact Transition.run_invariant (step json)
    (I := fun m => (acknowledgedBy s').Sublist (acknowledgedBy m))
    (fun _ _ _ hI h => hI.trans (acknowledged_step h)) (List.Sublist.refl _) hend

/-- The credit has been answered, and nothing is delivered yet. -/
def answered : List Action :=
  .service (.startUp 0) :: List.replicate 7 (.service (.post ⟨0, .ofTicks 5 .localTime⟩))

theorem successes_reach_the_table_answered : ∃ s' more s'' ts,
    Transition.run (step systemTextJson) twoBooting answered = some s' ∧
      (acknowledgedBy s').length = 1 ∧ s'.table.length = 1 ∧
      Transition.run (step systemTextJson) s' more = some s'' ∧ Rested s'' ∧
      Inserted [InitializeRedis.seedRow] ts s''.table ∧
      (∀ t, ts.count t = 2 * (acknowledgedBy s'').count t) ∧
      (acknowledgedBy s').Sublist (acknowledgedBy s'') := by
  have hend : (Transition.run (step systemTextJson) twoBooting answered).any (fun s' =>
      (acknowledgedBy s').length = 1 ∧ s'.table.length = 1) = true := by
    decide +kernel
  have hcalm : Transition.AllSteps (step systemTextJson) (fun s a => calm s a = true) twoBooting
      answered := by decide +kernel
  obtain ⟨s', hrun, hall⟩ := (Option.any_eq_true _ _).mp hend
  obtain ⟨hone, htable⟩ := of_decide_eq_true hall
  obtain ⟨more, s'', ts, -, hmore, hrested, hinserted, hcount, hkept⟩ := successes_reach_the_table
    systemTextJson [InitializeRedis.seedRow] 2 twoBooting s' EndToEnd.twoBooting_booted
    EndToEnd.twoBooting_nul answered hcalm hrun
  exact ⟨s', more, s'', ts, hrun, hone, htable, hmore, hrested, hinserted, hcount, hkept⟩

end Progress

end Rinha
