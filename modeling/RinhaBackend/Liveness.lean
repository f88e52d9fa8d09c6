/-
  What must happen.

  `Progress` says that rest can always be reached.  Here a run goes on for ever, and the scheduler
  is fair (`Fair`): a call that has not returned gets its next step, a message that waits is
  delivered, every thread gets its turns, and the clock goes on.  Then, while nothing fails, rest is
  reached and never left (`eventually_rests`), and the table has the rows of every success
  (`successes_are_stored`).

  One kind of thing after the other comes to an end.  The service has only so many steps to take;
  after the last of them inboxes only shrink; and after the last delivery a saver is on its own.  It
  goes round its loop until it sends, which is where the clock comes in: while it does not send the
  stopwatch runs on, and three seconds pass.
-/
import Mathlib.Data.Finset.Range
import Mathlib.Order.Filter.Finite
import RinhaBackend.Lib.Behaviour
import RinhaBackend.Progress

namespace Rinha

namespace Liveness

open Filter
open Deployment (Node)
open EndToEnd (Action Booted Inserted State calm hear step)
open LostUpdate (Returned isReturned)
open Progress (Rested Running acknowledgedBy isIdle saverWork serviceWork)
open SaveInBackground (Saver)
open Transition (Behaves)

/-- The scheduler is fair.  Each call, statement and start-up is again and again at its end or given
    a step, each subscription is again and again empty or served, and each thread gets its turns.
    And the stopwatch of a saver that has stopped sending comes to show three seconds whenever the
    saver looks. -/
structure Fair (ρ : Nat → State) (α : Nat → Action) : Prop where
  posts : ∀ i, ∃ᶠ t in atTop, (∀ c, (ρ t).service.posts.calls[i]? = some c → isReturned c = true) ∨
    ∃ now, α t = .service (.post ⟨i, now⟩)
  extratos : ∀ i, ∃ᶠ t in atTop,
    (∀ x, (ρ t).service.extratos[i]? = some x → x.response.isSome = true) ∨
      ∃ now, α t = .service (.extrato i now)
  startUps : ∀ i, ∃ᶠ t in atTop, (∀ rows, (ρ t).service.startUps[i]? = some rows → rows = []) ∨
    α t = .service (.startUp i)
  delivers : ∀ i, ∃ᶠ t in atTop, (∀ node, (ρ t).nodes[i]? = some node → node.inbox = []) ∨
    ∃ j, α t = .deliver i j
  turns : ∀ i < (ρ 0).nodes.length, ∃ᶠ t in atTop, ∃ elapsed up, α t = .saver i elapsed up
  clock : ∀ i, (∀ᶠ t in atTop, ∀ node, (ρ t).nodes[i]? = some node → node.saver.phase ≠ .sending) →
    ∀ᶠ t in atTop, ∀ node elapsed up, (ρ t).nodes[i]? = some node → node.saver.phase = .checking →
      α t = .saver i elapsed up → elapsed = true

/-! ## A saver on its own -/

/-- The thread goes round its loop. -/
def isLooping (saver : Saver) : Bool :=
  match saver.phase with
  | .polling | .tryingRead | .checking => true
  | .sending | .draining _ | .executing _ | .clearing | .exited => false

/-- What a saver has left to do, rounds of its loop not counted. -/
def roundWork (saver : Saver) : Nat :=
  if isLooping saver then 10 * saver.queue.length + 8 else saverWork saver

section Alone

variable {saver saver' : Saver} {elapsed ok : Bool} {rows : List Transaction}

/-- On its own a saver gets nothing new. -/
theorem pending_nil_step (h : saver.step elapsed ok = some (saver', rows))
    (hpending : saver.pending = []) : saver'.pending = [] := by
  obtain ⟨-, hqueue⟩ := List.append_eq_nil_iff.mp hpending
  cases SaveInBackground.Saver.step_moves h with
  | quiet _ hsame _ _ _ _ => rw [hsame, hpending]
  | insert _ _ _ => exact hqueue
  | fail _ _ _ => exact hqueue
  | clear _ => rfl

/-- **A step of a saver** with something pending leaves it less to do, or is a step of its loop. -/
theorem roundWork_step (h : saver.step elapsed ok = some (saver', rows))
    (hpending : saver.pending ≠ []) :
    roundWork saver' < roundWork saver ∨
      isLooping saver = true ∧ isLooping saver' = true ∧ roundWork saver' = roundWork saver := by
  obtain ⟨queue, channel, phase⟩ := saver
  cases phase with
  | polling =>
    cases h
    cases queue <;> exact Or.inr ⟨rfl, rfl, rfl⟩
  | tryingRead =>
    cases channel with
    | zero =>
      cases h
      exact Or.inr ⟨rfl, rfl, rfl⟩
    | succ n =>
      cases h
      exact Or.inr ⟨rfl, rfl, rfl⟩
  | checking =>
    cases h
    dsimp only
    split
    · exact Or.inl (Nat.add_lt_add_left (show 5 < 8 by decide) _)
    · exact Or.inr ⟨rfl, rfl, rfl⟩
  | sending =>
    rcases queue with _ | ⟨m, queue⟩
    · exact absurd rfl hpending
    · cases h
      exact Or.inl (Nat.add_lt_add_left (show 4 < 5 by decide) _)
  | draining hand =>
    have hlt := Progress.saverWork_step h (Or.inr rfl) nofun
    cases queue with
    | nil =>
      cases h
      exact Or.inl hlt
    | cons m queue =>
      cases h
      exact Or.inl hlt
  | executing hand =>
    rw [Saver.step] at h
    dsimp only at h
    split at h
    · cases h
      exact Or.inl (Nat.add_lt_add_left (show 9 < 10 by decide) _)
    · cases h
      exact Or.inl (Nat.add_lt_add_left (show 8 < 10 by decide) _)
  | clearing =>
    cases h
    exact Or.inl (Nat.add_lt_add_of_le_of_lt (Nat.mul_le_mul_left 10 (Nat.zero_le _))
      (show 8 < 9 by decide))
  | exited => cases h

end Alone

/-- **A saver on its own** comes to have nothing pending, for good.  `took t e` says that it takes a
    step at `t`, and whether three seconds have passed. -/
theorem eventually_drained (σ : Nat → Saver) (took : Nat → Bool → Prop)
    (hstep : ∀ᶠ t in atTop, ∀ e, took t e → ∃ ok rows, (σ t).step e ok = some (σ (t + 1), rows))
    (hstay : ∀ᶠ t in atTop, (∀ e, ¬ took t e) → σ (t + 1) = σ t)
    (hturns : ∃ᶠ t in atTop, ∃ e, took t e)
    (hclock : (∀ᶠ t in atTop, (σ t).phase ≠ .sending) →
      ∀ᶠ t in atTop, ∀ e, took t e → (σ t).phase = .checking → e = true) :
    ∀ᶠ t in atTop, (σ t).pending = [] := by
  have hkeep : ∀ᶠ t in atTop, (σ t).pending = [] → (σ (t + 1)).pending = [] := by
    filter_upwards [hstep, hstay] with t hstep hstay hpending
    by_cases htook : ∃ e, took t e
    · obtain ⟨e, he⟩ := htook
      obtain ⟨ok, rows, hs⟩ := hstep e he
      exact pending_nil_step hs hpending
    · rw [hstay (not_exists.mp htook), hpending]
  by_contra hnot
  have hpending : ∀ᶠ t in atTop, (σ t).pending ≠ [] := by
    by_contra hc
    exact hnot (Transition.eventually_of_frequently hkeep hc)
  -- rounds of the loop not counted, its work comes to an end: it does nothing but loop
  have hround : ∀ᶠ t in atTop, roundWork (σ (t + 1)) ≤ roundWork (σ t) := by
    filter_upwards [hstep, hstay, hpending] with t hstep hstay hpending
    by_cases htook : ∃ e, took t e
    · obtain ⟨e, he⟩ := htook
      obtain ⟨ok, rows, hs⟩ := hstep e he
      rcases roundWork_step hs hpending with hlt | ⟨-, -, hsame⟩
      · exact hlt.le
      · exact hsame.le
    · rw [hstay (not_exists.mp htook)]
  have hloops : ∀ᶠ t in atTop, ∀ e, took t e →
      isLooping (σ t) = true ∧ isLooping (σ (t + 1)) = true := by
    filter_upwards [hstep, hpending,
      Transition.eventually_eq_of_le (f := fun t => roundWork (σ t)) hround]
      with t hstep hpending hsame e he
    obtain ⟨ok, rows, hs⟩ := hstep e he
    rcases roundWork_step hs hpending with hlt | ⟨hloop, hloop', -⟩
    · exact absurd hsame hlt.ne
    · exact ⟨hloop, hloop'⟩
  have hlooping : ∀ᶠ t in atTop, isLooping (σ t) = true := by
    refine Transition.eventually_of_frequently ?_ ((hturns.and_eventually hloops).mono
      fun t ht => (ht.2 _ ht.1.choose_spec).1)
    filter_upwards [hloops, hstay] with t hloops hstay hloop
    by_cases htook : ∃ e, took t e
    · exact (hloops _ htook.choose_spec).2
    · rw [hstay (not_exists.mp htook)]
      exact hloop
  -- so it does not send, three seconds pass, and every turn leaves it less to do
  have helapsed := hclock (hlooping.mono fun t hloop hsending => by
    rw [isLooping, hsending] at hloop
    cases hloop)
  have hless : ∀ᶠ t in atTop, ∀ e, took t e → saverWork (σ (t + 1)) < saverWork (σ t) := by
    filter_upwards [hstep, hpending, helapsed] with t hstep hpending helapsed e he
    obtain ⟨ok, rows, hs⟩ := hstep e he
    exact Progress.saverWork_step hs (Progress.busy_of_pending hpending) (helapsed e he)
  have hwork : ∀ᶠ t in atTop, saverWork (σ (t + 1)) ≤ saverWork (σ t) := by
    filter_upwards [hless, hstay] with t hless hstay
    by_cases htook : ∃ e, took t e
    · exact (hless _ htook.choose_spec).le
    · rw [hstay (not_exists.mp htook)]
  obtain ⟨t, ⟨e, he⟩, hless, hsame⟩ := (hturns.and_eventually
    (hless.and (Transition.eventually_eq_of_le (f := fun t => saverWork (σ t)) hwork))).exists
  exact absurd hsame (hless e he).ne

/-! ## The whole -/

section Whole

variable {json : TransactionJson} {s s' : State} {a : Action}

/-- A step of a saver, told from the instances. -/
def SaverStep (s : State) (a : Action) (s' : State) : Prop :=
  ∃ i elapsed up node ok saver rows, a = .saver i elapsed up ∧ s.nodes[i]? = some node ∧
    node.saver.step elapsed ok = some (saver, rows) ∧
    s'.nodes = s.nodes.set i { node with saver := saver }

/-- What it is to an instance: a step of its saver, or nothing. -/
theorem SaverStep.at (h : SaverStep s a s') {i : Nat} {node node' : Node}
    (hnode : s.nodes[i]? = some node) (hnode' : s'.nodes[i]? = some node') :
    (∃ elapsed up ok rows, a = .saver i elapsed up ∧
        node.saver.step elapsed ok = some (node'.saver, rows)) ∨
      (∀ elapsed up, a ≠ .saver i elapsed up) ∧ node' = node := by
  obtain ⟨k, elapsed, up, old, ok, saver, rows, rfl, hold, hsaver, hnodes⟩ := h
  rw [hnodes] at hnode'
  by_cases hik : k = i
  · subst hik
    obtain rfl := Option.some.inj (hold.symm.trans hnode)
    rw [List.getElem?_set_self (List.getElem?_eq_some_iff.mp hold).1] at hnode'
    cases hnode'
    exact Or.inl ⟨elapsed, up, ok, rows, rfl, hsaver⟩
  · rw [List.getElem?_set_ne hik, hnode] at hnode'
    cases hnode'
    refine Or.inr ⟨fun e u he => ?_, rfl⟩
    cases he
    exact hik rfl

/-- A step at which nothing fails is one of the service, which has less to do after it, a delivery,
    or one of a saver; the last two leave the service alone. -/
theorem step_calm (hcalm : calm s a = true) (h : step json s a = some s') :
    (∃ b, a = .service b ∧ serviceWork s'.service < serviceWork s.service) ∨
      ((∀ b, a ≠ .service b) ∧ s'.service = s.service ∧
        ((∃ i j node t saver, a = .deliver i j ∧ s.nodes[i]? = some node ∧
            node.inbox[j]? = some t ∧ s'.nodes = s.nodes.set i ⟨node.inbox.eraseIdx j, saver⟩) ∨
          SaverStep s a s')) := by
  cases a with
  | service b =>
    obtain ⟨service, hservice, rfl⟩ := Option.map_eq_some_iff.mp h
    exact Or.inl ⟨b, rfl, Progress.serviceWork_step hservice⟩
  | deliver i j =>
    obtain ⟨node, hnode, hbind⟩ := Option.bind_eq_some_iff.mp h
    obtain ⟨t, ht, hmap⟩ := Option.bind_eq_some_iff.mp hbind
    obtain ⟨saver, -, rfl⟩ := Option.map_eq_some_iff.mp hmap
    exact Or.inr ⟨nofun, rfl, Or.inl ⟨i, j, node, t, saver, rfl, hnode, ht, rfl⟩⟩
  | saver i elapsed up =>
    obtain ⟨node, hnode, hmap⟩ := Option.bind_eq_some_iff.mp h
    obtain ⟨⟨saver, rows⟩, hsaver, rfl⟩ := Option.map_eq_some_iff.mp hmap
    refine Or.inr ⟨nofun, rfl, Or.inr ?_⟩
    exact ⟨i, elapsed, up, node, _, saver, rows, rfl, hnode, hsaver, rfl⟩
  | stop i => cases hcalm
  | restart i => cases hcalm

theorem length_nodes_step (hcalm : calm s a = true) (h : step json s a = some s') :
    s'.nodes.length = s.nodes.length := by
  rcases step_calm hcalm h with ⟨b, rfl, -⟩ | ⟨-, -, ⟨_, _, _, _, _, -, -, -, hnodes⟩ |
    ⟨_, _, _, _, _, _, _, -, -, -, hnodes⟩⟩
  · obtain ⟨service, -, rfl⟩ := Option.map_eq_some_iff.mp h
    exact EndToEnd.length_hear _ _ _
  · rw [hnodes, List.length_set]
  · rw [hnodes, List.length_set]

end Whole

section Runs

variable {json : TransactionJson} {ρ : Nat → State} {α : Nat → Action}
  (hrun : Behaves (step json) ρ α) (hcalm : ∀ t, calm (ρ t) (α t) = true) (hfair : Fair ρ α)

include hrun hcalm

/-- The service comes to the end of its steps. -/
theorem eventually_no_service : ∀ᶠ t in atTop, (∀ b, α t ≠ .service b) ∧
    (ρ (t + 1)).service = (ρ t).service := by
  have hle : ∀ t, serviceWork (ρ (t + 1)).service ≤ serviceWork (ρ t).service := by
    intro t
    rcases step_calm (hcalm t) (hrun t) with ⟨b, -, hlt⟩ | ⟨-, hsame, -⟩
    · exact hlt.le
    · rw [hsame]
  filter_upwards [Transition.eventually_eq_of_le (f := fun t => serviceWork (ρ t).service)
    (Eventually.of_forall hle)] with t hsame
  rcases step_calm (hcalm t) (hrun t) with ⟨b, -, hlt⟩ | ⟨hno, hservice, -⟩
  · exact absurd hsame hlt.ne
  · exact ⟨hno, hservice⟩

/-- And the broker to the end of its deliveries: what is left are steps of the savers. -/
theorem eventually_alone : ∀ᶠ t in atTop, SaverStep (ρ t) (α t) (ρ (t + 1)) := by
  -- while the service stands still a step lowers the number of messages, or is one of a saver
  have hcases : ∀ᶠ t in atTop,
      ((ρ (t + 1)).nodes.map fun node => node.inbox.length).sum
          < ((ρ t).nodes.map fun node => node.inbox.length).sum ∨
        ((ρ (t + 1)).nodes.map fun node => node.inbox.length).sum
          = ((ρ t).nodes.map fun node => node.inbox.length).sum ∧
        SaverStep (ρ t) (α t) (ρ (t + 1)) := by
    filter_upwards [eventually_no_service hrun hcalm] with t hquiet
    rcases step_calm (hcalm t) (hrun t) with ⟨b, hb, -⟩ |
      ⟨-, -, ⟨i, j, node, m, saver, -, hnode, hm, hnodes⟩ | hsaver⟩
    · exact absurd hb (hquiet.1 b)
    · have hsum := Parties.sum_map_set (fun node : Node => node.inbox.length) hnode
        ⟨node.inbox.eraseIdx j, saver⟩
      have hlt := (List.getElem?_eq_some_iff.mp hm).1
      rw [← hnodes] at hsum
      dsimp only at hsum
      rw [List.length_eraseIdx_of_lt hlt] at hsum
      exact Or.inl (by omega)
    · refine Or.inr ⟨?_, hsaver⟩
      obtain ⟨_, _, _, _, _, _, _, -, hnode, -, hnodes⟩ := hsaver
      rw [hnodes]
      exact Parties.sum_map_set_of_eq hnode rfl
  have hle : ∀ᶠ t in atTop, ((ρ (t + 1)).nodes.map fun node => node.inbox.length).sum
      ≤ ((ρ t).nodes.map fun node => node.inbox.length).sum :=
    hcases.mono fun t ht => ht.elim Nat.le_of_lt fun h => h.1.le
  filter_upwards [hcases, Transition.eventually_eq_of_le
    (f := fun t => ((ρ t).nodes.map fun node => node.inbox.length).sum) hle] with t hcases hsame
  rcases hcases with hlt | ⟨-, hsaver⟩
  · exact absurd hsame hlt.ne
  · exact hsaver

include hfair

/-- **The service comes to rest.** -/
theorem eventually_served : ∀ᶠ t in atTop, Returned (ρ t).service.posts ∧
    (∀ x ∈ (ρ t).service.extratos, x.response.isSome = true) ∧
    ∀ rows ∈ (ρ t).service.startUps, rows = [] := by
  have hquiet := eventually_no_service hrun hcalm
  obtain ⟨service, hservice⟩ := Transition.exists_eventually_eq (g := fun t => (ρ t).service)
    (hquiet.mono fun t ht => ht.2)
  have hlast := hquiet.and hservice
  filter_upwards [hservice] with t ht
  rw [ht]
  refine ⟨fun c hc => ?_, fun x hx => ?_, fun rows hrows => ?_⟩
  · obtain ⟨i, hi⟩ := List.mem_iff_getElem?.mp hc
    obtain ⟨u, hturn, ⟨hno, -⟩, hu⟩ := ((hfair.posts i).and_eventually hlast).exists
    rcases hturn with hdone | ⟨now, hpost⟩
    · exact hdone c (by rw [hu]; exact hi)
    · exact absurd hpost (hno _)
  · obtain ⟨i, hi⟩ := List.mem_iff_getElem?.mp hx
    obtain ⟨u, hturn, ⟨hno, -⟩, hu⟩ := ((hfair.extratos i).and_eventually hlast).exists
    rcases hturn with hdone | ⟨now, hextrato⟩
    · exact hdone x (by rw [hu]; exact hi)
    · exact absurd hextrato (hno _)
  · obtain ⟨i, hi⟩ := List.mem_iff_getElem?.mp hrows
    obtain ⟨u, hturn, ⟨hno, -⟩, hu⟩ := ((hfair.startUps i).and_eventually hlast).exists
    rcases hturn with hdone | hstartUp
    · exact hdone rows (by rw [hu]; exact hi)
    · exact absurd hstartUp (hno _)

/-- **Every message is delivered.** -/
theorem eventually_delivered : ∀ᶠ t in atTop, ∀ node ∈ (ρ t).nodes, node.inbox = [] := by
  have halone := eventually_alone hrun hcalm
  obtain ⟨inboxes, hinboxes⟩ := Transition.exists_eventually_eq
    (g := fun t => (ρ t).nodes.map Node.inbox) (by
      filter_upwards [halone] with t ht
      obtain ⟨_, _, _, _, _, _, _, -, hnode, -, hnodes⟩ := ht
      rw [hnodes]
      exact Parties.map_set_of_eq hnode rfl)
  filter_upwards [hinboxes] with t ht node hnode
  obtain ⟨i, hi⟩ := List.mem_iff_getElem?.mp hnode
  obtain ⟨u, hturn, ⟨_, _, _, _, _, _, _, ha, -⟩, hu⟩ :=
    ((hfair.delivers i).and_eventually (halone.and hinboxes)).exists
  obtain ⟨node', hnode', hsame⟩ := Parties.exists_of_map_eq (ht.trans hu.symm) hi
  rcases hturn with hdone | ⟨j, hdeliver⟩
  · rw [← hsame]
    exact hdone node' hnode'
  · rw [ha] at hdeliver
    cases hdeliver

/-- **Every queue is drained.** -/
theorem eventually_quiet : ∀ᶠ t in atTop, ∀ node ∈ (ρ t).nodes, node.saver.pending = [] := by
  have halone := eventually_alone hrun hcalm
  have hlength : ∀ t, (ρ t).nodes.length = (ρ 0).nodes.length := by
    intro t
    induction t with
    | zero => rfl
    | succ t ih => rw [length_nodes_step (hcalm t) (hrun t), ih]
  have hall : ∀ i ∈ Finset.range (ρ 0).nodes.length, ∀ᶠ t in atTop, ∀ node,
      (ρ t).nodes[i]? = some node → node.saver.pending = [] := by
    intro i hi
    rw [Finset.mem_range] at hi
    have hget : ∀ t, ∃ node, (ρ t).nodes[i]? = some node := fun t =>
      ⟨_, List.getElem?_eq_getElem (by rw [hlength t]; exact hi)⟩
    choose node hnode using hget
    refine (eventually_drained (fun t => (node t).saver) (fun t e => ∃ up, α t = .saver i e up)
      ?_ ?_ ?_ ?_).mono ?_
    · filter_upwards [halone] with t ht e htook
      obtain ⟨up, ha⟩ := htook
      rcases ht.at (hnode t) (hnode (t + 1)) with ⟨e', up', ok, rows, ha', hstep⟩ | ⟨hno, -⟩
      · rw [ha] at ha'
        cases ha'
        exact ⟨ok, rows, hstep⟩
      · exact absurd ha (hno e up)
    · filter_upwards [halone] with t ht hno
      rcases ht.at (hnode t) (hnode (t + 1)) with ⟨e, up, _, _, ha, -⟩ | ⟨-, hsame⟩
      · exact absurd ⟨up, ha⟩ (hno e)
      · rw [hsame]
    · exact hfair.turns i hi
    · intro hsending
      refine (hfair.clock i (hsending.mono fun t ht m hm => ?_)).mono fun t ht e htook hphase => ?_
      · rw [hnode t] at hm
        cases hm
        exact ht
      · obtain ⟨up, ha⟩ := htook
        exact ht _ e up (hnode t) hphase ha
    · intro t ht m hm
      rw [hnode t] at hm
      cases hm
      exact ht
  filter_upwards [(eventually_all_finset _).mpr hall] with t ht m hm
  obtain ⟨i, hi⟩ := List.mem_iff_getElem?.mp hm
  refine ht i ?_ m hi
  rw [Finset.mem_range, ← hlength t]
  exact (List.getElem?_eq_some_iff.mp hi).1

end Runs

/-! ## Fairness asks nothing impossible -/

/-- A step of a saver at rest keeps everything at rest. -/
theorem rested_step {json : TransactionJson} {s s' : State} {i : Nat} {elapsed up : Bool}
    (hI : Rested s) (h : step json s (.saver i elapsed up) = some s') : Rested s' := by
  obtain ⟨node, hnode, hmap⟩ := Option.bind_eq_some_iff.mp h
  obtain ⟨⟨saver, rows⟩, hsaver, rfl⟩ := Option.map_eq_some_iff.mp hmap
  refine ⟨hI.returned, hI.answered, hI.ended, fun m hm => ?_⟩
  rcases List.mem_or_eq_of_mem_set hm with hm | rfl
  · exact hI.quiet m hm
  · obtain ⟨hinbox, hpending⟩ := hI.quiet node (List.mem_of_getElem? hnode)
    exact ⟨hinbox, pending_nil_step hsaver hpending⟩

/-- The savers take their turns in order, and look late enough. -/
def inTurn (n t : Nat) : Action := .saver (t % n) true true

/-- At rest they can do so for ever. -/
theorem exists_inTurn {json : TransactionJson} {n : Nat} (hn : 0 < n) (t : Nat) {s : State}
    (hI : Rested s ∧ Running s.nodes ∧ s.nodes.length = n) :
    calm s (inTurn n t) = true ∧ ∃ s', step json s (inTurn n t) = some s' ∧
      Rested s' ∧ Running s'.nodes ∧ s'.nodes.length = n := by
  obtain ⟨hrested, hrunning, hlength⟩ := hI
  have hlt : t % n < s.nodes.length := by
    rw [hlength]
    exact Nat.mod_lt t hn
  have hnode : s.nodes[t % n]? = some (s.nodes.get ⟨t % n, hlt⟩) := List.getElem?_eq_getElem hlt
  obtain ⟨saver, rows, hsaver⟩ := Progress.exists_saver_step
    (hrunning _ (List.mem_of_getElem? hnode)) true (EndToEnd.batchOk true _ s.table)
  have hs : ∃ s', step json s (inTurn n t) = some s' := by
    rw [inTurn, step, hnode, Option.bind_some, hsaver]
    exact ⟨_, rfl⟩
  obtain ⟨s', hs'⟩ := hs
  exact ⟨rfl, s', hs', rested_step hrested hs', Progress.running_step hrunning rfl hs',
    (length_nodes_step rfl hs').trans hlength⟩

/-- **Fairness asks nothing impossible.**  Every run of at least one instance in which nothing fails
    and no thread ends is the beginning of an infinite one of a fair scheduler. -/
theorem exists_fair_run (json : TransactionJson) {s m : State} (hrunning : Running s.nodes)
    (hsome : s.nodes ≠ []) {actions : List Action}
    (hcalm : Transition.AllSteps (step json) (fun s a => calm s a = true) s actions)
    (hm : Transition.run (step json) s actions = some m) :
    ∃ ρ α, ρ 0 = s ∧ (List.range actions.length).map α = actions ∧ Behaves (step json) ρ α ∧
      (∀ t, calm (ρ t) (α t) = true) ∧ Fair ρ α := by
  have hn : 0 < s.nodes.length := List.length_pos_iff.mpr hsome
  have hkept : ∀ {as : List Action} {s₁ s₂ : State},
      Running s₁.nodes ∧ s₁.nodes.length = s.nodes.length →
      Transition.AllSteps (step json) (fun s a => calm s a = true) s₁ as →
      Transition.run (step json) s₁ as = some s₂ →
      Running s₂.nodes ∧ s₂.nodes.length = s.nodes.length := fun hI hcalm hrun =>
    Transition.run_invariant_of (step json)
      (I := fun m => Running m.nodes ∧ m.nodes.length = s.nodes.length)
      (fun _ _ _ hI hcalm h => ⟨Progress.running_step hI.1 hcalm h,
        (length_nodes_step hcalm h).trans hI.2⟩) _ _ _ hI hcalm hrun
  have hmiddle := hkept ⟨hrunning, rfl⟩ hcalm hm
  obtain ⟨more, s', hmore, hrest, hrested, -⟩ := Progress.exists_rest json hmiddle.1
  obtain ⟨ρ, α, hzero, hbegin, hρ, hα, hend⟩ := Transition.exists_behaves
    (C := fun s a => calm s a = true) (inTurn s.nodes.length)
    (fun t s hI => exists_inTurn hn t hI) (actions ++ more)
    ((Transition.run_append _ hm).trans hrest) (hcalm.append _ hm hmore)
    ⟨hrested, hkept hmiddle hmore hrest⟩
  refine ⟨ρ, α, hzero, ?_, hρ, hα, ?_⟩
  · have htake := congrArg (List.take actions.length) hbegin
    rwa [← List.map_take, List.take_range, List.length_append,
      Nat.min_eq_left (Nat.le_add_right _ _), List.take_left] at htake
  have hlast : ∃ᶠ t in atTop, Rested (ρ t) := frequently_atTop.mpr fun t =>
    ⟨(actions ++ more).length + t, Nat.le_add_left t _, (hend t).1.1⟩
  constructor
  · exact fun i => hlast.mono fun t ht => Or.inl fun c hc => ht.returned c (List.mem_of_getElem? hc)
  · exact fun i => hlast.mono fun t ht => Or.inl fun x hx => ht.answered x (List.mem_of_getElem? hx)
  · exact fun i => hlast.mono fun t ht =>
      Or.inl fun rows h => ht.ended rows (List.mem_of_getElem? h)
  · exact fun i => hlast.mono fun t ht => Or.inl fun node h =>
      (ht.quiet node (List.mem_of_getElem? h)).1
  · intro i hi
    rw [hzero] at hi
    refine frequently_atTop.mpr fun t =>
      ⟨(actions ++ more).length + (s.nodes.length * t + i), ?_, true, true, ?_⟩
    · have hle : t ≤ s.nodes.length * t := Nat.le_mul_of_pos_left t hn
      omega
    · rw [(hend _).2, inTurn, Nat.mul_add_mod, Nat.mod_eq_of_lt hi]
  · intro i _
    refine eventually_atTop.mpr ⟨(actions ++ more).length, fun t ht node elapsed up _ _ ha => ?_⟩
    obtain ⟨k, rfl⟩ := Nat.exists_eq_add_of_le ht
    rw [(hend k).2] at ha
    cases ha
    rfl

/-! ## Rest -/

/-- **Rest comes.**  Every infinite run in which nothing fails, of a fair scheduler, is from some
    time on at rest. -/
theorem eventually_rests (json : TransactionJson) (ρ : Nat → State) (α : Nat → Action)
    (hrun : Behaves (step json) ρ α) (hcalm : ∀ t, calm (ρ t) (α t) = true) (hfair : Fair ρ α) :
    ∀ᶠ t in atTop, Rested (ρ t) := by
  filter_upwards [eventually_served hrun hcalm hfair, eventually_delivered hrun hcalm hfair,
    eventually_quiet hrun hcalm hfair] with t hserved hinbox hpending
  exact ⟨hserved.1, hserved.2.1, hserved.2.2, fun node hnode =>
    ⟨hinbox node hnode, hpending node hnode⟩⟩

/-- **Every success is stored.**  In such a run of `n` instances that boot over a table, with no
    U+0000 in a description: from some time on every request has its answer, and the rows added to
    the table are those of the successes, `n` for each. -/
theorem successes_are_stored (json : TransactionJson) (base : List Row) (n : Nat)
    (ρ : Nat → State) (α : Nat → Action) (hs : Booted base n (ρ 0))
    (hnul : ∀ c ∈ (ρ 0).service.posts.calls, ∀ d, c.request.descricao = some d → Table.nul ∉ d)
    (hrun : Behaves (step json) ρ α) (hcalm : ∀ t, calm (ρ t) (α t) = true) (hfair : Fair ρ α) :
    ∀ᶠ t in atTop, Rested (ρ t) ∧ ∃ ts, Inserted base ts (ρ t).table ∧
      ∀ u, ts.count u = n * (acknowledgedBy (ρ t)).count u := by
  filter_upwards [eventually_rests json ρ α hrun hcalm hfair] with t hrested
  have hlast := EndToEnd.calm_run hs hnul
    (hrun.allSteps (C := fun s a => calm s a = true) hcalm t) (hrun.run t)
  exact ⟨hrested, _, hlast.integral.accounted.inserted,
    hlast.count_acknowledged hrested.returned hrested.quiet⟩

/-- A credit is answered, and the run goes on from there for ever. -/
theorem successes_are_stored_answered : ∃ (ρ : Nat → State) (α : Nat → Action),
    ρ 0 = EndToEnd.twoBooting ∧
      (List.range Progress.answered.length).map α = Progress.answered ∧
      ∀ᶠ t in atTop, Rested (ρ t) ∧ ∃ ts, Inserted [InitializeRedis.seedRow] ts (ρ t).table ∧
        ∀ u, ts.count u = 2 * (acknowledgedBy (ρ t)).count u := by
  have hend : (Transition.run (step systemTextJson) EndToEnd.twoBooting
      Progress.answered).isSome = true := by decide +kernel
  obtain ⟨m, hm⟩ := Option.isSome_iff_exists.mp hend
  have hrunning : ∀ node ∈ EndToEnd.twoBooting.nodes, node.saver.phase ≠ .exited := by decide
  have hsome : EndToEnd.twoBooting.nodes ≠ [] := List.cons_ne_nil _ _
  have hbegins : Transition.AllSteps (step systemTextJson) (fun s a => calm s a = true)
      EndToEnd.twoBooting Progress.answered := by decide +kernel
  obtain ⟨ρ, α, hzero, hbegin, hrun, hcalm, hfair⟩ := exists_fair_run systemTextJson hrunning hsome
    hbegins hm
  refine ⟨ρ, α, hzero, hbegin, successes_are_stored systemTextJson [InitializeRedis.seedRow] 2 ρ α
    ?_ ?_ hrun hcalm hfair⟩
  · rw [hzero]
    exact EndToEnd.twoBooting_booted
  · rw [hzero]
    exact EndToEnd.twoBooting_nul

end Liveness

end Rinha
