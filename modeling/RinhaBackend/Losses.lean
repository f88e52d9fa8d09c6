/-
  Where the copies are.

  A record is published once and handed to `n` instances, and from then on there are `n` copies of
  it.  `rows_per_success` says that all of them become rows while nothing fails.  Here everything
  may fail: batches, instances that stop, instances that start again, messages that arrive while a
  batch runs.  The sum still comes out (`copies_are_accounted_for`): a copy is a row, or it waits in
  an inbox or a queue, or it was lost, and a step that loses copies is one of three (`lostBy`): a
  batch that fails, a `Clear` after a batch, and a restart.
-/
import Mathlib.Data.List.ReduceOption
import RinhaBackend.EndToEnd

namespace Rinha

namespace Losses

open Deployment (load)
open EndToEnd
open SaveInBackground (Message Saver commands)

/-! ## What is lost -/

/-- What the next step of a saver loses: the batch in hand if it fails, and what the `Clear` after a
    batch finds. -/
def lostBySaver (ok : Bool) (saver : Saver) : List Transaction :=
  match saver.phase with
  | .executing hand => if ok then [] else hand.reduceOption
  | .clearing => saver.queue.reduceOption
  | _ => []

/-- What a step loses; an instance that starts again loses all it holds. -/
def lostBy (s : State) : Action → List Transaction
  | .saver i _ up =>
    match s.nodes[i]? with
    | some node => lostBySaver (batchOk up node.saver s.table) node.saver
    | none => []
  | .restart i =>
    match s.nodes[i]? with
    | some node => node.inbox ++ node.saver.pending.reduceOption
    | none => []
  | .service _ | .deliver _ _ | .stop _ => []

section Steps

variable {json : TransactionJson} {s s' : State} (u : Transaction)

/-- A transaction is in a list of messages as often as it is among their payloads. -/
theorem count_reduceOption (ms : List Message) : ms.reduceOption.count u = ms.count (some u) := by
  induction ms with
  | nil => rfl
  | cons m ms ih =>
    cases m with
    | none =>
      rw [List.reduceOption_cons_of_none, ih, List.count_cons_of_ne (Option.some_ne_none u).symm]
    | some t =>
      rw [List.reduceOption_cons_of_some, List.count_cons, ih, List.count_cons]
      simp only [beq_iff_eq, Option.some.injEq]

/-- A batch with a null message does not go through. -/
theorem batchOk_eq_false {up : Bool} {saver : Saver} {table : List Row} (h : none ∈ saver.inHand) :
    batchOk up saver table = false := by
  have hcommands : commands saver.inHand = none := by
    rcases hcase : commands saver.inHand with _ | ts
    · rfl
    · rw [SaveInBackground.commands_eq_some.mp hcase] at h
      obtain ⟨t, -, ht⟩ := List.mem_map.mp h
      cases ht
  rw [batchOk, hcommands]
  exact Bool.and_false up

/-- **A step of a saver**: what was pending is inserted, still pending, or lost. -/
theorem count_saver_step {saver saver' : Saver} {elapsed up : Bool} {table : List Row}
    {rows : List Transaction}
    (h : saver.step elapsed (batchOk up saver table) = some (saver', rows)) :
    rows.count u + saver'.pending.count (some u)
      + (lostBySaver (batchOk up saver table) saver).count u = saver.pending.count (some u) := by
  cases Saver.step_moves h with
  | quiet _ hpending hphase hnot _ _ =>
    have hnothing : lostBySaver (batchOk up saver table) saver = [] := by
      rw [lostBySaver]
      split
      · next hand hexec => exact absurd hexec (hnot hand)
      · next hclear => exact absurd hclear hphase
      · rfl
    rw [hnothing, hpending, List.count_nil, Nat.zero_add, Nat.add_zero]
  | insert _ hphase hok =>
    have hnothing : lostBySaver (batchOk up saver table) saver = [] := by
      rw [lostBySaver, hphase]
      exact if_pos hok
    have hpending : Saver.pending { saver with phase := .clearing } = saver.queue := rfl
    rw [hnothing, hpending, Saver.pending, SaveInBackground.inHand_of_executing hphase,
      List.count_append, Deployment.count_map_some, List.count_nil, Nat.add_zero]
  | fail hand hphase hfail =>
    have hhand := SaveInBackground.inHand_of_executing hphase
    have hnot : batchOk up saver table = false := by
      rcases hfail with hfail | hnull
      · exact hfail
      · exact batchOk_eq_false (by rw [hhand]; exact hnull)
    have hlost : lostBySaver (batchOk up saver table) saver = hand.reduceOption := by
      rw [lostBySaver, hphase, hnot]
      rfl
    have hpending : Saver.pending { saver with phase := .polling } = saver.queue := rfl
    rw [hlost, count_reduceOption, hpending, Saver.pending, hhand, List.count_append,
      List.count_nil]
    omega
  | clear hphase =>
    have hlost : lostBySaver (batchOk up saver table) saver = saver.queue.reduceOption := by
      rw [lostBySaver, hphase]
    rw [hlost, count_reduceOption, Saver.pending, Saver.pending,
      SaveInBackground.inHand_of_clearing hphase]
    exact Nat.zero_add _

/-- An instance that changes, and the rows and losses that come of it. -/
theorem sum_load_set {i : Nat} {node node' : Deployment.Node} (hnode : s.nodes[i]? = some node)
    {rows lost : List Transaction}
    (hload : rows.count u + load u node' + lost.count u = load u node) :
    rows.count u + ((s.nodes.set i node').map (load u)).sum + lost.count u
      = (s.nodes.map (load u)).sum := by
  have hsum := Parties.sum_map_set (load u) hnode node'
  omega

/-- **A step**: copies are made of what is published, and every copy there was is inserted, still
    waiting, or lost. -/
theorem count_step {a : Action} (h : step json s a = some s') :
    s'.nodes.length = s.nodes.length ∧
      (insertedBy s a).count u + (s'.nodes.map (load u)).sum + (lostBy s a).count u
          + s.nodes.length * (publishedBy s.service).count u
        = (s.nodes.map (load u)).sum + s.nodes.length * (publishedBy s'.service).count u := by
  cases a with
  | service a =>
    obtain ⟨service, hservice, rfl⟩ := Option.map_eq_some_iff.mp h
    refine ⟨length_hear _ _ _, ?_⟩
    rw [show insertedBy s (.service a) = [] from rfl, show lostBy s (.service a) = [] from rfl]
    dsimp only
    rw [count_publishedBy hservice, sum_load_hear, Nat.mul_add, List.count_nil]
    omega
  | deliver i j =>
    obtain ⟨node, hnode, hbind⟩ := Option.bind_eq_some_iff.mp h
    obtain ⟨t, ht, hmap⟩ := Option.bind_eq_some_iff.mp hbind
    obtain ⟨saver, hsaver, rfl⟩ := Option.map_eq_some_iff.mp hmap
    refine ⟨List.length_set, congrArg (· + _) (sum_load_set u hnode ?_)⟩
    rw [Deployment.load_deliver u ht hsaver]
    exact Nat.zero_add _
  | saver i elapsed up =>
    obtain ⟨node, hnode, hmap⟩ := Option.bind_eq_some_iff.mp h
    obtain ⟨⟨saver, rows⟩, hsaver, rfl⟩ := Option.map_eq_some_iff.mp hmap
    have hlost : lostBy s (.saver i elapsed up)
        = lostBySaver (batchOk up node.saver s.table) node.saver := by
      rw [lostBy, hnode]
    refine ⟨List.length_set, congrArg (· + _) ?_⟩
    rw [insertedBy_saver hnode hsaver, hlost]
    refine sum_load_set u hnode ?_
    have hcount := count_saver_step u hsaver
    rw [load, load]
    dsimp only
    omega
  | stop i =>
    obtain ⟨node, hnode, hmap⟩ := Option.bind_eq_some_iff.mp h
    obtain ⟨saver, hsaver, rfl⟩ := Option.map_eq_some_iff.mp hmap
    refine ⟨List.length_set, congrArg (· + _) (sum_load_set u hnode ?_)⟩
    rw [load, load, SaveInBackground.pending_stop hsaver]
    exact Nat.zero_add _
  | restart i =>
    obtain ⟨node, hnode, rfl⟩ := Option.map_eq_some_iff.mp h
    have hlost : lostBy s (.restart i) = node.inbox ++ node.saver.pending.reduceOption := by
      rw [lostBy, hnode]
    refine ⟨List.length_set, congrArg (· + _) ?_⟩
    rw [hlost]
    refine sum_load_set u hnode ?_
    rw [List.count_append, count_reduceOption]
    exact Nat.zero_add _

end Steps

/-- **A run**: of every record the rows inserted, the copies in inboxes and queues and the copies
    lost make `n` for each time it was published. -/
theorem count_run {json : TransactionJson} {base : List Row} {n : Nat} {s s' : State}
    (hs : Booted base n s) {actions : List Action}
    (hrun : Transition.run (step json) s actions = some s') (t : Transaction) :
    (Transition.yields (step json) insertedBy s actions).count t + (s'.nodes.map (load t)).sum
        + (Transition.yields (step json) lostBy s actions).count t
      = n * (publishedBy s'.service).count t := by
  have hend := Transition.run_history (step json)
    (I := fun as m => m.nodes.length = n ∧
      (Transition.yields (step json) insertedBy s as).count t + (m.nodes.map (load t)).sum
          + (Transition.yields (step json) lostBy s as).count t
        = n * (publishedBy m.service).count t) ?_ ?_ actions s' hrun
  · exact hend.2
  · refine ⟨by rw [hs.nodes, List.length_replicate], ?_⟩
    rw [hs.nodes, sum_load_replicate, publishedBy_fresh hs.fresh]
    rfl
  · rintro as m a m' hm ⟨hlength, hsum⟩ h
    obtain ⟨hlength', hcount⟩ := count_step t h
    rw [hlength] at hlength' hcount
    refine ⟨hlength', ?_⟩
    rw [Transition.yields_concat _ _ h hm, Transition.yields_concat _ _ h hm, List.count_append,
      List.count_append]
    omega

/-- **Every copy is accounted for.**  In every run of `n` instances, with requests, statements,
    deliveries, batches that fail, stops and restarts in any order: the table has grown by the rows
    of the records inserted, and of every record the rows inserted, the copies in inboxes and queues
    and the copies lost make `n` for each time it was published. -/
theorem copies_are_accounted_for (json : TransactionJson) (base : List Row) (n : Nat) (s s' : State)
    (hs : Booted base n s) (actions : List Action)
    (hrun : Transition.run (step json) s actions = some s') :
    Inserted base (Transition.yields (step json) insertedBy s actions) s'.table ∧ ∀ t,
      (Transition.yields (step json) insertedBy s actions).count t + (s'.nodes.map (load t)).sum
          + (Transition.yields (step json) lostBy s actions).count t
        = n * (publishedBy s'.service).count t :=
  ⟨(integral_run hs hrun).accounted.inserted, fun t => count_run hs hrun t⟩

/-- Two instances, one credit: a row of the first, and a copy the second loses when it starts
    again. -/
theorem copies_are_accounted_for_interrupted : ∃ s',
    Transition.run (step systemTextJson) twoBooting interrupted = some s' ∧
      (Transition.yields (step systemTextJson) insertedBy twoBooting interrupted).length = 1 ∧
      (Transition.yields (step systemTextJson) lostBy twoBooting interrupted).length = 1 ∧ ∀ t,
        (Transition.yields (step systemTextJson) insertedBy twoBooting interrupted).count t
            + (s'.nodes.map (load t)).sum
            + (Transition.yields (step systemTextJson) lostBy twoBooting interrupted).count t
          = 2 * (publishedBy s'.service).count t := by
  have hdone : (Transition.run (step systemTextJson) twoBooting interrupted).isSome = true := by
    decide +kernel
  obtain ⟨s', hrun⟩ := Option.isSome_iff_exists.mp hdone
  exact ⟨s', hrun, by decide +kernel, by decide +kernel, (copies_are_accounted_for systemTextJson
    [InitializeRedis.seedRow] 2 twoBooting s' twoBooting_booted interrupted hrun).2⟩

end Losses

end Rinha
