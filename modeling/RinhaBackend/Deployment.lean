/-
  The deployment: several instances, one broker, one table.

  Every instance publishes the transactions it acknowledges on `NATS_DESTINATION`, and every
  instance has a plain subscription on `nameof(Transaction)`; in `docker-compose.yaml` the two are
  the same subject.  So each message reaches EVERY instance, and each saver inserts it.

  `rows_per_acknowledged` counts: when everything has been delivered and drained and no batch was
  disturbed, the table holds one row per acknowledged transaction and instance.  The invariant is
  the balance sheet of one transaction (`Counted`): rows, queues, batches in hand and undelivered
  messages together hold it once for each instance and acknowledgement.
-/
import Mathlib.Data.List.Count
import Mathlib.Data.List.Perm.Basic
import Mathlib.Algebra.GroupWithZero.Nat
import RinhaBackend.Lib.Parties
import RinhaBackend.SaveInBackground

namespace Rinha

namespace Deployment

open SaveInBackground (Message Saver)

/-- `NATS_DESTINATION` of `docker-compose.yaml`. -/
def natsDestination : Text := "Transaction".toList

/-- `nameof(Transaction)`, the subject every instance subscribes to. -/
def subscription : Text := "Transaction".toList

/-- An instance: the messages its subscription has been sent and it has not yet taken, and its
    saver. -/
structure Node where
  inbox : List Transaction
  saver : Saver

/-- The instances, the rows of the table beyond the seed, and the transactions acknowledged. -/
structure State where
  nodes : List Node
  rows : List Transaction
  acknowledged : List Transaction

/-- What can happen next: instance `i` publishes and acknowledges, instance `i` takes message `j`
    of its subscription, or the saver of instance `i` takes a step. -/
inductive Event where
  | acknowledge (i : Nat) (t : Transaction)
  | deliver (i j : Nat)
  | saver (i : Nat) (elapsed batchOk : Bool)

/-- The broker: a message goes once to each plain subscription on its subject. -/
def fanOut (subject : Text) (t : Transaction) (nodes : List Node) : List Node :=
  nodes.map fun node =>
    if subscription = subject then { node with inbox := node.inbox ++ [t] } else node

/-- One event.  An acknowledgement is the end of `TryExecuteTransactionAsync`: publish, wake the
    saver of the instance, answer with a success. -/
def step (s : State) : Event → Option State
  | .acknowledge i t =>
    let nodes := fanOut natsDestination t s.nodes
    (nodes[i]?).map fun node =>
      { s with
        nodes := nodes.set i { node with saver := node.saver.wake }
        acknowledged := s.acknowledged ++ [t] }
  | .deliver i j =>
    (s.nodes[i]?).bind fun node => (node.inbox[j]?).bind fun t =>
      (node.saver.enqueue (some t)).map fun saver =>
        { s with nodes := s.nodes.set i ⟨node.inbox.eraseIdx j, saver⟩ }
  | .saver i elapsed batchOk =>
    (s.nodes[i]?).bind fun node => (node.saver.step elapsed batchOk).map fun r =>
      { s with nodes := s.nodes.set i { node with saver := r.1 }, rows := s.rows ++ r.2 }

/-- `n` instances that have just started. -/
def initial (n : Nat) : State := ⟨List.replicate n ⟨[], ⟨[], 0, .polling⟩⟩, [], []⟩

/-- Whether a batch of this saver is running: its drain is over and its `Clear` still to come. -/
def isRunning (saver : Saver) : Bool :=
  match saver.phase with
  | .executing _ | .clearing => true
  | _ => false

theorem phase_of_isRunning {saver : Saver} (h : isRunning saver = true) :
    (∃ hand, saver.phase = .executing hand) ∨ saver.phase = .clearing := by
  unfold isRunning at h
  split at h
  · next hand hphase => exact Or.inl ⟨hand, hphase⟩
  · next hphase => exact Or.inr hphase
  · cases h

/-- Batches succeed, and no message is enqueued while one runs. -/
def calm (s : State) : Event → Bool
  | .acknowledge _ _ => true
  | .deliver i _ => (s.nodes[i]?).all fun node => !isRunning node.saver
  | .saver i _ batchOk => (s.nodes[i]?).all fun node =>
    match node.saver.phase with
    | .executing _ => batchOk
    | _ => true

/-- Everything has been delivered and drained. -/
def Quiescent (s : State) : Prop := ∀ node ∈ s.nodes, node.inbox = [] ∧ node.saver.pending = []

/-! ## Counting one transaction -/

section Counting

variable (u : Transaction)

/-- How often an instance still holds `u`. -/
def load (node : Node) : Nat := node.inbox.count u + node.saver.pending.count (some u)

/-- The balance sheet of `u`. -/
def Counted (s : State) : Prop :=
  s.rows.count u + (s.nodes.map (load u)).sum = s.nodes.length * s.acknowledged.count u

/-- What a saver keeps while its instance is calm: no null message, and an empty queue while a
    batch runs. -/
structure Tidy (saver : Saver) : Prop where
  noNull : none ∉ saver.pending
  drained : isRunning saver = true → saver.queue = []

/-- A batch of transactions holds `u` as often as their rows do. -/
theorem count_map_some (rows : List Transaction) : (rows.map some).count (some u) = rows.count u :=
  List.count_map_of_injective rows some (fun _ _ => Option.some.inj) u

/-- The broker hands `t` to every instance. -/
theorem sum_load_fanOut (t : Transaction) (nodes : List Node) :
    ((fanOut natsDestination t nodes).map (load u)).sum
      = (nodes.map (load u)).sum + nodes.length * [t].count u := by
  induction nodes with
  | nil =>
    rw [fanOut, List.map_nil, List.map_nil, List.sum_nil, List.length_nil, Nat.zero_mul]
    rfl
  | cons node nodes ih =>
    have hsame : subscription = natsDestination := rfl
    have hfirst : load u (if subscription = natsDestination then
        { node with inbox := node.inbox ++ [t] } else node) = load u node + [t].count u := by
      rw [if_pos hsame, load, load, List.count_append]
      dsimp only
      omega
    rw [fanOut, List.map_cons, ← fanOut, List.map_cons, List.sum_cons, hfirst, ih, List.map_cons,
      List.sum_cons, List.length_cons, Nat.succ_mul]
    omega

/-- Taking a message moves it from the subscription to the saver. -/
theorem load_deliver {node : Node} {j : Nat} {t : Transaction} (ht : node.inbox[j]? = some t)
    {saver : Saver} (hsaver : node.saver.enqueue (some t) = some saver) :
    load u ⟨node.inbox.eraseIdx j, saver⟩ = load u node := by
  obtain ⟨hlt, hget⟩ := List.getElem?_eq_some_iff.mp ht
  have hperm := (List.getElem_cons_eraseIdx_perm hlt).count_eq u
  have hone : [some t].count (some u) = [t].count u := count_map_some u [t]
  rw [hget, ← List.singleton_append, List.count_append] at hperm
  rw [load, load, (SaveInBackground.pending_enqueue hsaver).1, List.count_append, hone]
  dsimp only
  omega

end Counting

/-! ## Runs -/

/-- What a calm step of a saver does: it keeps the saver tidy, and moves what it inserts from its
    batch to the table. -/
theorem saver_step_calm {saver saver' : Saver} {elapsed batchOk : Bool} {rows : List Transaction}
    (htidy : Tidy saver) (hcalm : ∀ hand, saver.phase = .executing hand → batchOk = true)
    (h : saver.step elapsed batchOk = some (saver', rows)) :
    Tidy saver' ∧
      ∀ u, rows.count u + saver'.pending.count (some u) = saver.pending.count (some u) := by
  cases Saver.step_moves h with
  | quiet _ hpending hphase hnot hclear hdrained =>
    refine ⟨⟨by rw [hpending]; exact htidy.noNull, fun hrunning => ?_⟩, fun u => by
      rw [hpending, List.count_nil, Nat.zero_add]⟩
    rcases phase_of_isRunning hrunning with ⟨hand, hexec⟩ | hc
    · exact hdrained hand hexec
    · exact absurd hc hclear
  | insert _ hphase _ =>
    have hempty : saver.queue = [] := htidy.drained (by rw [isRunning, hphase])
    have hpending : saver.pending = rows.map some := by
      rw [Saver.pending, SaveInBackground.inHand_of_executing hphase, hempty, List.append_nil]
    have hpending' : Saver.pending { saver with phase := .clearing } = [] := by
      rw [Saver.pending, SaveInBackground.inHand_of_clearing rfl]
      exact hempty
    refine ⟨⟨by rw [hpending']; exact List.not_mem_nil, fun _ => hempty⟩, fun u => ?_⟩
    rw [hpending, hpending', count_map_some, List.count_nil, Nat.add_zero]
  | fail hand hphase hfail =>
    -- excluded: the batch has no null message, and it succeeds
    rcases hfail with hfail | hfail
    · rw [hcalm hand hphase] at hfail
      cases hfail
    · refine absurd (List.mem_append_left _ ?_) htidy.noNull
      rwa [SaveInBackground.inHand_of_executing hphase]
  | clear hphase =>
    have hempty : saver.queue = [] := htidy.drained (by rw [isRunning, hphase])
    have hpending : saver.pending = [] := by
      rw [Saver.pending, SaveInBackground.inHand_of_clearing hphase, hempty, List.append_nil]
    refine ⟨⟨List.not_mem_nil, fun hrunning => Bool.noConfusion hrunning⟩, fun u => ?_⟩
    rw [hpending]
    rfl

/-- The invariant of calm runs of `n` instances. -/
structure Balanced (n : Nat) (s : State) : Prop where
  nodes : s.nodes.length = n
  tidy : ∀ node ∈ s.nodes, Tidy node.saver
  counted : ∀ u, Counted u s

theorem balanced_initial (n : Nat) : Balanced n (initial n) := by
  refine ⟨List.length_replicate, ?_, fun u => ?_⟩
  · intro node hnode
    obtain rfl := List.eq_of_mem_replicate hnode
    exact ⟨List.not_mem_nil, fun hrunning => Bool.noConfusion hrunning⟩
  · have hzero : ((initial n).nodes.map (load u)).sum = 0 := by
      refine List.sum_eq_zero fun z hz => ?_
      obtain ⟨node, hnode, rfl⟩ := List.mem_map.mp hz
      obtain rfl := List.eq_of_mem_replicate hnode
      rfl
    rw [Counted, hzero]
    rfl

/-- Waking a saver changes neither what is pending nor its phase. -/
theorem Tidy.wake {saver : Saver} (h : Tidy saver) : Tidy saver.wake := ⟨h.noNull, h.drained⟩

/-- An instance that is not running a batch takes a transaction. -/
theorem Tidy.enqueue {saver saver' : Saver} (h : Tidy saver) (hidle : isRunning saver = false)
    {t : Transaction} (hsaver : saver.enqueue (some t) = some saver') : Tidy saver' := by
  obtain ⟨hpending, hphase⟩ := SaveInBackground.pending_enqueue hsaver
  refine ⟨?_, fun hrunning => ?_⟩
  · rw [hpending]
    intro hmem
    rcases List.mem_append.mp hmem with hmem | hmem
    · exact h.noNull hmem
    · cases List.mem_singleton.mp hmem
  · rw [isRunning, hphase, ← isRunning, hidle] at hrunning
    cases hrunning

/-- All are tidy after a step that leaves the one that moved tidy. -/
theorem tidy_set {nodes : List Node} (h : ∀ node ∈ nodes, Tidy node.saver) {node : Node}
    (hnode : Tidy node.saver) (i : Nat) : ∀ m ∈ nodes.set i node, Tidy m.saver := by
  intro m hm
  rcases List.mem_or_eq_of_mem_set hm with hm | rfl
  · exact h m hm
  · exact hnode

theorem balanced_step {n : Nat} {s s' : State} {e : Event} (hI : Balanced n s)
    (hcalm : calm s e = true) (h : step s e = some s') : Balanced n s' := by
  obtain ⟨hn, htidy, hcounted⟩ := hI
  cases e with
  | acknowledge i t =>
    -- one acknowledgement more, and one message more at each of the `n` instances
    obtain ⟨node, hnode, rfl⟩ := Option.map_eq_some_iff.mp h
    have hlen : (fanOut natsDestination t s.nodes).length = s.nodes.length := List.length_map _
    have htidy' : ∀ m ∈ fanOut natsDestination t s.nodes, Tidy m.saver := by
      intro m hm
      obtain ⟨m', hm', rfl⟩ := List.mem_map.mp hm
      exact htidy m' hm'
    refine ⟨by rw [← hn, ← hlen]; exact List.length_set, ?_, fun u => ?_⟩
    · refine tidy_set htidy' ?_ i
      exact (htidy' node (List.mem_of_getElem? hnode)).wake
    · have hsum := Parties.sum_map_set_of_eq (f := load u) hnode
        (b := { node with saver := node.saver.wake }) rfl
      have hbefore := hcounted u
      rw [Counted] at hbefore ⊢
      dsimp only
      rw [hsum, sum_load_fanOut, List.length_set, hlen, List.count_append, Nat.mul_add]
      omega
  | deliver i j =>
    obtain ⟨node, hnode, hbind⟩ := Option.bind_eq_some_iff.mp h
    obtain ⟨t, ht, hmap⟩ := Option.bind_eq_some_iff.mp hbind
    obtain ⟨saver, hsaver, rfl⟩ := Option.map_eq_some_iff.mp hmap
    -- nothing is enqueued while a batch runs
    have hidle : isRunning node.saver = false := by
      rw [calm, hnode, Option.all_some] at hcalm
      exact (Bool.not_eq_true' _).mp hcalm
    refine ⟨by rw [← hn]; exact List.length_set, ?_, fun u => ?_⟩
    · refine tidy_set htidy ?_ i
      exact (htidy node (List.mem_of_getElem? hnode)).enqueue hidle hsaver
    · have hsum := Parties.sum_map_set_of_eq hnode (load_deliver u ht hsaver)
      have hbefore := hcounted u
      rw [Counted] at hbefore ⊢
      dsimp only
      rw [hsum, List.length_set]
      exact hbefore
  | saver i elapsed batchOk =>
    obtain ⟨node, hnode, hmap⟩ := Option.bind_eq_some_iff.mp h
    obtain ⟨⟨saver, rows⟩, hsaver, rfl⟩ := Option.map_eq_some_iff.mp hmap
    have hok : ∀ hand, node.saver.phase = .executing hand → batchOk = true := by
      intro hand hphase
      rw [calm, hnode, Option.all_some] at hcalm
      rw [hphase] at hcalm
      exact hcalm
    have hold := htidy node (List.mem_of_getElem? hnode)
    refine ⟨by rw [← hn]; exact List.length_set, ?_, fun u => ?_⟩
    · refine tidy_set htidy ?_ i
      exact (saver_step_calm hold hok hsaver).1
    · -- what leaves the batch of the instance enters the table
      have hcount := (saver_step_calm hold hok hsaver).2 u
      have hsum := Parties.sum_map_set (load u) hnode { node with saver := saver }
      have hbefore := hcounted u
      rw [Counted] at hbefore ⊢
      dsimp only
      rw [List.length_set, List.count_append]
      rw [load, load] at hsum
      dsimp only at hsum
      omega

/-- **One row for each acknowledged transaction and instance.**  When everything has been delivered
    and drained, with no batch failed or disturbed, the table holds `n` rows for each acknowledged
    transaction; so it holds exactly one if and only if a single instance is running, or nothing
    was acknowledged. -/
theorem rows_per_acknowledged (n : Nat) (events : List Event) (s : State)
    (hcalm : Transition.AllSteps step (fun s e => calm s e = true) (initial n) events)
    (hrun : Transition.run step (initial n) events = some s) (hquiet : Quiescent s) :
    (∀ t, s.rows.count t = n * s.acknowledged.count t) ∧
      ((∀ t, s.rows.count t = s.acknowledged.count t) ↔ n = 1 ∨ s.acknowledged = []) := by
  have hend := Transition.run_invariant_of step (fun _ _ _ => balanced_step) events _ s
    (balanced_initial n) hcalm hrun
  have hrows : ∀ t, s.rows.count t = n * s.acknowledged.count t := by
    intro t
    have hzero : (s.nodes.map (load t)).sum = 0 := by
      refine List.sum_eq_zero fun z hz => ?_
      obtain ⟨node, hnode, rfl⟩ := List.mem_map.mp hz
      obtain ⟨hinbox, hpending⟩ := hquiet node hnode
      rw [load, hinbox, hpending]
      rfl
    have hcounted := hend.counted t
    rw [Counted, hzero, Nat.add_zero, hend.nodes] at hcounted
    exact hcounted
  refine ⟨hrows, ?_, ?_⟩
  · intro hone
    rcases hack : s.acknowledged with _ | ⟨t, ts⟩
    · exact Or.inr rfl
    · have hpos : 0 < s.acknowledged.count t := by
        rw [hack]
        exact List.count_pos_iff.mpr List.mem_cons_self
      have heq := (hrows t).symm.trans (hone t)
      exact Or.inl (Nat.eq_of_mul_eq_mul_right hpos (heq.trans (Nat.one_mul _).symm))
  · rintro (rfl | hnone) t
    · rw [hrows, Nat.one_mul]
    · rw [hrows, hnone]
      rfl

/-- A saver takes a message from its queue to the table. -/
def oneBatchOf (i : Nat) : List Event := List.replicate 7 (.saver i true true)

/-- Two instances, and one acknowledged transaction, delivered to both. -/
def twoInstances (t : Transaction) : List Event :=
  [.acknowledge 0 t, .deliver 0 0, .deliver 1 0] ++ oneBatchOf 0 ++ oneBatchOf 1

theorem twoInstances_run : ∃ s, Transition.run step (initial 2)
    (twoInstances (SaveInBackground.credited 1)) = some s ∧ Quiescent s ∧
      s.rows = [SaveInBackground.credited 1, SaveInBackground.credited 1] ∧
      s.acknowledged = [SaveInBackground.credited 1] := by
  refine ⟨_, rfl, ?_, rfl, rfl⟩
  intro node hnode
  rcases List.mem_pair.mp hnode with rfl | rfl <;> exact ⟨rfl, rfl⟩

theorem rows_per_acknowledged_two : ∃ s : State,
    s.acknowledged = [SaveInBackground.credited 1] ∧
      s.rows.count (SaveInBackground.credited 1) = 2 := by
  obtain ⟨s, hrun, hquiet, -, hack⟩ := twoInstances_run
  have hrows := (rows_per_acknowledged 2 (twoInstances (SaveInBackground.credited 1)) s (by decide)
    hrun hquiet).1 (SaveInBackground.credited 1)
  refine ⟨s, hack, ?_⟩
  rw [hrows, hack]
  decide

/-- With two instances, one acknowledged transaction is two rows. -/
theorem two_instances_save_twice :
    ¬ ∀ (n : Nat) (events : List Event) (s : State), 1 ≤ n →
      Transition.AllSteps step (fun s e => calm s e = true) (initial n) events →
      Transition.run step (initial n) events = some s → Quiescent s →
      ∀ t, s.rows.count t = s.acknowledged.count t := by
  intro h
  obtain ⟨s, hrun, hquiet, hrows, hack⟩ := twoInstances_run
  have hcount := h 2 _ s (by decide) (by decide) hrun hquiet (SaveInBackground.credited 1)
  rw [hrows, hack] at hcount
  exact absurd hcount (by decide)

end Deployment

end Rinha
