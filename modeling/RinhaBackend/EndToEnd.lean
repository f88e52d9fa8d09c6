/-
  From the request to the table.

  The parts together: the calls, statements and start-ups of `ServiceRun` over Redis; the broker,
  which hands what a call publishes to every instance; the savers, whose batches the database
  executes or refuses (`executeNonQueryAsync`); and instances that stop, or start again and run
  their start-up over the table as it then is.

  Whatever happens, a row beyond the seed was made by a call, `n` rows at most for each time the
  record was published (`rows_are_accounted_for`), and no row changes what a start-up stores
  (`start_ups_are_unaffected`).  While nothing fails and no message arrives during a batch, the rows
  are those of the successful responses, `n` times each (`rows_per_success`).
-/
import Mathlib.Algebra.Order.BigOperators.Group.List
import Mathlib.Algebra.Order.Group.Nat
import RinhaBackend.BatchInsert
import RinhaBackend.Deployment
import RinhaBackend.LostUpdate
import RinhaBackend.RecordInvariant

namespace Rinha

namespace EndToEnd

open CachedRepository InitializeRedis
open Deployment (Node fanOut natsDestination load isRunning Tidy)
open LostUpdate (Returned isReturned exists_of_isReturned)
open RequestRun (Call Phase Moves Sound Executed AllSound)
open SaveInBackground (Message Saver commands batchRow executeNonQueryAsync)
open ServiceRun (Faithful Holds)
open RecordInvariant (RecordOf Movement)

/-- The service over Redis, the instances, and the table. -/
structure State where
  service : ServiceRun.State
  nodes : List Node
  table : List Row

/-- What can happen next.  `elapsed` and `up` are what the saver finds: whether three seconds have
    passed, and whether the database answers.  A saver has one connection and does not open another,
    so one that is broken is a database that does not answer its saver any more. -/
inductive Action where
  | service (a : ServiceRun.Action)
  | deliver (i j : Nat)
  | saver (i : Nat) (elapsed up : Bool)
  | stop (i : Nat)
  | restart (i : Nat)

/-- An instance that has just started. -/
def started : Node := ⟨[], ⟨[], 0, .polling⟩⟩

/-- `TryWrite` on the channel of instance `i`. -/
def wakeAt (i : Nat) (nodes : List Node) : List Node :=
  nodes.modify i fun node => { node with saver := node.saver.wake }

/-- What the instances notice of the next step of a call. -/
def heard (call : Call) (nodes : List Node) : List Node :=
  match call.phase with
  | .publishing _ t => fanOut natsDestination t nodes
  | .responding _ _ => wakeAt call.host nodes
  | _ => nodes

/-- And of the next step of the service. -/
def hear (service : ServiceRun.State) (nodes : List Node) : ServiceRun.Action → List Node
  | .post a =>
    match service.posts.calls[a.call]? with
    | some call => heard call nodes
    | none => nodes
  | .extrato _ _ | .startUp _ => nodes

/-- Whether `ExecuteNonQueryAsync` succeeds on what the saver has in hand. -/
def batchOk (up : Bool) (saver : Saver) (table : List Row) : Bool :=
  up && ((commands saver.inHand).bind fun ts => executeNonQueryAsync ts table).isSome

/-- One step.  An instance that starts again has lost its queue and its subscription; the calls it
    was serving take no further step, which is one of the orders in which calls take theirs. -/
def step (json : TransactionJson) (s : State) : Action → Option State
  | .service a => (ServiceRun.step json s.service a).map fun service =>
      { s with service := service, nodes := hear s.service s.nodes a }
  | .deliver i j =>
    (s.nodes[i]?).bind fun node => (node.inbox[j]?).bind fun t =>
      (node.saver.enqueue (some t)).map fun saver =>
        { s with nodes := s.nodes.set i ⟨node.inbox.eraseIdx j, saver⟩ }
  | .saver i elapsed up =>
    (s.nodes[i]?).bind fun node =>
      (node.saver.step elapsed (batchOk up node.saver s.table)).map fun r =>
        { s with
          nodes := s.nodes.set i { node with saver := r.1 }
          table := (executeNonQueryAsync r.2 s.table).getD s.table }
  | .stop i =>
    (s.nodes[i]?).bind fun node => node.saver.stop.map fun saver =>
      { s with nodes := s.nodes.set i { node with saver := saver } }
  | .restart i =>
    (s.nodes[i]?).map fun _ =>
      { s with
        service := { s.service with startUps := s.service.startUps ++ [s.table] }
        nodes := s.nodes.set i started }

/-- **What a step does to the service**: a step of its own, nothing, or a new start-up, that of an
    instance which starts again. -/
theorem step_service {json : TransactionJson} {s s' : State} {a : Action}
    (h : step json s a = some s') :
    (∃ b, a = .service b ∧ ServiceRun.step json s.service b = some s'.service) ∨
      (∀ i, a ≠ .restart i) ∧ s'.service = s.service ∨
      ∃ i, a = .restart i ∧
        s'.service = { s.service with startUps := s.service.startUps ++ [s.table] } := by
  cases a with
  | service b =>
    obtain ⟨service, hservice, rfl⟩ := Option.map_eq_some_iff.mp h
    exact Or.inl ⟨b, rfl, hservice⟩
  | deliver i j =>
    obtain ⟨node, -, hbind⟩ := Option.bind_eq_some_iff.mp h
    obtain ⟨t, -, hmap⟩ := Option.bind_eq_some_iff.mp hbind
    obtain ⟨saver, -, rfl⟩ := Option.map_eq_some_iff.mp hmap
    exact Or.inr (Or.inl ⟨nofun, rfl⟩)
  | saver i elapsed up =>
    obtain ⟨node, -, hmap⟩ := Option.bind_eq_some_iff.mp h
    obtain ⟨r, -, rfl⟩ := Option.map_eq_some_iff.mp hmap
    exact Or.inr (Or.inl ⟨nofun, rfl⟩)
  | stop i =>
    obtain ⟨node, -, hmap⟩ := Option.bind_eq_some_iff.mp h
    obtain ⟨saver, -, rfl⟩ := Option.map_eq_some_iff.mp hmap
    exact Or.inr (Or.inl ⟨nofun, rfl⟩)
  | restart i =>
    obtain ⟨node, -, rfl⟩ := Option.map_eq_some_iff.mp h
    exact Or.inr (Or.inr ⟨i, rfl, rfl⟩)

/-! ## What is published -/

/-- The record a call has published. -/
def published : Phase → Option Transaction
  | .responding _ t => some t
  | .returned executed _ => executed.map Prod.snd
  | .received | .reading | .read _ | .adding .. | .trimming .. | .publishing .. => none

/-- The record the next step of a call publishes. -/
def publishes : Phase → List Transaction
  | .publishing _ t => [t]
  | _ => []

/-- What has been published, call by call. -/
def publishedBy (service : ServiceRun.State) : List Transaction :=
  service.posts.calls.filterMap fun c => published c.phase

/-- What the next step of the service publishes. -/
def sentBy (service : ServiceRun.State) : ServiceRun.Action → List Transaction
  | .post a =>
    match service.posts.calls[a.call]? with
    | some call => publishes call.phase
    | none => []
  | .extrato _ _ | .startUp _ => []

section Publishing

variable {json : TransactionJson}

theorem published_of_moves {call : Call} {now : DateTime} {stores stores' : Stores}
    {phase phase' : Phase} (h : Moves json call now stores phase stores' phase') :
    (published phase').toList = (published phase).toList ++ publishes phase := by
  cases h <;> rfl

/-- What a call has published it has executed. -/
theorem executed_of_published {phase : Phase} {t : Transaction} (h : published phase = some t) :
    ∃ account, phase.executed = some (account, t) := by
  cases phase with
  | responding account u =>
    cases h
    exact ⟨account, rfl⟩
  | returned executed outcome =>
    obtain ⟨⟨account, u⟩, hexecuted, rfl⟩ := Option.map_eq_some_iff.mp h
    exact ⟨account, hexecuted⟩
  | received | reading | read _ | adding _ _ | trimming _ _ | publishing _ _ => cases h

/-- Once every call has returned, what is published is what is added. -/
theorem publishedBy_of_returned {service : ServiceRun.State} (h : Returned service.posts) :
    publishedBy service = service.posts.calls.filterMap fun c => c.phase.added.map Prod.snd := by
  refine List.filterMap_congr fun c hc => ?_
  obtain ⟨executed, outcome, hphase⟩ := exists_of_isReturned (h c hc)
  rw [hphase, published, Phase.added]

theorem count_filterMap {α : Type} (f : α → Option Transaction) (u : Transaction) (l : List α) :
    (l.filterMap f).count u = (l.map fun a => (f a).toList.count u).sum := by
  induction l with
  | nil => rfl
  | cons a l ih =>
    rw [List.map_cons, List.sum_cons, ← ih]
    rcases hf : f a with _ | t
    · rw [List.filterMap_cons_none hf]
      exact (Nat.zero_add _).symm
    · rw [List.filterMap_cons_some hf, ← List.singleton_append, List.count_append]
      rfl

/-- **What a step publishes is counted once.** -/
theorem count_publishedBy {s s' : ServiceRun.State} {a : ServiceRun.Action}
    (h : ServiceRun.step json s a = some s') (u : Transaction) :
    (publishedBy s').count u = (publishedBy s).count u + (sentBy s a).count u := by
  cases a with
  | post a =>
    obtain ⟨posts, hposts, rfl⟩ := ServiceRun.step_post h
    obtain ⟨call, stores, phase, hcall, hmove, rfl⟩ := RequestRun.step_moves hposts
    have hsum := Parties.sum_map_set (fun c : Call => (published c.phase).toList.count u) hcall
      { call with phase := phase }
    simp only [published_of_moves hmove, List.count_append] at hsum
    simp only [publishedBy, count_filterMap, sentBy, hcall, RequestRun.State.put]
    omega
  | extrato i now =>
    obtain ⟨x, -, -, rfl⟩ := ServiceRun.step_extrato h
    rfl
  | startUp i =>
    obtain ⟨rows, db, rest, -, -, rfl⟩ := ServiceRun.step_startUp h
    rfl

end Publishing

/-! ## What the instances notice -/

section Hearing

variable (u : Transaction)

theorem wakeAt_eq_set {i : Nat} {nodes : List Node} {node : Node} (h : nodes[i]? = some node) :
    wakeAt i nodes = nodes.set i { node with saver := node.saver.wake } := by
  obtain ⟨hlt, rfl⟩ := List.getElem?_eq_some_iff.mp h
  rw [wakeAt, List.modify_eq_set_getElem?, h]
  rfl

/-- A wake-up is no message. -/
theorem sum_load_wakeAt (i : Nat) (nodes : List Node) :
    ((wakeAt i nodes).map (load u)).sum = (nodes.map (load u)).sum := by
  rcases hnode : nodes[i]? with _ | node
  · rw [wakeAt, List.modify_eq_self (List.getElem?_eq_none_iff.mp hnode)]
  · rw [wakeAt_eq_set hnode]
    exact Parties.sum_map_set_of_eq hnode rfl

/-- Every instance is handed what a call publishes. -/
theorem sum_load_heard (call : Call) (nodes : List Node) :
    ((heard call nodes).map (load u)).sum
      = (nodes.map (load u)).sum + nodes.length * (publishes call.phase).count u := by
  rw [heard]
  split
  · next account t hphase =>
    rw [Deployment.sum_load_fanOut, hphase]
    rfl
  · next account t hphase =>
    rw [sum_load_wakeAt, hphase]
    rfl
  · next hpublishing _ =>
    rw [show publishes call.phase = [] by
      unfold publishes
      split
      · next account t hphase => exact absurd hphase (hpublishing account t)
      · rfl]
    rfl

theorem sum_load_hear (service : ServiceRun.State) (nodes : List Node) (a : ServiceRun.Action) :
    ((hear service nodes a).map (load u)).sum
      = (nodes.map (load u)).sum + nodes.length * (sentBy service a).count u := by
  cases a with
  | post a =>
    rw [hear, sentBy]
    rcases service.posts.calls[a.call]? with _ | call
    · rfl
    · exact sum_load_heard u call nodes
  | extrato i now => rfl
  | startUp i => rfl

theorem length_hear (service : ServiceRun.State) (nodes : List Node) (a : ServiceRun.Action) :
    (hear service nodes a).length = nodes.length := by
  cases a with
  | post a =>
    rw [hear]
    rcases service.posts.calls[a.call]? with _ | call
    · rfl
    · dsimp only
      rw [heard]
      split
      · exact List.length_map _
      · exact List.length_modify _ _ _
      · rfl
  | extrato i now => rfl
  | startUp i => rfl

end Hearing

/-! ## Every row is accounted for -/

/-- `ts` have been inserted after the rows the table had. -/
def Inserted (base : List Row) (ts : List Transaction) (table : List Row) : Prop :=
  ∃ added, ts.mapM batchRow = some added ∧ table = base ++ added

theorem inserted_nil (base : List Row) : Inserted base [] base :=
  ⟨[], rfl, (List.append_nil base).symm⟩

/-- A batch the database executes comes after what has been inserted before. -/
theorem Inserted.append {base table : List Row} {ts rows : List Transaction}
    (h : Inserted base ts table) {added : List Row} (hadded : rows.mapM batchRow = some added) :
    Inserted base (ts ++ rows) (table ++ added) := by
  obtain ⟨before, hbefore, rfl⟩ := h
  refine ⟨before ++ added, ?_, List.append_assoc ..⟩
  rw [List.mapM_append, hbefore, hadded]
  rfl

/-- **What a step of a saver does**: it inserts rows the database takes, and keeps the rest of what
    is pending or loses some of it. -/
theorem saver_step {saver saver' : Saver} {elapsed up : Bool} {table : List Row}
    {rows : List Transaction}
    (h : saver.step elapsed (batchOk up saver table) = some (saver', rows)) :
    (∃ added, rows.mapM batchRow = some added ∧
        (executeNonQueryAsync rows table).getD table = table ++ added) ∧
      ∀ u, rows.count u + saver'.pending.count (some u) ≤ saver.pending.count (some u) := by
  have hnothing : ∃ added, [].mapM batchRow = some added ∧
      (executeNonQueryAsync [] table).getD table = table ++ added := ⟨[], rfl, rfl⟩
  cases Saver.step_moves h with
  | quiet _ hpending _ _ _ _ =>
    refine ⟨hnothing, fun u => ?_⟩
    rw [hpending, List.count_nil, Nat.zero_add]
  | insert _ hphase hok =>
    have hhand : saver.inHand = rows.map some := SaveInBackground.inHand_of_executing hphase
    refine ⟨?_, fun u => ?_⟩
    · -- the database has taken the batch
      rw [batchOk, hhand, SaveInBackground.commands_eq_some.mpr rfl, Option.bind_some,
        executeNonQueryAsync, Option.isSome_map] at hok
      obtain ⟨added, hadded⟩ := Option.isSome_iff_exists.mp (Bool.and_eq_true_iff.mp hok).2
      refine ⟨added, hadded, ?_⟩
      rw [executeNonQueryAsync, hadded]
      rfl
    · have hpending : Saver.pending { saver with phase := .clearing } = saver.queue := rfl
      rw [hpending, Saver.pending, hhand, List.count_append, Deployment.count_map_some]
  | fail hand hphase _ =>
    refine ⟨hnothing, fun u => ?_⟩
    have hpending : Saver.pending { saver with phase := .polling } = saver.queue := rfl
    rw [hpending, Saver.pending, List.count_append, List.count_nil]
    omega
  | clear _ =>
    refine ⟨hnothing, fun u => ?_⟩
    exact Nat.zero_le _

/-- What a step inserts. -/
def insertedBy (s : State) : Action → List Transaction
  | .saver i elapsed up =>
    match s.nodes[i]? with
    | some node =>
      match node.saver.step elapsed (batchOk up node.saver s.table) with
      | some r => r.2
      | none => []
    | none => []
  | .service _ | .deliver _ _ | .stop _ | .restart _ => []

theorem insertedBy_saver {s : State} {i : Nat} {node : Node} (hnode : s.nodes[i]? = some node)
    {elapsed up : Bool} {r : Saver × List Transaction}
    (hsaver : node.saver.step elapsed (batchOk up node.saver s.table) = some r) :
    insertedBy s (.saver i elapsed up) = r.2 := by
  rw [insertedBy, hnode]
  dsimp only
  rw [hsaver]

/-- Rows and messages together hold a record at most once for each instance and publication. -/
structure Accounted (base : List Row) (n : Nat) (s : State) (ts : List Transaction) : Prop where
  nodes : s.nodes.length = n
  inserted : Inserted base ts s.table
  counted : ∀ u, ts.count u + (s.nodes.map (load u)).sum
    ≤ n * (publishedBy s.service).count u

section Accounting

variable {json : TransactionJson} {base : List Row} {n : Nat}

/-- An instance whose new state holds no more than its old one. -/
theorem Accounted.set {s : State} {ts : List Transaction} (h : Accounted base n s ts) {i : Nat}
    {node : Node} (hnode : s.nodes[i]? = some node) (node' : Node) {rows : List Transaction}
    {table : List Row} (htable : Inserted base (ts ++ rows) table)
    (hload : ∀ u, rows.count u + load u node' ≤ load u node) :
    Accounted base n { s with nodes := s.nodes.set i node', table := table } (ts ++ rows) := by
  refine ⟨List.length_set.trans h.nodes, htable, fun u => ?_⟩
  have hsum := Parties.sum_map_set (load u) hnode node'
  have hbefore := h.counted u
  have hnow := hload u
  dsimp only
  rw [List.count_append]
  omega

theorem accounted_step {s s' : State} {ts : List Transaction} {a : Action}
    (hI : Accounted base n s ts) (h : step json s a = some s') :
    Accounted base n s' (ts ++ insertedBy s a) := by
  have hsame : Inserted base (ts ++ []) s.table := by
    rw [List.append_nil]
    exact hI.inserted
  cases a with
  | service a =>
    obtain ⟨service, hservice, rfl⟩ := Option.map_eq_some_iff.mp h
    refine ⟨(length_hear _ _ _).trans hI.nodes, hsame, fun u => ?_⟩
    have hbefore := hI.counted u
    rw [show insertedBy s (.service a) = [] from rfl, List.append_nil]
    dsimp only
    rw [count_publishedBy hservice, sum_load_hear, Nat.mul_add, hI.nodes]
    omega
  | deliver i j =>
    obtain ⟨node, hnode, hbind⟩ := Option.bind_eq_some_iff.mp h
    obtain ⟨t, ht, hmap⟩ := Option.bind_eq_some_iff.mp hbind
    obtain ⟨saver, hsaver, rfl⟩ := Option.map_eq_some_iff.mp hmap
    refine hI.set hnode _ hsame fun u => ?_
    rw [Deployment.load_deliver u ht hsaver]
    exact (Nat.zero_add _).le
  | saver i elapsed up =>
    obtain ⟨node, hnode, hmap⟩ := Option.bind_eq_some_iff.mp h
    obtain ⟨⟨saver, rows⟩, hsaver, rfl⟩ := Option.map_eq_some_iff.mp hmap
    obtain ⟨⟨added, hadded, htable⟩, hcount⟩ := saver_step hsaver
    rw [insertedBy_saver hnode hsaver]
    refine hI.set hnode _ ?_ fun u => ?_
    · dsimp only
      rw [htable]
      exact hI.inserted.append hadded
    · have hpending := hcount u
      rw [load, load]
      dsimp only
      omega
  | stop i =>
    obtain ⟨node, hnode, hmap⟩ := Option.bind_eq_some_iff.mp h
    obtain ⟨saver, hsaver, rfl⟩ := Option.map_eq_some_iff.mp hmap
    refine hI.set hnode _ hsame fun u => ?_
    rw [load, load, SaveInBackground.pending_stop hsaver]
    exact (Nat.zero_add _).le
  | restart i =>
    obtain ⟨node, hnode, rfl⟩ := Option.map_eq_some_iff.mp h
    obtain ⟨hnodes, hinserted, hcounted⟩ := hI.set hnode started hsame fun u => Nat.zero_le _
    exact ⟨hnodes, hinserted, hcounted⟩

end Accounting

/-! ## Whose rows they are -/

/-- A record on its way through the system was published by a call. -/
theorem Accounted.exists_call {base : List Row} {n : Nat} {s : State} {ts : List Transaction}
    (h : Accounted base n s ts) {t : Transaction}
    (ht : 0 < ts.count t + (s.nodes.map (load t)).sum) :
    ∃ c ∈ s.service.posts.calls, ∃ account, c.phase.executed = some (account, t) := by
  have hpublished : 0 < (publishedBy s.service).count t := by
    refine Nat.pos_of_ne_zero fun hzero => ?_
    have hcounted := h.counted t
    rw [hzero, Nat.mul_zero] at hcounted
    omega
  obtain ⟨c, hc, hphase⟩ := List.mem_filterMap.mp (List.count_pos_iff.mp hpublished)
  exact ⟨c, hc, executed_of_published hphase⟩

/-- A row with a description has no record to seed. -/
theorem descricao_ne_none_of_batchRow {t : Transaction} {row : Row} (h : batchRow t = some row) :
    row.descricao ≠ none := by
  obtain ⟨command, -, hrow⟩ := Option.bind_eq_some_iff.mp h
  simp only [Table.insertRow, Option.bind_eq_bind, Option.bind_eq_some_iff, Option.pure_def,
    Option.some.injEq] at hrow
  obtain ⟨accountId, -, descricao, -, tipo, -, valor, -, saldo, -, limite, -, rfl⟩ := hrow
  exact Option.some_ne_none descricao

theorem descricao_ne_none_of_mapM {ts : List Transaction} : ∀ {added : List Row},
    ts.mapM batchRow = some added → ∀ row ∈ added, row.descricao ≠ none := by
  induction ts with
  | nil =>
    intro added h row hrow
    cases h
    cases hrow
  | cons t ts ih =>
    intro added h row hrow
    simp only [List.mapM_cons, Option.bind_eq_bind, Option.bind_eq_some_iff, Option.pure_def,
      Option.some.injEq] at h
    obtain ⟨first, hfirst, rest, hrest, rfl⟩ := h
    rcases List.mem_cons.mp hrow with rfl | hrow
    · exact descricao_ne_none_of_batchRow hfirst
    · exact ih hrest row hrow

/-- A movement of an account with a seed row, with the limit of that row, and within it if it is a
    debit. -/
structure Legal (base : List Row) (t : Transaction) : Prop where
  movement : Movement t
  seeded : ∃ row ∈ seedRows base t.accountId, t.limite = row.limite
  within : t.tipo = Transaction.debt → -t.limite.toInt ≤ t.saldo.toInt

/-- What a call makes of a record of an account is legal. -/
theorem legal_of_executed {base : List Row}
    (hlimite : ∀ row ∈ base, row.descricao = none → 0 ≤ row.limite) {id : Int32}
    {request : TransactionRequest} {phase : Phase} (hsound : Sound request phase)
    (hheld : Holds (RecordOf base) id phase) {account : Account} {t : Transaction}
    (hphase : phase.executed = some (account, t)) : Legal base t := by
  obtain ⟨rfl, row, hrow, hcopied, -⟩ :=
    ServiceRun.holds_executed (RecordInvariant.inherited_recordOf base) hsound hheld hphase
  have hex : Executed request account t := hsound.executed hphase
  refine ⟨RecordInvariant.movement_of_executed hex, ⟨row, hrow, hcopied⟩, fun hdebt => ?_⟩
  obtain ⟨-, -, hvalor⟩ := (request.valid_iff).mp hex.valid
  obtain ⟨now, rfl⟩ := hex.made
  rw [Account.execute_limite] at hcopied ⊢
  obtain ⟨hin, hprops⟩ := List.mem_filter.mp hrow
  have hpos : 0 ≤ account.limite := by
    rw [hcopied]
    exact hlimite row hin (of_decide_eq_true hprops).2
  exact (account.execute_debt_exact request now hdebt hpos hvalor hex.can).2

/-- Every instance has just started, over the table `base`. -/
structure Booted (base : List Row) (n : Nat) (s : State) : Prop where
  cache : s.service.posts.redis = Redis.empty
  fresh : RequestRun.Fresh s.service.posts
  startUps : ∀ rows ∈ s.service.startUps, rows = base
  nodes : s.nodes = List.replicate n started
  table : s.table = base

/-- The invariant of all runs. -/
structure Integral (json : TransactionJson) (base : List Row) (n : Nat) (s : State)
    (ts : List Transaction) : Prop where
  accounted : Accounted base n s ts
  faithful : Faithful json (RecordOf base) s.service

section Integrity

variable {json : TransactionJson} {base : List Row} {n : Nat}

theorem sum_load_replicate (u : Transaction) :
    ((List.replicate n started).map (load u)).sum = 0 := by
  refine List.sum_eq_zero fun z hz => ?_
  obtain ⟨node, hnode, rfl⟩ := List.mem_map.mp hz
  obtain rfl := List.eq_of_mem_replicate hnode
  rfl

theorem publishedBy_fresh {service : ServiceRun.State} (h : RequestRun.Fresh service.posts) :
    publishedBy service = [] := by
  refine List.filterMap_eq_nil_iff.mpr fun c hc => ?_
  rw [h c hc]
  rfl

theorem Booted.integral {s : State} (h : Booted base n s) : Integral json base n s [] := by
  refine ⟨⟨?_, ?_, fun u => ?_⟩, h.fresh.allSound, ?_, ?_, ?_⟩
  · rw [h.nodes, List.length_replicate]
  · rw [h.table]
    exact inserted_nil base
  · rw [h.nodes, sum_load_replicate]
    exact Nat.zero_le _
  · rw [h.cache]
    exact fun id e he => by cases he
  · intro c hc account haccount
    rw [h.fresh c hc] at haccount
    cases haccount
  · intro rows hrows row hrow t ht
    rw [h.startUps rows hrows] at hrow
    exact RecordInvariant.recordOf_seed hrow ht

/-- The records of a live table are those of its first rows. -/
theorem recordOf_inserted {ts : List Transaction} {table : List Row}
    (h : Inserted base ts table) {row : Row} (hrow : row ∈ table) {t : Transaction}
    (ht : seed? row = some t) : RecordOf base row.accountId t := by
  obtain ⟨added, hadded, rfl⟩ := h
  rcases List.mem_append.mp hrow with hbase | hnew
  · exact RecordInvariant.recordOf_seed hbase ht
  · exact absurd (eq_of_seed? ht).1 (descricao_ne_none_of_mapM hadded row hnew)

theorem integral_step {s s' : State} {ts : List Transaction} {a : Action}
    (hI : Integral json base n s ts) (h : step json s a = some s') :
    Integral json base n s' (ts ++ insertedBy s a) := by
  refine ⟨accounted_step hI.accounted h, ?_⟩
  rcases step_service h with ⟨b, rfl, hb⟩ | ⟨-, hsame⟩ | ⟨i, rfl, hrestart⟩
  · exact ServiceRun.faithful_step (RecordInvariant.inherited_recordOf base) hI.faithful hb
  · rw [hsame]
    exact hI.faithful
  · rw [hrestart]
    refine ⟨hI.faithful.sound, hI.faithful.stored, hI.faithful.held, ?_⟩
    intro left hleft row hrow t ht
    rcases List.mem_append.mp hleft with hold | hnew
    · exact hI.faithful.seeds left hold row hrow t ht
    · rw [List.mem_singleton.mp hnew] at hrow
      exact recordOf_inserted hI.accounted.inserted hrow ht

theorem integral_run {s s' : State} (hs : Booted base n s) {actions : List Action}
    (hrun : Transition.run (step json) s actions = some s') :
    Integral json base n s' (Transition.yields (step json) insertedBy s actions) :=
  Transition.run_yields (step json) insertedBy (C := fun _ _ => True)
    (fun _ _ _ _ hI _ h => integral_step hI h) actions s s' [] hs.integral
    (Transition.allSteps_true _ s actions) hrun

end Integrity

/-- **Every row is accounted for.**  In every run of `n` instances over a table without negative
    limits, with requests, statements, deliveries, batches that fail, stops and restarts in any
    order: the rows beyond the first ones are those of records that calls have published, at most
    `n` for each time; and each is a legal movement of an account with a seed row. -/
theorem rows_are_accounted_for (json : TransactionJson) (base : List Row) (n : Nat) (s s' : State)
    (hs : Booted base n s) (hlimite : ∀ row ∈ base, row.descricao = none → 0 ≤ row.limite)
    (actions : List Action) (hrun : Transition.run (step json) s actions = some s') :
    ∃ ts, Inserted base ts s'.table ∧
      (∀ t, ts.count t ≤ n * (publishedBy s'.service).count t) ∧ ∀ t ∈ ts, Legal base t := by
  obtain ⟨haccounted, hfaithful⟩ := integral_run hs hrun
  refine ⟨_, haccounted.inserted, fun t => ?_, fun t ht => ?_⟩
  · have hcounted := haccounted.counted t
    omega
  · have hpos := List.count_pos_iff.mpr ht
    obtain ⟨c, hc, account, hphase⟩ := haccounted.exists_call (t := t) (by omega)
    exact legal_of_executed hlimite (hfaithful.sound c hc) (hfaithful.held c hc) hphase

/-- Two instances over the seed of account 1, and a credit of 10. -/
def twoBooting : State :=
  ⟨⟨⟨Redis.empty, [], fun _ => 0, [⟨0, 1, TransactionService.creditOfTen, .received⟩]⟩, [],
    [[seedRow], [seedRow]]⟩, List.replicate 2 started, [seedRow]⟩

theorem twoBooting_booted : Booted [seedRow] 2 twoBooting := by
  refine ⟨rfl, fun c hc => ?_, fun rows hrows => ?_, rfl, rfl⟩
  · rw [List.mem_singleton.mp hc]
  · rcases List.mem_pair.mp hrows with rfl | rfl <;> rfl

/-- The credit is served, delivered to both instances, and inserted by the first. -/
def journey : List Action :=
  .service (.startUp 0) :: (List.replicate 7 (.service (.post ⟨0, .ofTicks 5 .localTime⟩))
    ++ [.deliver 0 0, .deliver 1 0] ++ List.replicate 7 (.saver 0 true true))

/-- Then the second instance starts again, and its messages are lost. -/
def interrupted : List Action := journey ++ [.restart 1, .service (.startUp 2)]

theorem rows_are_accounted_for_interrupted : ∃ s',
    Transition.run (step systemTextJson) twoBooting interrupted = some s' ∧
      s'.table.length = 2 ∧ ∃ ts, Inserted [seedRow] ts s'.table ∧ ∀ t ∈ ts, Legal [seedRow] t := by
  have hdone : (Transition.run (step systemTextJson) twoBooting interrupted).any
      (fun s' => s'.table.length = 2) = true := by decide +kernel
  obtain ⟨s', hrun, htable⟩ := (Option.any_eq_true _ _).mp hdone
  obtain ⟨ts, hinserted, -, hlegal⟩ := rows_are_accounted_for systemTextJson [seedRow] 2 twoBooting
    s' twoBooting_booted (by decide) interrupted hrun
  exact ⟨s', hrun, of_decide_eq_true htable, ts, hinserted, hlegal⟩

/-- Rows with a description leave a start-up what it was. -/
theorem executeAsync_append (json : TransactionJson) {added : List Row}
    (hadded : ∀ row ∈ added, row.descricao ≠ none) (base : List Row) : ∀ db,
    executeAsync json (base ++ added) db = executeAsync json base db := by
  induction base with
  | nil =>
    intro db
    have hnone : added.filterMap seed? = [] :=
      List.filterMap_eq_nil_iff.mpr fun row hrow => if_neg (hadded row hrow)
    rw [List.nil_append, executeAsync_of_dated json fun row hrow hc => absurd hc (hadded row hrow),
      hnone]
    rfl
  | cons row base ih =>
    intro db
    rw [List.cons_append, executeAsync, executeAsync]
    split
    · exact ih db
    · rcases row.realizadaEm with _ | t
      · rfl
      · exact ih _

/-- **Start-ups are unaffected by what has been inserted.**  In every state of every run, a start-up
    over the table as it is does to any Redis what it does over the first rows; and what is stored
    for an account, restarts or not, are records of the account. -/
theorem start_ups_are_unaffected (json : TransactionJson) (base : List Row) (n : Nat)
    (s s' : State) (hs : Booted base n s) (actions : List Action)
    (hrun : Transition.run (step json) s actions = some s') :
    (∀ db, executeAsync json s'.table db = executeAsync json base db) ∧
      Records json (RecordOf base) s'.service.posts.redis := by
  obtain ⟨haccounted, hfaithful⟩ := integral_run hs hrun
  refine ⟨?_, hfaithful.stored⟩
  obtain ⟨added, hadded, htable⟩ := haccounted.inserted
  rw [htable]
  exact executeAsync_append json (descricao_ne_none_of_mapM hadded) base

theorem start_ups_are_unaffected_interrupted : ∃ s',
    Transition.run (step systemTextJson) twoBooting interrupted = some s' ∧
      executeAsync systemTextJson s'.table Redis.empty
        = executeAsync systemTextJson [seedRow] Redis.empty := by
  have hdone : (Transition.run (step systemTextJson) twoBooting interrupted).isSome = true := by
    decide +kernel
  obtain ⟨s', hrun⟩ := Option.isSome_iff_exists.mp hdone
  exact ⟨s', hrun, (start_ups_are_unaffected systemTextJson [seedRow] 2 twoBooting s'
    twoBooting_booted interrupted hrun).1 Redis.empty⟩

/-! ## Calm runs -/

/-- The clock a call reads is local, as `DateTime.Now` is. -/
def onLocalClock : Action → Bool
  | .service (.post a) => a.now.kind = .localTime
  | .service _ | .deliver _ _ | .saver _ _ _ | .stop _ | .restart _ => true

/-- The clock is local, nothing stops, the database answers, and no message is enqueued while a
    batch runs. -/
def calm (s : State) : Action → Bool
  | .service (.post a) => a.now.kind = .localTime
  | .service _ => true
  | .deliver i _ => (s.nodes[i]?).all fun node => !isRunning node.saver
  | .saver _ _ up => up
  | .stop _ | .restart _ => false

/-- The record of a call can be inserted. -/
def Storable (phase : Phase) : Prop :=
  ∀ account t, phase.executed = some (account, t) → (batchRow t).isSome

theorem storable_of_moves {json : TransactionJson} {call : Call} {now : DateTime}
    {stores stores' : Stores} {phase phase' : Phase}
    (h : Moves json call now stores phase stores' phase') (hnow : now.kind = .localTime)
    (hnul : ∀ d, call.request.descricao = some d → Table.nul ∉ d)
    (hsound : Sound call.request phase) (hI : Storable phase) : Storable phase' := by
  cases h with
  | execute account hcan =>
    intro account' t hphase
    cases hphase
    obtain ⟨command, hcommand, hfits⟩ : ∃ command,
        SaveInBackground.batchCommand (account.execute call.request now).2 = some command ∧
          SaveInBackground.Fits command := SaveInBackground.fits_of_valid hsound hnow hnul
    rw [batchRow, hcommand]
    exact hfits.insertRow_isSome
  | add account t | trim account t | publish account t | respond account t => exact hI
  | refuse _ | validate _ | notFound _ _ | read _ _ _ | exceed _ _ =>
    exact fun _ _ hc => by cases hc

/-- What the calls are asked for, and what they have made, can be inserted. -/
structure Insertable (service : ServiceRun.State) : Prop where
  nul : ∀ c ∈ service.posts.calls, ∀ d, c.request.descricao = some d → Table.nul ∉ d
  storable : ∀ c ∈ service.posts.calls, Storable c.phase

/-- A state in which the database takes every batch. -/
structure Ready (json : TransactionJson) (base : List Row) (n : Nat) (s : State)
    (ts : List Transaction) : Prop where
  integral : Integral json base n s ts
  tidy : ∀ node ∈ s.nodes, Tidy node.saver
  insertable : Insertable s.service

/-- The invariant of calm runs. -/
structure Calm (json : TransactionJson) (base : List Row) (n : Nat) (s : State)
    (ts : List Transaction) : Prop where
  integral : Integral json base n s ts
  tidy : ∀ node ∈ s.nodes, Tidy node.saver
  counted : ∀ u, ts.count u + (s.nodes.map (load u)).sum = n * (publishedBy s.service).count u
  nul : ∀ c ∈ s.service.posts.calls, ∀ d, c.request.descricao = some d → Table.nul ∉ d
  storable : ∀ c ∈ s.service.posts.calls, Storable c.phase

section CalmRuns

variable {json : TransactionJson} {base : List Row} {n : Nat} {s s' : State}
  {ts : List Transaction}

theorem onLocalClock_of_calm {a : Action} (h : calm s a = true) : onLocalClock a = true := by
  cases a with
  | service a =>
    cases a with
    | post a => exact h
    | extrato i now => rfl
    | startUp i => rfl
  | deliver i j => rfl
  | saver i elapsed up => rfl
  | stop i => cases h
  | restart i => cases h

theorem Calm.ready (hI : Calm json base n s ts) : Ready json base n s ts :=
  ⟨hI.integral, hI.tidy, hI.nul, hI.storable⟩

/-- The database takes the batch of any saver. -/
theorem Ready.batchOk (hI : Ready json base n s ts) {i : Nat} {node : Node}
    (hnode : s.nodes[i]? = some node) : batchOk true node.saver s.table = true := by
  have hmem : node ∈ s.nodes := List.mem_of_getElem? hnode
  rw [EndToEnd.batchOk, Bool.true_and]
  rcases hcommands : commands node.saver.inHand with _ | rows
  · exact absurd (List.mem_append_left _ (SaveInBackground.none_mem_of_commands hcommands))
      (hI.tidy node hmem).noNull
  · rw [Option.bind_some, SaveInBackground.executeNonQueryAsync_isSome_iff]
    intro t ht
    -- what is in hand has been published, so a call has executed it
    have hhand : 0 < node.saver.inHand.count (some t) := by
      rw [SaveInBackground.commands_eq_some.mp hcommands, Deployment.count_map_some]
      exact List.count_pos_iff.mpr ht
    have hload : 0 < load t node := by
      rw [load, Saver.pending, List.count_append]
      omega
    have hsum : load t node ≤ (s.nodes.map (load t)).sum :=
      List.le_sum_of_mem (List.mem_map_of_mem hmem)
    obtain ⟨c, hc, account, hphase⟩ := hI.integral.accounted.exists_call (t := t) (by omega)
    exact hI.insertable.storable c hc account t hphase

/-- The instances hear nothing that makes a saver untidy. -/
theorem tidy_hear {nodes : List Node} (h : ∀ node ∈ nodes, Tidy node.saver)
    (service : ServiceRun.State) (a : ServiceRun.Action) :
    ∀ node ∈ hear service nodes a, Tidy node.saver := by
  cases a with
  | extrato i now => exact h
  | startUp i => exact h
  | post a =>
    rw [hear]
    split
    · next call hcall =>
      rw [heard]
      split
      · intro node hnode
        obtain ⟨old, hold, rfl⟩ := List.mem_map.mp hnode
        exact h old hold
      · intro node hnode
        rcases hold : nodes[call.host]? with _ | old
        · rw [wakeAt, List.modify_eq_self (List.getElem?_eq_none_iff.mp hold)] at hnode
          exact h node hnode
        · rw [wakeAt_eq_set hold] at hnode
          exact Deployment.tidy_set h (h old (List.mem_of_getElem? hold)).wake _ node hnode
      · exact h
    · exact h

/-- An instance whose new state holds exactly what its old one does. -/
theorem sum_load_set {i : Nat} {node node' : Node} (hnode : s.nodes[i]? = some node)
    {rows : List Transaction} (u : Transaction)
    (hload : rows.count u + load u node' = load u node) :
    (ts ++ rows).count u + ((s.nodes.set i node').map (load u)).sum
      = ts.count u + (s.nodes.map (load u)).sum := by
  have hsum := Parties.sum_map_set (load u) hnode node'
  rw [List.count_append]
  omega

/-- A step of a call leaves what the others have made, and makes a record the table takes. -/
theorem Insertable.service_step {service service' : ServiceRun.State} (hI : Insertable service)
    (hsound : AllSound service.posts) {a : ServiceRun.Action}
    (hlocal : ∀ b, a = .post b → b.now.kind = .localTime)
    (h : ServiceRun.step json service a = some service') : Insertable service' := by
  cases a with
  | post a =>
    obtain ⟨posts, hposts, rfl⟩ := ServiceRun.step_post h
    obtain ⟨call, stores, phase, hcall, hmove, rfl⟩ := RequestRun.step_moves hposts
    have hcmem : call ∈ service.posts.calls := List.mem_of_getElem? hcall
    have hstorable : Storable phase := storable_of_moves hmove (hlocal a rfl) (hI.nul call hcmem)
      (hsound call hcmem) (hI.storable call hcmem)
    constructor
    · intro c hc
      rcases RequestRun.mem_put hc with hc | rfl
      · exact hI.nul c hc
      · exact hI.nul call hcmem
    · intro c hc
      rcases RequestRun.mem_put hc with hc | rfl
      · exact hI.storable c hc
      · exact hstorable
  | extrato i now =>
    obtain ⟨x, -, -, rfl⟩ := ServiceRun.step_extrato h
    exact ⟨hI.nul, hI.storable⟩
  | startUp i =>
    obtain ⟨rows, db, rest, -, -, rfl⟩ := ServiceRun.step_startUp h
    exact ⟨hI.nul, hI.storable⟩

/-- **Whatever fails**, what the calls have made can be inserted, as long as the clock is local. -/
theorem Insertable.step (hI : Insertable s.service) (hsound : AllSound s.service.posts) {a : Action}
    (hlocal : onLocalClock a = true) (h : EndToEnd.step json s a = some s') :
    Insertable s'.service := by
  rcases step_service h with ⟨b, rfl, hb⟩ | ⟨-, hsame⟩ | ⟨i, rfl, hrestart⟩
  · refine hI.service_step hsound (fun c hc => ?_) hb
    subst hc
    exact of_decide_eq_true hlocal
  · rw [hsame]
    exact hI
  · rw [hrestart]
    exact ⟨hI.nul, hI.storable⟩

/-- A calm step keeps the savers tidy. -/
theorem Ready.tidy_step (hI : Ready json base n s ts) {a : Action} (hcalm : calm s a = true)
    (h : step json s a = some s') : ∀ node ∈ s'.nodes, Tidy node.saver := by
  cases a with
  | service a =>
    obtain ⟨service, -, rfl⟩ := Option.map_eq_some_iff.mp h
    exact tidy_hear hI.tidy _ _
  | deliver i j =>
    obtain ⟨node, hnode, hbind⟩ := Option.bind_eq_some_iff.mp h
    obtain ⟨t, -, hmap⟩ := Option.bind_eq_some_iff.mp hbind
    obtain ⟨saver, hsaver, rfl⟩ := Option.map_eq_some_iff.mp hmap
    have hidle : isRunning node.saver = false := by
      rw [calm, hnode, Option.all_some] at hcalm
      exact (Bool.not_eq_true' _).mp hcalm
    refine Deployment.tidy_set hI.tidy ?_ i
    exact (hI.tidy node (List.mem_of_getElem? hnode)).enqueue hidle hsaver
  | saver i elapsed up =>
    obtain ⟨node, hnode, hmap⟩ := Option.bind_eq_some_iff.mp h
    obtain ⟨⟨saver, rows⟩, hsaver, rfl⟩ := Option.map_eq_some_iff.mp hmap
    obtain rfl : up = true := hcalm
    have htidy := (Deployment.saver_step_calm (hI.tidy node (List.mem_of_getElem? hnode))
      (fun _ _ => hI.batchOk hnode) hsaver).1
    exact Deployment.tidy_set hI.tidy htidy i
  | stop i => cases hcalm
  | restart i => cases hcalm

theorem ready_step (hI : Ready json base n s ts) {a : Action} (hcalm : calm s a = true)
    (h : step json s a = some s') : Ready json base n s' (ts ++ insertedBy s a) := by
  refine ⟨integral_step hI.integral h, hI.tidy_step hcalm h, ?_⟩
  exact hI.insertable.step hI.integral.faithful.sound (onLocalClock_of_calm hcalm) h

theorem calm_step (hI : Calm json base n s ts) {a : Action} (hcalm : calm s a = true)
    (h : step json s a = some s') : Calm json base n s' (ts ++ insertedBy s a) := by
  obtain ⟨hintegral, htidy, hnul, hstorable⟩ := ready_step hI.ready hcalm h
  refine ⟨hintegral, htidy, fun u => ?_, hnul, hstorable⟩
  cases a with
  | service a =>
    obtain ⟨service, hservice, rfl⟩ := Option.map_eq_some_iff.mp h
    have hbefore := hI.counted u
    rw [show insertedBy s (.service a) = [] from rfl, List.append_nil]
    dsimp only
    rw [count_publishedBy hservice, sum_load_hear, Nat.mul_add, hI.integral.accounted.nodes]
    omega
  | deliver i j =>
    obtain ⟨node, hnode, hbind⟩ := Option.bind_eq_some_iff.mp h
    obtain ⟨t, ht, hmap⟩ := Option.bind_eq_some_iff.mp hbind
    obtain ⟨saver, hsaver, rfl⟩ := Option.map_eq_some_iff.mp hmap
    rw [← hI.counted u]
    refine sum_load_set hnode u ?_
    rw [Deployment.load_deliver u ht hsaver]
    exact Nat.zero_add _
  | saver i elapsed up =>
    obtain ⟨node, hnode, hmap⟩ := Option.bind_eq_some_iff.mp h
    obtain ⟨⟨saver, rows⟩, hsaver, rfl⟩ := Option.map_eq_some_iff.mp hmap
    obtain rfl : up = true := hcalm
    have hpending := (Deployment.saver_step_calm (hI.tidy node (List.mem_of_getElem? hnode))
      (fun _ _ => hI.ready.batchOk hnode) hsaver).2 u
    rw [insertedBy_saver hnode hsaver, ← hI.counted u]
    refine sum_load_set hnode u ?_
    rw [load, load]
    dsimp only
    omega
  | stop i => cases hcalm
  | restart i => cases hcalm

/-- The calls of a booted system have made nothing yet. -/
theorem Booted.insertable (hs : Booted base n s)
    (hnul : ∀ c ∈ s.service.posts.calls, ∀ d, c.request.descricao = some d → Table.nul ∉ d) :
    Insertable s.service := by
  refine ⟨hnul, fun c hc => ?_⟩
  rw [hs.fresh c hc]
  exact fun _ _ hc => by cases hc

/-- An instance that has just started is tidy. -/
theorem tidy_replicate : ∀ node ∈ List.replicate n started, Tidy node.saver := by
  intro node hnode
  obtain rfl := List.eq_of_mem_replicate hnode
  exact ⟨List.not_mem_nil, fun hrunning => Bool.noConfusion hrunning⟩

theorem calm_run (hs : Booted base n s)
    (hnul : ∀ c ∈ s.service.posts.calls, ∀ d, c.request.descricao = some d → Table.nul ∉ d)
    {actions : List Action}
    (hcalm : Transition.AllSteps (step json) (fun s a => calm s a = true) s actions)
    (hrun : Transition.run (step json) s actions = some s') :
    Calm json base n s' (Transition.yields (step json) insertedBy s actions) := by
  have hstart : Calm json base n s [] := by
    refine ⟨hs.integral, ?_, fun u => ?_, hnul, (hs.insertable hnul).storable⟩
    · rw [hs.nodes]
      exact tidy_replicate
    · rw [hs.nodes, sum_load_replicate, publishedBy_fresh hs.fresh]
      rfl
  exact Transition.run_yields (step json) insertedBy (I := Calm json base n)
    (fun _ _ _ _ hI hcalm h => calm_step hI hcalm h) actions s s' [] hstart hcalm hrun

/-- Where there is nothing left to deliver or to drain there are no copies. -/
theorem sum_load_of_quiet {nodes : List Node}
    (hquiet : ∀ node ∈ nodes, node.inbox = [] ∧ node.saver.pending = []) (t : Transaction) :
    (nodes.map (load t)).sum = 0 := by
  refine List.sum_eq_zero fun z hz => ?_
  obtain ⟨node, hnode, rfl⟩ := List.mem_map.mp hz
  obtain ⟨hinbox, hpending⟩ := hquiet node hnode
  rw [load, hinbox, hpending]
  rfl

/-- With nothing left to deliver or to drain, the rows are what was published, `n` times over. -/
theorem Calm.count_of_quiet (hI : Calm json base n s ts)
    (hquiet : ∀ node ∈ s.nodes, node.inbox = [] ∧ node.saver.pending = []) (t : Transaction) :
    ts.count t = n * (publishedBy s.service).count t := by
  rw [← hI.counted t, sum_load_of_quiet hquiet, Nat.add_zero]

/-- Those rows, up to their order. -/
theorem Calm.perm_of_quiet (hI : Calm json base n s ts)
    (hquiet : ∀ node ∈ s.nodes, node.inbox = [] ∧ node.saver.pending = []) :
    ts.Perm (List.replicate n (publishedBy s.service)).flatten := by
  refine List.perm_iff_count.mpr fun t => ?_
  rw [hI.count_of_quiet hquiet, List.count_flatten, List.map_replicate, List.sum_replicate,
    nsmul_eq_mul, Nat.cast_id]

end CalmRuns

/-- The record a call has answered with a success about. -/
def acknowledged : Phase → Option Transaction
  | .returned (some (_, t)) (.ok (.ok _)) => some t
  | _ => none

/-- What a call that has returned has published it has acknowledged. -/
theorem acknowledged_eq_published {request : TransactionRequest}
    {executed : Option (Account × Transaction)}
    {outcome : Except Fault (HttpResult TransactionResponse)}
    (h : Sound request (.returned executed outcome)) :
    acknowledged (.returned executed outcome) = published (.returned executed outcome) := by
  rcases executed with _ | ⟨account, t⟩
  · rfl
  · obtain ⟨-, rfl⟩ := h
    rfl

/-- At rest the rows are those of the successes, `n` times over. -/
theorem Calm.count_acknowledged {json : TransactionJson} {base : List Row} {n : Nat} {s : State}
    {ts : List Transaction} (hI : Calm json base n s ts) (hreturned : Returned s.service.posts)
    (hquiet : ∀ node ∈ s.nodes, node.inbox = [] ∧ node.saver.pending = []) (t : Transaction) :
    ts.count t = n * (s.service.posts.calls.filterMap fun c => acknowledged c.phase).count t := by
  have hsame : (s.service.posts.calls.filterMap fun c => acknowledged c.phase)
      = publishedBy s.service := by
    refine List.filterMap_congr fun c hc => ?_
    obtain ⟨executed, outcome, hphase⟩ := exists_of_isReturned (hreturned c hc)
    have hsound := hI.integral.faithful.sound c hc
    rw [hphase] at hsound ⊢
    exact acknowledged_eq_published hsound
  rw [hsame]
  exact hI.count_of_quiet hquiet t

/-- **`n` rows for each success.**  In a calm run of `n` instances, with no U+0000 in a description:
    when every call has returned, and everything has been delivered and drained, the rows beyond
    the first ones are the records of the successful responses, `n` for each. -/
theorem rows_per_success (json : TransactionJson) (base : List Row) (n : Nat) (s s' : State)
    (hs : Booted base n s)
    (hnul : ∀ c ∈ s.service.posts.calls, ∀ d, c.request.descricao = some d → Table.nul ∉ d)
    (actions : List Action)
    (hcalm : Transition.AllSteps (step json) (fun s a => calm s a = true) s actions)
    (hrun : Transition.run (step json) s actions = some s')
    (hreturned : Returned s'.service.posts)
    (hquiet : ∀ node ∈ s'.nodes, node.inbox = [] ∧ node.saver.pending = []) :
    ∃ ts, Inserted base ts s'.table ∧ ∀ t, ts.count t
      = n * (s'.service.posts.calls.filterMap fun c => acknowledged c.phase).count t := by
  have hend := calm_run hs hnul hcalm hrun
  exact ⟨_, hend.integral.accounted.inserted, hend.count_acknowledged hreturned hquiet⟩

/-- The savers of both instances insert the credit, once each. -/
def delivered : List Action := journey ++ List.replicate 7 (.saver 1 true true)
  ++ List.replicate 2 (.saver 0 true true) ++ [.service (.startUp 1)]

theorem twoBooting_nul : ∀ c ∈ twoBooting.service.posts.calls, ∀ d,
    c.request.descricao = some d → Table.nul ∉ d := by
  intro c hc d hd
  obtain rfl := List.mem_singleton.mp hc
  cases hd
  decide

theorem delivered_calm : Transition.AllSteps (step systemTextJson) (fun s a => calm s a = true)
    twoBooting delivered := by decide +kernel

/-- At the end of the run all is quiet. -/
theorem delivered_quiet : ∃ s',
    Transition.run (step systemTextJson) twoBooting delivered = some s' ∧
      Returned s'.service.posts ∧ ∀ node ∈ s'.nodes, node.inbox = [] ∧ node.saver.pending = [] := by
  have hdone : (Transition.run (step systemTextJson) twoBooting delivered).any (fun s' =>
      s'.service.posts.calls.all (fun c => isReturned c) ∧
        s'.nodes.all (fun node => node.inbox = [] ∧ node.saver.pending = [])) = true := by
    decide +kernel
  obtain ⟨s', hrun, hend⟩ := (Option.any_eq_true _ _).mp hdone
  obtain ⟨hcalls, hnodes⟩ := of_decide_eq_true hend
  exact ⟨s', hrun, List.all_eq_true.mp hcalls,
    fun node hnode => of_decide_eq_true (List.all_eq_true.mp hnodes node hnode)⟩

theorem rows_per_success_delivered : ∃ s' ts,
    Transition.run (step systemTextJson) twoBooting delivered = some s' ∧
      Inserted [seedRow] ts s'.table ∧ ∀ t, ts.count t
        = 2 * (s'.service.posts.calls.filterMap fun c => acknowledged c.phase).count t := by
  obtain ⟨s', hrun, hreturned, hquiet⟩ := delivered_quiet
  obtain ⟨ts, hinserted, hcount⟩ := rows_per_success systemTextJson [seedRow] 2 twoBooting s'
    twoBooting_booted twoBooting_nul delivered delivered_calm hrun hreturned hquiet
  exact ⟨s', ts, hrun, hinserted, hcount⟩

end EndToEnd

end Rinha
