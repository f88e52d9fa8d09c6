/-
  When an accepted transaction is a member of its own.

  Transactions carry no identifier: a member of a set is the text of its record, and the record is
  determined by the request, the account that was read and the clock reading, and determines them
  (`Account.execute_injective`).  So the one thing `SortedSetAdd` can find in its way is the record
  of a twin: a call with the same body that read the same account at the same reading of the clock.
  A stale read makes one, and so does an amount of 0, which validation lets through.

  What carries it over runs is where members come from (`Origin`): seeds, which have no description,
  and calls that have done their add.
-/
import RinhaBackend.DebitSafety
import RinhaBackend.LostUpdate
import RinhaBackend.SequentialRun

namespace Rinha

namespace DistinctRecords

open CachedRepository RequestRun
open DebitSafety (mem_of_moves)
open LostUpdate (addOf)
open SequentialRun (SeededCache)

/-! ## Where members come from -/

/-- A record without a description, or that of a call that has added it. -/
def FromCalls (calls : List Call) (t : Transaction) : Prop :=
  t.descricao = some [] ∨ ∃ c ∈ calls, ∃ account, c.phase.added = some (account, t)

/-- The invariant. -/
structure Origin (json : TransactionJson) (s : State) : Prop where
  sound : AllSound s
  stored : Records json (fun _ t => FromCalls s.calls t) s.redis

section Runs

variable {json : TransactionJson}

theorem origin_of_seeded {s : State} (hseed : SeededCache json s.redis) (hfresh : Fresh s) :
    Origin json s :=
  ⟨hfresh.allSound, hseed.records fun _ _ hof => Or.inl hof.descricao⟩

theorem origin_step {s s' : State} {a : Action} (hI : Origin json s) (h : step json s a = some s') :
    Origin json s' := by
  have hstay : ∀ t, FromCalls s.calls t → FromCalls s'.calls t := by
    rintro t (hdesc | ⟨c, hc, account, hadded⟩)
    · exact Or.inl hdesc
    · obtain ⟨c', hc', -, hadded'⟩ := exists_added_step h hc hadded
      exact Or.inr ⟨c', hc', account, hadded'⟩
  refine ⟨allSound_step hI.sound h, ?_⟩
  obtain ⟨call, stores, phase, hcall, hmove, rfl⟩ := step_moves h
  intro id e he
  rcases mem_of_moves hmove he with hmem | ⟨account, t, rfl, -, rfl⟩
  · obtain ⟨t, rfl, ht⟩ := hI.stored id e hmem
    exact ⟨t, rfl, hstay t ht⟩
  · exact ⟨t, rfl, Or.inr ⟨_, Parties.moved_mem hcall _, account, rfl⟩⟩

/-! ## Twins -/

/-- A step that adds a record adds a member that is not present. -/
def AddsNewMember (json : TransactionJson) (s : State) (a : Action) : Prop :=
  ∀ x ∈ addOf s a, ∀ e ∈ (s.redis (getBankStatementKey x.2.2.accountId)).entries,
    SortedSet.member e ≠ json.serialize x.2.2

instance (json : TransactionJson) (s : State) (a : Action) : Decidable (AddsNewMember json s a) :=
  inferInstanceAs (Decidable (∀ x ∈ addOf s a, _))

/-- Call `c` is a twin of `call`, which has read `account` and executed at `now`: it had the same
    body, read the same account, executed at the same reading of the clock, and its record is
    stored. -/
def Twin (json : TransactionJson) (db : Redis) (call : Call) (account : Account) (now : DateTime)
    (c : Call) : Prop :=
  c.request = call.request ∧ ∃ t, c.phase.added = some (account, t) ∧ t.realizadaEm = now ∧
    entryOf json t ∈ (db (getBankStatementKey t.accountId)).entries

instance (json : TransactionJson) (db : Redis) (call : Call) (account : Account) (now : DateTime)
    (c : Call) : Decidable (Twin json db call account now c) :=
  decidable_of_iff (c.request = call.request ∧ ∃ x ∈ c.phase.added.toList, x.1 = account ∧
      x.2.realizadaEm = now ∧ entryOf json x.2 ∈ (db (getBankStatementKey x.2.accountId)).entries)
    (and_congr_right fun _ => by
      constructor
      · rintro ⟨⟨a, t⟩, hadded, rfl, htime, hstored⟩
        exact ⟨t, Option.mem_toList.mp hadded, htime, hstored⟩
      · rintro ⟨t, hadded, htime, hstored⟩
        exact ⟨(account, t), Option.mem_toList.mpr hadded, rfl, htime, hstored⟩)

/-- A step that adds a record is the step of a call without a twin. -/
def NoTwin (json : TransactionJson) (s : State) (a : Action) : Prop :=
  ∀ x ∈ addOf s a, ∀ c ∈ s.calls, ¬ Twin json s.redis x.1 x.2.1 x.2.2.realizadaEm c

instance (json : TransactionJson) (s : State) (a : Action) : Decidable (NoTwin json s a) :=
  inferInstanceAs (Decidable (∀ x ∈ addOf s a, ∀ c ∈ s.calls, ¬ _))

/-- The add a step makes is that of a call of the system. -/
theorem of_mem_addOf {s : State} {a : Action} {x : Call × Account × Transaction}
    (h : x ∈ addOf s a) : x.1 ∈ s.calls ∧ x.1.phase = .adding x.2.1 x.2.2 := by
  obtain ⟨call, hcall, hphase⟩ := Option.bind_eq_some_iff.mp h
  split at hphase
  · next account t hadding =>
    cases hphase
    exact ⟨List.mem_of_getElem? hcall, hadding⟩
  · cases hphase

/-- Records of the same request, account and time are the same. -/
theorem executed_unique {r : TransactionRequest} {account : Account} {t u : Transaction}
    (ht : Executed r account t) (hu : Executed r account u)
    (htime : t.realizadaEm = u.realizadaEm) : t = u := by
  obtain ⟨now, rfl⟩ := ht.made
  obtain ⟨later, rfl⟩ := hu.made
  rw [Account.execute_realizadaEm, Account.execute_realizadaEm] at htime
  rw [htime]

/-- **One add**: its member is new unless the call has a twin. -/
theorem addsNewMember_iff {s : State} (hI : Origin json s) (a : Action) :
    AddsNewMember json s a ↔ NoTwin json s a := by
  refine forall_congr' fun x => forall_congr' fun hx => ?_
  obtain ⟨call, account, t⟩ := x
  obtain ⟨hcall, hphase⟩ := of_mem_addOf hx
  have hex : Executed call.request account t :=
    (hI.sound call hcall).executed (by rw [hphase]; rfl)
  dsimp only
  constructor
  · rintro hnew c hc ⟨hrequest, u, hadded, htime, hstored⟩
    have hexu := (hI.sound c hc).executed (executed_of_added hadded)
    rw [hrequest] at hexu
    obtain rfl := executed_unique hexu hex htime
    exact hnew _ hstored rfl
  · intro hno e he hm
    obtain ⟨u, rfl, hfrom⟩ := hI.stored t.accountId e he
    obtain rfl : u = t := json.serialize_injective hm
    rcases hfrom with hdesc | ⟨c, hc, account', hadded⟩
    · -- a seed has no description, and the call's request has one
      obtain ⟨now, hmade⟩ := hex.made
      obtain ⟨-, ⟨d, hd, hpos, -⟩, -⟩ := (call.request.valid_iff).mp hex.valid
      have hsame : u.descricao = call.request.descricao := by
        rw [hmade]
        rfl
      rw [hsame, hd, Option.some.injEq] at hdesc
      rw [hdesc] at hpos
      exact absurd hpos (by decide)
    · have hexc := (hI.sound c hc).executed (executed_of_added hadded)
      obtain ⟨now, hmade⟩ := hex.made
      obtain ⟨later, hmadec⟩ := hexc.made
      obtain ⟨haccount, hrequest, -⟩ := Account.execute_injective (hmade.symm.trans hmadec)
      exact hno c hc ⟨hrequest.symm, u, haccount ▸ hadded, rfl, he⟩

/-- **When no two acknowledged transactions collapse.**  From a seeded cache, in every interleaving
    of requests on any accounts and from any instances, each add adds a member that was not present,
    if and only if no call that adds has a twin: another call with the same body, which read the
    same account at the same reading of the clock and whose record is still stored. -/
theorem records_are_distinct_iff (json : TransactionJson) (s : State)
    (hseed : SeededCache json s.redis) (hfresh : Fresh s) (actions : List Action) :
    Transition.AllSteps (step json) (AddsNewMember json) s actions ↔
      Transition.AllSteps (step json) (NoTwin json) s actions :=
  Transition.allSteps_congr (step json) (fun _ _ _ hI hs => origin_step hI hs)
    (fun _ a hI => addsNewMember_iff hI a) actions (origin_of_seeded hseed hfresh)

end Runs

/-- Two credits of 10 that read the same balance, at different ticks, are two members. -/
theorem records_are_distinct_iff_inStep :
    Transition.AllSteps (step systemTextJson) (AddsNewMember systemTextJson) LostUpdate.twoCredits
      LostUpdate.inStep :=
  (records_are_distinct_iff systemTextJson LostUpdate.twoCredits
    (SequentialRun.seedTable_seedRow.seededCache systemTextJson) LostUpdate.twoCredits_fresh
    LostUpdate.inStep).mpr (by decide +kernel)

/-- Both calls in step at one tick, up to the second add. -/
def sameTick : List Action :=
  (List.replicate 4 [⟨0, .ofTicks 5 .localTime⟩, ⟨1, .ofTicks 5 .localTime⟩]).flatten

/-- Two credits of 10 that read the same balance at the same tick are one member. -/
theorem concurrent_credits_collapse :
    ¬ ∀ (s : State) (actions : List Action), SeededCache systemTextJson s.redis → Fresh s →
      (∀ c ∈ s.calls, c.request.isInvalid = false) →
      (actions.map fun a => a.now.ticks).Pairwise (· ≤ ·) →
      Transition.AllSteps (step systemTextJson) (AddsNewMember systemTextJson) s actions := by
  intro h
  have hall := h LostUpdate.twoCredits sameTick
    (SequentialRun.seedTable_seedRow.seededCache systemTextJson) LostUpdate.twoCredits_fresh
    (by decide) (by decide)
  exact absurd hall (by decide +kernel)

end DistinctRecords

end Rinha
