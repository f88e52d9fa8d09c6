/-
  Where a balance comes from.

  Concurrent requests can lose updates: a call that writes over another one leaves its amount out.
  They can do nothing worse.  In every state of the service, whatever the interleaving of POST
  requests, statements and start-ups, every balance it shows, in a read, in a statement or in a
  response, is that of a seed row plus the amounts of SOME calls, each counted once, every one of
  which has added its record on that account (`balances_are_explained`).  No amount is invented,
  and none is counted twice.

  The calls that explain a balance are those along the chain of reads behind it (`Explained`): a
  call explains what it writes by what it read, and itself.  It cannot be in that chain already,
  because the calls of a chain have added their records, and it has not.
-/
import RinhaBackend.Isolation
import RinhaBackend.LostUpdate

namespace Rinha

namespace Provenance

open CachedRepository InitializeRedis ServiceRun
open RequestRun (Call Phase Moves Sound Executed)
open Ledger (wrap32)
open LostUpdate (amount)

section Definitions

variable (rows : List Row)

/-- What call `i` is worth: the signed amount of its request. -/
def worth (calls : List Call) (i : Nat) : Int :=
  match calls[i]? with
  | some c => amount c.request
  | none => 0

/-- Call `i` has added its record on account `id`. -/
def HasAdded (calls : List Call) (id : Int32) (i : Nat) : Prop :=
  ∃ c, calls[i]? = some c ∧ c.accountId = id ∧ c.phase.added.isSome

/-- A balance of account `id` that a seed row and calls, each counted once, account for. -/
def Explained (calls : List Call) (id saldo : Int32) : Prop :=
  ∃ row ∈ seedRows rows id, ∃ chain : List Nat, chain.Nodup ∧
    (∀ i ∈ chain, HasAdded calls id i) ∧
    saldo.toInt = wrap32 (row.saldo.toInt + (chain.map (worth calls)).sum)

/-- What a step keeps of the calls that have added: they are there, on the same account, with the
    same request. -/
def Continues (calls calls' : List Call) : Prop :=
  ∀ (i : Nat) (c : Call), calls[i]? = some c → c.phase.added.isSome →
    ∃ c' : Call, calls'[i]? = some c' ∧ c'.accountId = c.accountId ∧ c'.request = c.request ∧
      c'.phase.added.isSome

/-- The balance a call holds: the one it read, and once it has added its record the one it wrote. -/
def balanceOf : Phase → Option Int32
  | .read account | .adding account _ => some account.saldo
  | .trimming _ t | .publishing _ t | .responding _ t | .returned (some (_, t)) _ => some t.saldo
  | .received | .reading | .returned none _ => none

/-- The invariant: every balance stored, held by a call or shown in a statement is explained. -/
structure Accounted (json : TransactionJson) (s : State) : Prop where
  faithful : Faithful json (fun id t => t.accountId = id) s
  stored : Records json (fun id t => Explained rows s.posts.calls id t.saldo) s.posts.redis
  held : ∀ c ∈ s.posts.calls, ∀ saldo, balanceOf c.phase = some saldo →
    Explained rows s.posts.calls c.accountId saldo
  shown : ∀ x ∈ s.extratos, ∀ statement, x.response = some (.ok (.ok statement)) →
    Explained rows s.posts.calls x.accountId statement.saldo.total
  startUps : ∀ left ∈ s.startUps, left ⊆ rows

end Definitions

section Chains

variable {rows : List Row} {calls calls' : List Call} {id : Int32}

theorem Continues.hasAdded (h : Continues calls calls') {i : Nat} (hi : HasAdded calls id i) :
    HasAdded calls' id i := by
  obtain ⟨c, hc, hid, hsome⟩ := hi
  obtain ⟨c', hc', hid', -, hsome'⟩ := h i c hc hsome
  exact ⟨c', hc', hid'.trans hid, hsome'⟩

/-- A chain of calls is worth what it was. -/
theorem Continues.map_worth (h : Continues calls calls') {chain : List Nat}
    (hadded : ∀ i ∈ chain, HasAdded calls id i) :
    chain.map (worth calls') = chain.map (worth calls) := by
  refine List.map_congr_left fun i hi => ?_
  obtain ⟨c, hc, -, hsome⟩ := hadded i hi
  obtain ⟨c', hc', -, hrequest, -⟩ := h i c hc hsome
  rw [worth, worth, hc, hc']
  dsimp only
  rw [hrequest]

/-- What is explained stays explained. -/
theorem Explained.mono {saldo : Int32} (h : Explained rows calls id saldo)
    (hstay : Continues calls calls') : Explained rows calls' id saldo := by
  obtain ⟨row, hrow, chain, hnodup, hadded, hsum⟩ := h
  exact ⟨row, hrow, chain, hnodup, fun i hi => hstay.hasAdded (hadded i hi),
    by rw [hstay.map_worth hadded, hsum]⟩

/-- What a seed row shows needs no calls. -/
theorem explained_seed {row : Row} (hrow : row ∈ rows) {t : Transaction} (h : seed? row = some t) :
    Explained rows calls row.accountId t.saldo := by
  obtain ⟨hdesc, realizadaEm, rfl⟩ := eq_of_seed? h
  refine ⟨row, List.mem_filter.mpr ⟨hrow, decide_eq_true ⟨rfl, hdesc⟩⟩, [], List.nodup_nil,
    fun i hi => (by cases hi), ?_⟩
  have hrange := inInt32_toInt row.saldo
  show row.saldo.toInt = _
  rw [List.map_nil, List.sum_nil, add_zero, wrap32]
  exact (Int.bmod_eq_of_le (by have := hrange.1; omega) (by have := hrange.2; omega)).symm

/-- `Execute` moves the balance by the signed amount, in 32 bits. -/
theorem saldo_of_executed {request : TransactionRequest} {account : Account} {t : Transaction}
    (h : Executed request account t) :
    t.saldo.toInt = wrap32 (account.saldo.toInt + amount request) := by
  obtain ⟨now, rfl⟩ := h.made
  rw [amount, wrap32]
  by_cases hcredit : request.tipo = Transaction.credit
  · rw [if_pos hcredit, account.execute_saldo_credit request now hcredit, Int32.toInt_add]
  · rw [if_neg hcredit, account.execute_saldo_other request now hcredit, Int32.toInt_sub,
      ← sub_eq_add_neg]

/-- **A call explains what it writes** by what it read, and itself. -/
theorem Explained.extend {account : Account} (h : Explained rows calls id account.saldo)
    (hstay : Continues calls calls') {i : Nat} (hbefore : ¬ HasAdded calls id i) {c : Call}
    (hc : calls'[i]? = some c)
    (hid : c.accountId = id) (hadded : c.phase.added.isSome) {t : Transaction}
    (hex : Executed c.request account t) : Explained rows calls' id t.saldo := by
  obtain ⟨row, hrow, chain, hnodup, hall, hsum⟩ := h
  -- the calls of a chain have added their records, and this one had not
  have hnew : i ∉ chain := fun hi => hbefore (hall i hi)
  have hself : worth calls' i = amount c.request := by rw [worth, hc]
  refine ⟨row, hrow, i :: chain, List.nodup_cons.mpr ⟨hnew, hnodup⟩, fun j hj => ?_, ?_⟩
  · rcases List.mem_cons.mp hj with rfl | hj
    · exact ⟨c, hc, hid, hadded⟩
    · exact hstay.hasAdded (hall j hj)
  · rw [saldo_of_executed hex, hsum, List.map_cons, List.sum_cons, hstay.map_worth hall, hself]
    simp only [wrap32]
    rw [Int.bmod_add_bmod, add_assoc, add_comm (amount c.request)]

end Chains

/-! ## Runs -/

section Runs

variable {json : TransactionJson} {rows : List Row}

/-- The other calls go on as they are, and the one that moves keeps what it has added. -/
theorem continues_put {s : RequestRun.State} {i : Nat} {call : Call}
    (hcall : s.calls[i]? = some call) (stores : Stores) {phase : Phase}
    (hadded : call.phase.added.isSome → phase.added.isSome) :
    Continues s.calls (s.put i call stores phase).calls := by
  have hlt := (List.getElem?_eq_some_iff.mp hcall).1
  intro j c hc hsome
  rw [RequestRun.State.put]
  by_cases hij : i = j
  · subst hij
    rw [hcall, Option.some.injEq] at hc
    subst hc
    exact ⟨_, List.getElem?_set_self hlt, rfl, rfl, hadded hsome⟩
  · refine ⟨c, ?_, rfl, rfl, hsome⟩
    rw [List.getElem?_set_ne hij]
    exact hc

/-- A call that has a balance to show after its step had it before, has just read it, or has just
    written it. -/
theorem explained_of_moves {s : RequestRun.State} {i : Nat} {call : Call}
    (hcall : s.calls[i]? = some call) {now : DateTime} {stores : Stores} {phase : Phase}
    (h : Moves json call now (s.storesOf call.host) call.phase stores phase)
    (hsound : Sound call.request call.phase)
    (hstored : Records json (fun id t => Explained rows s.calls id t.saldo) s.redis)
    (hheld : ∀ saldo, balanceOf call.phase = some saldo →
      Explained rows s.calls call.accountId saldo)
    (hid : ∀ t, call.phase.executed.map Prod.snd = some t → t.accountId = call.accountId) :
    Continues s.calls (s.put i call stores phase).calls ∧
      (∀ saldo, balanceOf phase = some saldo →
        Explained rows (s.put i call stores phase).calls call.accountId saldo) ∧
      Records json (fun id t => Explained rows (s.put i call stores phase).calls id t.saldo)
        stores.redis := by
  have hstay : Continues s.calls (s.put i call stores phase).calls := by
    refine continues_put hcall stores fun hsome => ?_
    obtain ⟨x, hx⟩ := Option.isSome_iff_exists.mp hsome
    exact Option.isSome_iff_exists.mpr ⟨x, h.added hx⟩
  have hkept : Records json
      (fun id t => Explained rows (s.put i call stores phase).calls id t.saldo) s.redis := by
    intro id e he
    obtain ⟨t, rfl, ht⟩ := hstored id e he
    exact ⟨t, rfl, ht.mono hstay⟩
  refine ⟨hstay, ?_⟩
  generalize hbefore : call.phase = before at h hheld hid hsound
  cases h with
  | refuse _ | validate _ | notFound _ _ | exceed _ _ =>
    exact ⟨fun _ hc => (by cases hc), hkept⟩
  | read account hread _ =>
    refine ⟨fun saldo hsaldo => ?_, hkept⟩
    cases hsaldo
    obtain ⟨t, -, ht, rfl⟩ := hkept.read hread
    exact ht
  | execute account _ => exact ⟨fun saldo hsaldo => (hheld saldo hsaldo).mono hstay, hkept⟩
  | add account t =>
    -- the record is explained by the account read and this call, which had not added
    have hnot : ¬ HasAdded s.calls call.accountId i := by
      rintro ⟨c, hc, -, hsome⟩
      rw [hcall, Option.some.injEq] at hc
      rw [← hc, hbefore] at hsome
      cases hsome
    have hself : (s.put i call { s.storesOf call.host with
        redis := saveInsert json (s.storesOf call.host).redis t } (.trimming account t)).calls[i]?
          = some { call with phase := .trimming account t } :=
      List.getElem?_set_self (List.getElem?_eq_some_iff.mp hcall).1
    have hwritten := (hheld account.saldo rfl).extend hstay hnot hself rfl rfl hsound
    refine ⟨fun saldo hsaldo => ?_, hkept.saveInsert ?_⟩
    · cases hsaldo
      exact hwritten
    · rw [hid t rfl]
      exact hwritten
  | trim account t =>
    exact ⟨fun saldo hsaldo => (hheld saldo hsaldo).mono hstay, hkept.saveTrim t⟩
  | publish account t => exact ⟨fun saldo hsaldo => (hheld saldo hsaldo).mono hstay, hkept⟩
  | respond account t => exact ⟨fun saldo hsaldo => (hheld saldo hsaldo).mono hstay, hkept⟩

/-- The balance of a statement is that of a stored record. -/
theorem statement_of_stored {R : Int32 → Transaction → Prop} {id : Int32} {now : DateTime}
    (stores : Stores) (hstored : Records json R stores.redis) {statement : BankStatement}
    (h : Endpoints.getBankStatementAsync json id now stores = .ok (.ok statement)) :
    ∃ t, R id t ∧ statement.saldo.total = t.saldo := by
  rw [Endpoints.getBankStatementAsync, TransactionService.getBankStatementAsync] at h
  by_cases hne : (stores.redis (getBankStatementKey id)).entries = []
  · -- no record: the default statement is a 404
    rw [getBankStatementAsync_of_empty now hne] at h
    cases h
  · obtain ⟨low, t, hshown⟩ := (hstored.recorded id).exists_shown hne
    have hmem : entryOf json t ∈ (stores.redis (getBankStatementKey id)).entries := by
      refine List.mem_of_mem_take (i := 11) ?_
      rw [hshown, List.map_append]
      exact List.mem_append_right _ List.mem_cons_self
    obtain ⟨u, hu, hR⟩ := hstored id _ hmem
    obtain rfl := entryOf_injective json hu
    rw [getBankStatementAsync_of_records now hshown] at h
    dsimp only at h
    by_cases hzero : t.saldo = 0 ∧ t.limite = 0
    · rw [if_pos hzero] at h
      cases h
    · rw [if_neg hzero] at h
      split at h
      · cases h
      · cases h
        exact ⟨t, hR, rfl⟩

theorem accounted_step {s s' : State} {a : Action} (hI : Accounted rows json s)
    (h : step json s a = some s') : Accounted rows json s' := by
  have hfaithful := faithful_step Isolation.inherited_accountId hI.faithful h
  cases a with
  | post a =>
    obtain ⟨posts, hposts, rfl⟩ := step_post h
    obtain ⟨call, stores, phase, hcall, hmove, rfl⟩ := RequestRun.step_moves hposts
    have hmem : call ∈ s.posts.calls := List.mem_of_getElem? hcall
    have hid : ∀ t, call.phase.executed.map Prod.snd = some t → t.accountId = call.accountId := by
      intro t ht
      obtain ⟨⟨account, u⟩, hex, rfl⟩ := Option.map_eq_some_iff.mp ht
      exact holds_executed Isolation.inherited_accountId (hI.faithful.sound call hmem)
        (hI.faithful.held call hmem) hex
    obtain ⟨hstay, hheld, hstored⟩ := explained_of_moves hcall hmove
      (hI.faithful.sound call hmem) hI.stored (hI.held call hmem) hid
    refine ⟨hfaithful, hstored, fun c hc saldo hsaldo => ?_, ?_, hI.startUps⟩
    · rcases RequestRun.mem_put hc with hc | rfl
      · exact (hI.held c hc saldo hsaldo).mono hstay
      · exact hheld saldo hsaldo
    · exact fun x hx statement hr => (hI.shown x hx statement hr).mono hstay
  | extrato i now =>
    obtain ⟨x, hx, -, rfl⟩ := step_extrato h
    refine ⟨hfaithful, hI.stored, hI.held, fun y hy statement hr => ?_, hI.startUps⟩
    rcases List.mem_or_eq_of_mem_set hy with hy | rfl
    · exact hI.shown y hy statement hr
    · obtain ⟨t, ht, htotal⟩ := statement_of_stored (s.posts.storesOf x.host) hI.stored
        (Option.some.inj hr)
      rw [htotal]
      exact ht
  | startUp i =>
    obtain ⟨left, db, rest, hleft, hstep, rfl⟩ := step_startUp h
    have hmem : left ∈ s.startUps := List.mem_of_getElem? hleft
    obtain ⟨hsub, hdb⟩ := stepStartUp_cases hstep
    refine ⟨hfaithful, ?_, hI.held, hI.shown, fun left' hleft' => ?_⟩
    · rcases hdb with rfl | ⟨row, hrow, t, hseed, rfl⟩
      · exact hI.stored
      · refine hI.stored.saveInsert ?_
        rw [accountId_of_seed? hseed]
        exact explained_seed (hI.startUps left hmem hrow) hseed
    · rcases List.mem_or_eq_of_mem_set hleft' with hold | rfl
      · exact hI.startUps left' hold
      · exact List.Subset.trans hsub (hI.startUps left hmem)

/-- **Every balance is explained.**  From an empty Redis, in every state reached by any interleaving
    of POST calls, statements and start-ups over the rows of a table: the balance an account is
    read with, the balance of every statement answered, and the balance of every success response
    are each that of a seed row of the account plus, in 32 bits, the signed amounts of calls that
    have added a record on the account, no call counted twice. -/
theorem balances_are_explained (json : TransactionJson) (rows : List Row) (s s' : State)
    (hempty : s.posts.redis = Redis.empty) (hfresh : RequestRun.Fresh s.posts)
    (hasked : ∀ x ∈ s.extratos, x.response = none) (hstart : ∀ left ∈ s.startUps, left ⊆ rows)
    (actions : List Action) (hrun : Transition.run (step json) s actions = some s') :
    (∀ id account, getAccountByIdAsync json id s'.posts.redis = .ok (some account) →
        Explained rows s'.posts.calls id account.saldo) ∧
      (∀ x ∈ s'.extratos, ∀ statement, x.response = some (.ok (.ok statement)) →
        Explained rows s'.posts.calls x.accountId statement.saldo.total) ∧
      ∀ c ∈ s'.posts.calls, ∀ executed body, c.phase = .returned executed (.ok (.ok body)) →
        ∃ saldo, body.saldo.toInt = saldo.toInt ∧
          Explained rows s'.posts.calls c.accountId saldo := by
  have hnone : ∀ {R : Int32 → Transaction → Prop}, Records json R s.posts.redis := by
    intro R id e he
    rw [hempty] at he
    cases he
  have hstart : Accounted rows json s := by
    refine ⟨⟨hfresh.allSound, hnone, ?_, ?_⟩, hnone, ?_, ?_, hstart⟩
    · intro c hc account haccount
      rw [hfresh c hc] at haccount
      cases haccount
    · exact fun left hleft row hrow t hseed => accountId_of_seed? hseed
    · intro c hc saldo hsaldo
      rw [hfresh c hc] at hsaldo
      cases hsaldo
    · intro x hx statement hr
      rw [hasked x hx] at hr
      cases hr
  have hend := Transition.run_invariant (step json) (fun _ _ _ hI h => accounted_step hI h) hstart
    hrun
  refine ⟨fun id account hread => ?_, hend.shown, fun c hc executed body hphase => ?_⟩
  · obtain ⟨t, -, ht, rfl⟩ := hend.stored.read hread
    exact ht
  · have hsound := hend.faithful.sound c hc
    rw [hphase] at hsound
    obtain ⟨account, t, rfl, -, rfl⟩ := hsound.success
    exact ⟨t.saldo, Int32.toInt_toInt64 _, hend.held c hc t.saldo (by rw [hphase]; rfl)⟩

end Runs

/-- A start-up, two credits of 10 on account 1, and a statement. -/
def booting : State :=
  ⟨⟨Redis.empty, [], fun _ => 0, [⟨0, 1, TransactionService.creditOfTen, .received⟩,
      ⟨1, 1, TransactionService.creditOfTen, .received⟩]⟩, [⟨0, 1, none⟩], [[seedRow]]⟩

/-- The start-up first, then both credits in step, then the statement: one credit is lost. -/
def losingOne : List Action :=
  .startUp 0 :: (LostUpdate.inStep.map .post ++ [.extrato 0 (.ofTicks 7 .localTime)])

theorem balances_are_explained_losingOne :
    ∃ s', Transition.run (step systemTextJson) booting losingOne = some s' ∧
      Explained [seedRow] s'.posts.calls 1 10 := by
  have hdone : (Transition.run (step systemTextJson) booting losingOne).any (fun s' =>
      getAccountByIdAsync systemTextJson 1 s'.posts.redis = .ok (some ⟨1, 1000, 10⟩)) = true := by
    decide +kernel
  obtain ⟨s', hrun, hread⟩ := (Option.any_eq_true _ _).mp hdone
  refine ⟨s', hrun, ?_⟩
  refine (balances_are_explained systemTextJson [seedRow] booting s' rfl ?_ ?_ ?_ losingOne hrun).1
    1 ⟨1, 1000, 10⟩ (of_decide_eq_true hread)
  · intro c hc
    rcases List.mem_pair.mp hc with rfl | rfl <;> rfl
  · intro x hx
    rw [List.mem_singleton.mp hx]
  · intro left hleft
    rw [List.mem_singleton.mp hleft]
    exact List.Subset.refl _

end Provenance

end Rinha
