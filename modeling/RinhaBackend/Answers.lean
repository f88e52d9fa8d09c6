/-
  What the endpoints answer while everything interleaves.

  Every value `deserialize` is given was serialized by the backend, the response of the service is
  never an unsuccessful one without an error, and the loop of a statement stops at the end of what
  it has read.  So no request ends in an exception, whatever the interleaving, and an account of
  which no start-up has a row is not found (`no_request_throws`).

  A trim keeps the top record, so a set that has a record never becomes empty again: an account that
  one request has found, every later request finds (`found_stays_found`), and from the end of the
  first start-up on the accounts of its seeds are found by everybody (`seeded_are_served`).
-/
import RinhaBackend.Isolation
import RinhaBackend.LostUpdate
import RinhaBackend.StartUps

namespace Rinha

namespace Answers

open CachedRepository InitializeRedis ServiceRun
open LostUpdate (isAccepted)
open RequestRun (Call Phase Moves Executed stepCall)

/-! ## One answer -/

section Answer

variable {json : TransactionJson}

/-- The set of an account holds a record. -/
def Found (db : Redis) (id : Int32) : Prop := (db (getBankStatementKey id)).last? ≠ none

theorem Found.saveInsert {db : Redis} {id : Int32} (h : Found db id) (t : Transaction) :
    Found (saveInsert json db t) id := by
  by_cases hid : t.accountId = id
  · rw [Found, saveInsert_of_eq json db t hid]
    exact fun hc => List.ne_nil_of_mem (SortedSet.self_mem_add _ _ _)
      (List.getLast?_eq_none_iff.mp hc)
  · rw [Found, saveInsert_of_ne json db t hid]
    exact h

/-- The record just added is found. -/
theorem found_saveInsert (db : Redis) (t : Transaction) :
    Found (saveInsert json db t) t.accountId := by
  rw [Found, saveInsert_of_eq json db t rfl]
  exact fun hc => List.ne_nil_of_mem (SortedSet.self_mem_add _ _ _)
    (List.getLast?_eq_none_iff.mp hc)

theorem Found.of_trimmed {db db' : Redis} {id : Int32} (h : Found db id)
    (hdb : db' = db ∨ ∃ t, db' = saveTrim db t) : Found db' id := by
  rw [Found, last?_of_trimmed hdb]
  exact h

/-- **How a POST ends**: in a result; and in a 404 only from the step that reads, when there is no
    record or the account is account 0. -/
theorem result_of_stepCall {call : Call} {now : DateTime} {stores stores' : Stores}
    {executed : Option (Account × Transaction)}
    {outcome : Except Fault (HttpResult TransactionResponse)}
    (hkeyed : Keyed json stores.redis)
    (h : stepCall json call now stores = some (stores', .returned executed outcome)) :
    ∃ result, outcome = .ok result ∧ (result = .notFound →
      ¬ Found stores.redis call.accountId ∨ call.accountId = 0) := by
  obtain ⟨host, accountId, request, before⟩ := call
  rw [stepCall] at h
  cases before with
  | received =>
    dsimp only at h
    split at h
    · cases h
      exact ⟨_, rfl, fun hc => by cases hc⟩
    · cases h
  | reading =>
    dsimp only at h ⊢
    rcases getAccountByIdAsync_of_recorded (hkeyed.recorded accountId) with
      ⟨hempty, hread⟩ | ⟨t, hlast, hread⟩
    · rw [hread] at h
      cases h
      exact ⟨_, rfl, fun _ => Or.inl (not_not.mpr (List.getLast?_eq_none_iff.mpr hempty))⟩
    · rw [hread] at h
      dsimp only at h
      split at h
      · next hzero =>
        cases h
        obtain ⟨u, hu, hid⟩ := hkeyed accountId _ (SortedSet.mem_of_last? hlast)
        obtain rfl := entryOf_injective json hu
        exact ⟨_, rfl, fun _ => Or.inr (hid.symm.trans (of_decide_eq_true hzero).1)⟩
      · cases h
  | read account =>
    dsimp only at h
    split at h
    · cases h
      exact ⟨_, rfl, fun hc => by cases hc⟩
    · cases h
  | adding account t => cases h
  | trimming account t => cases h
  | publishing account t => cases h
  | responding account t =>
    cases h
    exact ⟨_, rfl, fun hc => by cases hc⟩
  | returned executed outcome => cases h

/-- **How a statement ends**: in a result; and in a 404 only when there is no record, or the record
    the balance is read from has neither a limit nor a balance. -/
theorem result_of_extrato {id : Int32} (now : DateTime) (stores : Stores)
    (hrecorded : Recorded json (stores.redis (getBankStatementKey id))) :
    (¬ Found stores.redis id ∧
        Endpoints.getBankStatementAsync json id now stores = .ok .notFound) ∨
      ∃ t, entryOf json t ∈ (stores.redis (getBankStatementKey id)).entries ∧
        ((t.saldo = 0 ∧ t.limite = 0 ∧
            Endpoints.getBankStatementAsync json id now stores = .ok .notFound) ∨
          ∃ statement, Endpoints.getBankStatementAsync json id now stores
            = .ok (.ok statement)) := by
  rw [Endpoints.getBankStatementAsync, TransactionService.getBankStatementAsync]
  by_cases hempty : (stores.redis (getBankStatementKey id)).entries = []
  · refine Or.inl ⟨not_not.mpr (List.getLast?_eq_none_iff.mpr hempty), ?_⟩
    rw [getBankStatementAsync_of_empty now hempty]
    rfl
  · obtain ⟨low, t, htake⟩ := hrecorded.exists_shown hempty
    have hmem : entryOf json t ∈ (stores.redis (getBankStatementKey id)).entries := by
      refine List.mem_of_mem_take (i := 11) ?_
      rw [htake]
      exact List.mem_map_of_mem (List.mem_append_right _ (List.mem_singleton_self t))
    refine Or.inr ⟨t, hmem, ?_⟩
    rw [getBankStatementAsync_of_records now htake]
    by_cases hzero : t.saldo = 0 ∧ t.limite = 0
    · rw [if_pos hzero]
      exact Or.inl ⟨hzero.1, hzero.2, rfl⟩
    · refine Or.inr ⟨⟨⟨t.saldo, t.limite, now⟩,
        listedFirst t ++ low.reverse.map Transaction.listed⟩, ?_⟩
      rw [if_neg hzero]
      exact if_neg fun hc => hzero (of_decide_eq_true hc)

end Answer

/-! ## No exception -/

/-- Some start-up has a seed row of the account. -/
def HasSeed (startUps : List (List Row)) (id : Int32) : Prop :=
  ∃ rows ∈ startUps, seedRows rows id ≠ []

/-- A record of account `id`, which some start-up has a seed row of. -/
def OfSeeded (startUps : List (List Row)) (id : Int32) (t : Transaction) : Prop :=
  t.accountId = id ∧ HasSeed startUps id

theorem inherited_ofSeeded (startUps : List (List Row)) : Inherited (OfSeeded startUps) where
  accountId h := h.1
  execute := by
    rintro id u request t ⟨hid, hseed⟩ hex
    exact ⟨Isolation.inherited_accountId.execute hid hex, hseed⟩

/-- Nothing has been asked and nothing is stored. -/
structure Starting (s : State) : Prop where
  cache : s.posts.redis = Redis.empty
  fresh : RequestRun.Fresh s.posts
  unanswered : ∀ x ∈ s.extratos, x.response = none

theorem Starting.faithful {json : TransactionJson} {s : State} (h : Starting s)
    {R : Int32 → Transaction → Prop} (hseeds : ∀ rows ∈ s.startUps, ∀ row ∈ rows, ∀ t,
      seed? row = some t → R row.accountId t) : Faithful json R s := by
  refine ⟨h.fresh.allSound, ?_, fun c hc account haccount => ?_, hseeds⟩
  · rw [h.cache]
    exact fun id e he => by cases he
  · rw [h.fresh c hc] at haccount
    cases haccount

/-- The records are of accounts with a seed, and whoever has been answered has a result. -/
structure Answering (json : TransactionJson) (startUps : List (List Row)) (s : State) : Prop where
  faithful : Faithful json (OfSeeded startUps) s
  posts : ∀ c ∈ s.posts.calls, ∀ executed outcome, c.phase = .returned executed outcome →
    ∃ result, outcome = .ok result
  extratos : ∀ x ∈ s.extratos, ∀ response, x.response = some response →
    ∃ result, response = .ok result ∧ (¬ HasSeed startUps x.accountId → result = .notFound)

section Answering

variable {json : TransactionJson} {startUps : List (List Row)}

theorem keyed_of_faithful {R : Int32 → Transaction → Prop} (hR : Inherited R) {s : State}
    (h : Faithful json R s) : Keyed json s.posts.redis := by
  intro id e he
  obtain ⟨t, rfl, ht⟩ := h.stored id e he
  exact ⟨t, rfl, hR.accountId ht⟩

theorem answering_step {s s' : State} {a : Action} (hI : Answering json startUps s)
    (h : step json s a = some s') : Answering json startUps s' := by
  have hfaithful := faithful_step (inherited_ofSeeded startUps) hI.faithful h
  have hkeyed := keyed_of_faithful (inherited_ofSeeded startUps) hI.faithful
  cases a with
  | post a =>
    obtain ⟨posts, hposts, rfl⟩ := step_post h
    obtain ⟨call, stores, phase, hcall, hstep, rfl⟩ := RequestRun.step_eq_some.mp hposts
    refine ⟨hfaithful, fun c hc executed outcome hphase => ?_, hI.extratos⟩
    rcases RequestRun.mem_put hc with hc | rfl
    · exact hI.posts c hc executed outcome hphase
    · obtain rfl : phase = .returned executed outcome := hphase
      obtain ⟨result, hresult, -⟩ := result_of_stepCall hkeyed hstep
      exact ⟨result, hresult⟩
  | extrato i now =>
    obtain ⟨x, hx, -, rfl⟩ := step_extrato h
    refine ⟨hfaithful, hI.posts, fun y hy response hresponse => ?_⟩
    rcases List.mem_or_eq_of_mem_set hy with hold | rfl
    · exact hI.extratos y hold response hresponse
    · obtain rfl := Option.some.inj hresponse
      rcases result_of_extrato now (s.posts.storesOf x.host)
        (hkeyed.recorded x.accountId) with ⟨-, hnone⟩ | ⟨t, ht, hzero | ⟨statement, hsome⟩⟩
      · exact ⟨_, hnone, fun _ => rfl⟩
      · exact ⟨_, hzero.2.2, fun _ => rfl⟩
      · -- a statement is of a record, and a record is of an account with a seed
        refine ⟨_, hsome, fun hnot => absurd ?_ hnot⟩
        obtain ⟨u, -, -, hseed⟩ := hI.faithful.stored x.accountId _ ht
        exact hseed
  | startUp i =>
    obtain ⟨rows, db, rest, -, -, rfl⟩ := step_startUp h
    exact ⟨hfaithful, hI.posts, hI.extratos⟩

end Answering

/-- **No request ends in an exception.**  In every run from an empty cache, with start-ups over any
    tables among the requests: a POST that has returned was answered 200, 404 or 422, and a
    statement 200 or 404; and no request has found an account without a seed row. -/
theorem no_request_throws (json : TransactionJson) (s s' : State) (hs : Starting s)
    (actions : List Action) (hrun : Transition.run (step json) s actions = some s') :
    (∀ c ∈ s'.posts.calls, ∀ executed outcome, c.phase = .returned executed outcome →
        ∃ result, outcome = .ok result ∧
          (¬ HasSeed s.startUps c.accountId → ∀ body, result ≠ .ok body)) ∧
      ∀ x ∈ s'.extratos, ∀ response, x.response = some response →
        ∃ result, response = .ok result ∧
          (¬ HasSeed s.startUps x.accountId → result = .notFound) := by
  have hseeds : ∀ rows ∈ s.startUps, ∀ row ∈ rows, ∀ t, seed? row = some t →
      OfSeeded s.startUps row.accountId t := by
    intro rows hrows row hrow t ht
    refine ⟨accountId_of_seed? ht, rows, hrows, List.ne_nil_of_mem (a := row) ?_⟩
    exact List.mem_filter.mpr ⟨hrow, decide_eq_true ⟨rfl, (eq_of_seed? ht).1⟩⟩
  have hstart : Answering json s.startUps s := by
    refine ⟨hs.faithful hseeds, fun c hc executed outcome hphase => ?_, fun x hx response h => ?_⟩
    · rw [hs.fresh c hc] at hphase
      cases hphase
    · rw [hs.unanswered x hx] at h
      cases h
  have hend := Transition.run_invariant (step json) (fun _ _ _ => answering_step) hstart hrun
  refine ⟨fun c hc executed outcome hphase => ?_, hend.extratos⟩
  obtain ⟨result, rfl⟩ := hend.posts c hc executed outcome hphase
  refine ⟨result, rfl, fun hnot body hbody => ?_⟩
  -- a success is about an account the call had read
  have hsound := hend.faithful.sound c hc
  rw [hphase, hbody] at hsound
  obtain ⟨account, t, rfl, -, -⟩ := hsound.success
  obtain ⟨u, ⟨-, hseed⟩, -⟩ := hend.faithful.held c hc account (by rw [hphase]; rfl)
  exact hnot hseed

/-- A credit and a statement on account 2, which the start-up has no row of. -/
def strangers : State :=
  ⟨⟨Redis.empty, [], fun _ => 0, [⟨0, 2, TransactionService.creditOfTen, .received⟩]⟩,
    [⟨1, 2, none⟩], [[seedRow]]⟩

/-- The start-up, the credit and the statement. -/
def turnedAway : List Action :=
  [.startUp 0, .post ⟨0, .ofTicks 5 .localTime⟩, .post ⟨0, .ofTicks 5 .localTime⟩,
    .extrato 0 (.ofTicks 6 .localTime)]

theorem strangers_starting : Starting strangers := by
  refine ⟨rfl, fun c hc => ?_, fun x hx => ?_⟩
  · rw [List.mem_singleton.mp hc]
  · rw [List.mem_singleton.mp hx]

theorem no_request_throws_strangers : ∃ s',
    Transition.run (step systemTextJson) strangers turnedAway = some s' ∧
      ∀ x ∈ s'.extratos, ∀ response, x.response = some response →
        ∃ result, response = .ok result ∧
          (¬ HasSeed [[seedRow]] x.accountId → result = .notFound) := by
  have hdone : (Transition.run (step systemTextJson) strangers turnedAway).isSome = true := by
    decide +kernel
  obtain ⟨s', hrun⟩ := Option.isSome_iff_exists.mp hdone
  exact ⟨s', hrun, (no_request_throws systemTextJson strangers s' strangers_starting turnedAway
    hrun).2⟩

/-! ## What has been found stays found -/

/-- A request on the account has been answered with a success. -/
def Shown (s : State) (id : Int32) : Prop :=
  (∃ c ∈ s.posts.calls, c.accountId = id ∧ ∃ executed body,
      c.phase = .returned executed (.ok (.ok body))) ∨
    ∃ x ∈ s.extratos, x.accountId = id ∧ ∃ statement, x.response = some (.ok (.ok statement))

/-- A POST that has not read its account yet. -/
def Unread (phase : Phase) : Prop := phase = .received ∨ phase = .reading

/-- A record of account `id`, which is not 0, with a limit. -/
def WithLimit (id : Int32) (t : Transaction) : Prop := t.accountId = id ∧ id ≠ 0 ∧ t.limite ≠ 0

theorem inherited_withLimit : Inherited WithLimit where
  accountId h := h.1
  execute := by
    rintro id u request t ⟨hid, hne, hlimite⟩ hex
    refine ⟨Isolation.inherited_accountId.execute hid hex, hne, ?_⟩
    obtain ⟨now, rfl⟩ := hex.made
    rw [Account.execute_limite]
    exact hlimite

/-- Seeds of accounts other than 0 with limits other than 0 have limits. -/
theorem Starting.withLimit {json : TransactionJson} {s : State} (hs : Starting s)
    (hseeds : ∀ rows ∈ s.startUps, ∀ row ∈ rows, row.descricao = none →
      row.accountId ≠ 0 ∧ row.limite ≠ 0) : Faithful json WithLimit s := by
  refine hs.faithful fun rows hrows row hrow t ht => ?_
  obtain ⟨hdesc, realizadaEm, rfl⟩ := eq_of_seed? ht
  obtain ⟨hne, hlimite⟩ := hseeds rows hrows row hrow hdesc
  exact ⟨rfl, hne, hlimite⟩

section Finding

variable {json : TransactionJson} {id : Int32}

/-- **No step empties a set.** -/
theorem found_step {s s' : State} {a : Action} (hfound : Found s.posts.redis id)
    (h : step json s a = some s') : Found s'.posts.redis id := by
  cases a with
  | post a =>
    obtain ⟨posts, hposts, rfl⟩ := step_post h
    obtain ⟨call, stores, phase, -, hmove, rfl⟩ := RequestRun.step_moves hposts
    rcases hmove.effect with ⟨account, t, -, -, hredis⟩ | ⟨-, hredis⟩
    · show Found stores.redis id
      rw [hredis]
      exact hfound.saveInsert t
    · exact hfound.of_trimmed hredis
  | extrato i now =>
    obtain ⟨x, -, -, rfl⟩ := step_extrato h
    exact hfound
  | startUp i =>
    obtain ⟨rows, db, rest, -, hstep, rfl⟩ := step_startUp h
    rcases (stepStartUp_cases hstep).2 with rfl | ⟨row, -, t, -, rfl⟩
    · exact hfound
    · exact hfound.saveInsert t

/-- Whatever has been added or shown has been found. -/
structure Evident (json : TransactionJson) (s : State) : Prop where
  faithful : Faithful json WithLimit s
  added : ∀ c ∈ s.posts.calls, ∀ x, c.phase.added = some x → Found s.posts.redis c.accountId
  shown : ∀ x ∈ s.extratos, ∀ statement, x.response = some (.ok (.ok statement)) →
    Found s.posts.redis x.accountId

theorem evident_step {s s' : State} {a : Action} (hI : Evident json s)
    (h : step json s a = some s') : Evident json s' := by
  have hfaithful := faithful_step inherited_withLimit hI.faithful h
  have hkeeps : ∀ id, Found s.posts.redis id → Found s'.posts.redis id :=
    fun _ hfound => found_step hfound h
  cases a with
  | post a =>
    obtain ⟨posts, hposts, rfl⟩ := step_post h
    obtain ⟨call, stores, phase, hcall, hmove, rfl⟩ := RequestRun.step_moves hposts
    have hcmem : call ∈ s.posts.calls := List.mem_of_getElem? hcall
    refine ⟨hfaithful, fun c hc x hx => ?_,
      fun x hx statement hresponse => hkeeps _ (hI.shown x hx statement hresponse)⟩
    rcases RequestRun.mem_put hc with hc | rfl
    · exact hkeeps _ (hI.added c hc x hx)
    · rcases hmove.effect with ⟨account, t, hbefore, -, hredis⟩ | ⟨hsame, -⟩
      · -- the record just added stands under the key of the call's account
        have ht : WithLimit call.accountId t := holds_executed inherited_withLimit
          (hI.faithful.sound call hcmem) (hI.faithful.held call hcmem) (by rw [hbefore]; rfl)
        show Found stores.redis call.accountId
        rw [hredis, ← ht.1]
        exact found_saveInsert _ t
      · exact hkeeps _ (hI.added call hcmem x (hsame ▸ hx))
  | extrato i now =>
    obtain ⟨x, hx, -, rfl⟩ := step_extrato h
    refine ⟨hfaithful, hI.added, fun y hy statement hresponse => ?_⟩
    rcases List.mem_or_eq_of_mem_set hy with hold | rfl
    · exact hI.shown y hold statement hresponse
    · have hkeyed := keyed_of_faithful inherited_withLimit hI.faithful
      rcases result_of_extrato now (s.posts.storesOf x.host)
        (hkeyed.recorded x.accountId) with ⟨-, hnone⟩ | ⟨t, ht, -⟩
      · rw [hnone] at hresponse
        cases hresponse
      · exact fun hc => List.ne_nil_of_mem ht (List.getLast?_eq_none_iff.mp hc)
  | startUp i =>
    obtain ⟨rows, db, rest, -, -, rfl⟩ := step_startUp h
    exact ⟨hfaithful, fun c hc x hx => hkeeps _ (hI.added c hc x hx),
      fun x hx statement hresponse => hkeeps _ (hI.shown x hx statement hresponse)⟩

/-- An account that has been shown has been found. -/
theorem Evident.found {s : State} (h : Evident json s) (hshown : Shown s id) :
    Found s.posts.redis id := by
  rcases hshown with ⟨c, hc, rfl, executed, body, hphase⟩ | ⟨x, hx, rfl, statement, hresponse⟩
  · have hsound := h.faithful.sound c hc
    rw [hphase] at hsound
    obtain ⟨account, t, rfl, -, -⟩ := hsound.success
    exact h.added c hc (account, t) (by rw [hphase]; rfl)
  · exact h.shown x hx statement hresponse

/-- An accepted call has shown its account. -/
theorem shown_of_accepted {s : State} {c : Call} (hc : c ∈ s.posts.calls)
    (h : isAccepted c = true) : Shown s c.accountId := by
  rw [isAccepted] at h
  split at h
  · next executed body hphase => exact Or.inl ⟨c, hc, rfl, executed, body, hphase⟩
  · cases h

/-- Since `m`, no request that had yet to read the account has missed it. -/
structure Finds (json : TransactionJson) (m : State) (id : Int32) (s : State) : Prop where
  faithful : Faithful json WithLimit s
  found : Found s.posts.redis id
  posts : ∀ (i : Nat) (c c' : Call), m.posts.calls[i]? = some c → Unread c.phase →
    s.posts.calls[i]? = some c' → c'.accountId = id →
    ∀ executed, c'.phase ≠ .returned executed (.ok .notFound)
  extratos : ∀ (i : Nat) (x x' : Extrato), m.extratos[i]? = some x → x.response = none →
    s.extratos[i]? = some x' → x'.accountId = id → x'.response ≠ some (.ok .notFound)

/-- A found account is read from one of its records, with a limit. -/
theorem Finds.withLimit {m s : State} (h : Finds json m id s) {t : Transaction}
    (ht : entryOf json t ∈ (s.posts.redis (getBankStatementKey id)).entries) :
    WithLimit id t := by
  obtain ⟨u, hu, hlimit⟩ := h.faithful.stored id _ ht
  obtain rfl := entryOf_injective json hu
  exact hlimit

/-- To begin with, who has yet to read has missed nothing. -/
theorem finds_of_found {m : State} (hfaithful : Faithful json WithLimit m)
    (hfound : Found m.posts.redis id) : Finds json m id m := by
  refine ⟨hfaithful, hfound, fun i c c' hc hunread hc' _ executed hphase => ?_,
    fun i x x' hx hnone hx' _ hresponse => ?_⟩
  · obtain rfl := Option.some.inj (hc.symm.trans hc')
    rcases hunread with hunread | hunread
    · rw [hunread] at hphase
      cases hphase
    · rw [hunread] at hphase
      cases hphase
  · obtain rfl := Option.some.inj (hx.symm.trans hx')
    rw [hnone] at hresponse
    cases hresponse

theorem finds_step {m s s' : State} {a : Action} (hI : Finds json m id s)
    (h : step json s a = some s') : Finds json m id s' := by
  have hfaithful := faithful_step inherited_withLimit hI.faithful h
  have hfound := found_step hI.found h
  have hkeyed := keyed_of_faithful inherited_withLimit hI.faithful
  cases a with
  | post a =>
    obtain ⟨posts, hposts, rfl⟩ := step_post h
    obtain ⟨call, stores, phase, hcall, hstep, rfl⟩ := RequestRun.step_eq_some.mp hposts
    refine ⟨hfaithful, hfound, fun i c c' hc hunread hc' hid executed hphase => ?_, hI.extratos⟩
    by_cases hi : a.call = i
    · subst hi
      obtain ⟨hlt, -⟩ := List.getElem?_eq_some_iff.mp hcall
      have hmoved : (s.posts.calls.set a.call { call with phase := phase })[a.call]? = some c' :=
        hc'
      rw [List.getElem?_set_self hlt] at hmoved
      cases hmoved
      obtain rfl : phase = .returned executed (.ok .notFound) := hphase
      obtain ⟨result, hresult, hmissed⟩ := result_of_stepCall hkeyed hstep
      obtain rfl := Except.ok.inj hresult
      rcases hmissed rfl with hnot | hzero
      · exact hnot (hid ▸ hI.found)
      · obtain ⟨e, he⟩ := Option.ne_none_iff_exists'.mp hI.found
        obtain ⟨t, rfl, -, hne, -⟩ := hI.faithful.stored id e (SortedSet.mem_of_last? he)
        exact hne (hid.symm.trans hzero)
    · have hsame : (s.posts.calls.set a.call { call with phase := phase })[i]? = some c' := hc'
      rw [List.getElem?_set_ne hi] at hsame
      exact hI.posts i c c' hc hunread hsame hid executed hphase
  | extrato j now =>
    obtain ⟨x, hx, -, rfl⟩ := step_extrato h
    refine ⟨hfaithful, hfound, hI.posts, fun i y y' hy hnone hy' hid hresponse => ?_⟩
    by_cases hi : j = i
    · subst hi
      obtain ⟨hlt, -⟩ := List.getElem?_eq_some_iff.mp hx
      rw [List.getElem?_set_self hlt] at hy'
      cases hy'
      obtain rfl : x.accountId = id := hid
      rcases result_of_extrato now (s.posts.storesOf x.host)
        (hkeyed.recorded x.accountId) with ⟨hnot, -⟩ | ⟨t, ht, hzero | ⟨statement, hsome⟩⟩
      · exact hnot hI.found
      · exact (hI.withLimit ht).2.2 hzero.2.1
      · rw [hsome] at hresponse
        cases hresponse
    · rw [List.getElem?_set_ne hi] at hy'
      exact hI.extratos i y y' hy hnone hy' hid hresponse
  | startUp i =>
    obtain ⟨rows, db, rest, -, -, rfl⟩ := step_startUp h
    exact ⟨hfaithful, hfound, hI.posts, hI.extratos⟩

end Finding

/-- **What has been found stays found.**  In every run over seed rows of accounts other than 0 with
    limits other than 0: once a request on an account has been answered with a success, by a POST
    or a statement, no POST that had not yet read the account and no statement that was still to
    be answered is answered 404, whatever happens in between. -/
theorem found_stays_found (json : TransactionJson) (s m s' : State) (hs : Starting s)
    (hseeds : ∀ rows ∈ s.startUps, ∀ row ∈ rows, row.descricao = none →
      row.accountId ≠ 0 ∧ row.limite ≠ 0)
    (before after : List Action) (hbefore : Transition.run (step json) s before = some m)
    (hafter : Transition.run (step json) m after = some s') (id : Int32) (hshown : Shown m id) :
    (∀ (i : Nat) (c c' : Call), m.posts.calls[i]? = some c → Unread c.phase →
        s'.posts.calls[i]? = some c' → c'.accountId = id →
        ∀ executed, c'.phase ≠ .returned executed (.ok .notFound)) ∧
      ∀ (i : Nat) (x x' : Extrato), m.extratos[i]? = some x → x.response = none →
        s'.extratos[i]? = some x' → x'.accountId = id → x'.response ≠ some (.ok .notFound) := by
  have hstart : Evident json s := by
    refine ⟨hs.withLimit hseeds, fun c hc x hx => ?_, fun x hx statement hresponse => ?_⟩
    · rw [hs.fresh c hc] at hx
      cases hx
    · rw [hs.unanswered x hx] at hresponse
      cases hresponse
  have hmid := Transition.run_invariant (step json) (fun _ _ _ => evident_step) hstart hbefore
  have hfinds := finds_of_found hmid.faithful (hmid.found hshown)
  have hend := Transition.run_invariant (step json) (fun _ _ _ => finds_step) hfinds hafter
  exact ⟨hend.posts, hend.extratos⟩

/-- Two credits and a statement on account 1, with the start-up still to come. -/
def customers : State :=
  ⟨⟨Redis.empty, [], fun _ => 0, [⟨0, 1, TransactionService.creditOfTen, .received⟩,
      ⟨1, 1, TransactionService.creditOfTen, .received⟩]⟩, [⟨1, 1, none⟩], [[seedRow]]⟩

/-- The start-up, and the first credit until it has returned. -/
def served : List Action := .startUp 0 :: List.replicate 7 (.post ⟨0, .ofTicks 5 .localTime⟩)

theorem customers_starting : Starting customers := by
  refine ⟨rfl, fun c hc => ?_, fun x hx => ?_⟩
  · rcases List.mem_pair.mp hc with rfl | rfl <;> rfl
  · rw [List.mem_singleton.mp hx]

theorem found_stays_found_served : ∃ m s',
    Transition.run (step systemTextJson) customers served = some m ∧
      Transition.run (step systemTextJson) m [.extrato 0 (.ofTicks 6 .localTime)] = some s' ∧
      ∀ x, s'.extratos[0]? = some x → x.accountId = 1 → x.response ≠ some (.ok .notFound) := by
  have hdone : (Transition.run (step systemTextJson) customers served).any (fun m =>
      m.posts.calls.any (fun c => c.accountId = 1 ∧ isAccepted c) ∧
        (Transition.run (step systemTextJson) m
          [.extrato 0 (.ofTicks 6 .localTime)]).isSome) = true := by decide +kernel
  obtain ⟨m, hm, hrest⟩ := (Option.any_eq_true _ _).mp hdone
  obtain ⟨haccepted, hsome⟩ := of_decide_eq_true hrest
  obtain ⟨c, hc, hcall⟩ := List.any_eq_true.mp haccepted
  obtain ⟨hid, hok⟩ := of_decide_eq_true hcall
  obtain ⟨s', hrun⟩ := Option.isSome_iff_exists.mp hsome
  obtain ⟨x, hx, hnone, -⟩ := step_extrato ((Transition.run_cons _).mp hrun).choose_spec.1
  exact ⟨m, s', hm, hrun, fun x' hx' => (found_stays_found systemTextJson customers m s'
    customers_starting (by decide) served _ hm hrun 1 (hid ▸ shown_of_accepted hc hok)).2 0 x x'
    hx hnone hx'⟩

/-! ## After a start-up -/

/-- Start-up `i` goes through `rows`: the accounts of the seeds it is done with are found. -/
structure Seeding (json : TransactionJson) (rows : List Row) (i : Nat) (s : State) : Prop where
  faithful : Faithful json WithLimit s
  left : ∃ left, s.startUps[i]? = some left ∧ left ⊆ rows ∧ ∀ row ∈ rows,
    row.descricao = none → row ∈ left ∨ Found s.posts.redis row.accountId

section Seeding

variable {json : TransactionJson} {rows : List Row} {i : Nat}

theorem seeding_step (hdated : ∀ row ∈ rows, row.descricao = none → row.realizadaEm ≠ none)
    {s s' : State} {a : Action} (hI : Seeding json rows i s) (h : step json s a = some s') :
    Seeding json rows i s' := by
  have hfaithful := faithful_step inherited_withLimit hI.faithful h
  have hkeeps : ∀ id, Found s.posts.redis id → Found s'.posts.redis id :=
    fun _ hfound => found_step hfound h
  obtain ⟨left, hleft, hsub, hseeded⟩ := hI.left
  rcases StartUps.left_step (fun row hr => hdated row (hsub hr)) hleft h with
    hsame | ⟨row, rest, rfl, -, hrest, hadded⟩
  · exact ⟨hfaithful, left, hsame, hsub, fun row hrow hdesc =>
      (hseeded row hrow hdesc).imp_right (hkeeps _)⟩
  · refine ⟨hfaithful, rest, hrest, fun r hr => hsub (List.mem_cons_of_mem row hr),
      fun r hr hdesc => ?_⟩
    rcases hseeded r hr hdesc with hin | hfound
    · rcases List.mem_cons.mp hin with rfl | hin
      · -- the row whose record has just been added
        obtain ⟨realizadaEm, htime⟩ := Option.ne_none_iff_exists'.mp (hdated r hr hdesc)
        have hseed : seed? r = some (seedTransaction r realizadaEm) := by
          rw [seed?, if_pos hdesc, htime, Option.map_some]
        rw [hadded _ hseed]
        exact Or.inr (found_saveInsert s.posts.redis (seedTransaction r realizadaEm))
      · exact Or.inl hin
    · exact Or.inr (hkeeps _ hfound)

end Seeding

/-- **Seeded accounts are served.**  In every run over seed rows of accounts other than 0 with
    limits other than 0: once ONE start-up has gone through its dated rows, no POST that had not yet
    read and no statement that was still to be answered on an account with a seed among them is
    answered 404, whatever happens in between. -/
theorem seeded_are_served (json : TransactionJson) (s m s' : State) (hs : Starting s)
    (hseeds : ∀ rows ∈ s.startUps, ∀ row ∈ rows, row.descricao = none →
      row.accountId ≠ 0 ∧ row.limite ≠ 0)
    (i : Nat) (rows : List Row) (hrows : s.startUps[i]? = some rows)
    (hdated : ∀ row ∈ rows, row.descricao = none → row.realizadaEm ≠ none)
    (before after : List Action) (hbefore : Transition.run (step json) s before = some m)
    (hafter : Transition.run (step json) m after = some s') (hdone : m.startUps[i]? = some [])
    (row : Row) (hrow : row ∈ rows) (hdesc : row.descricao = none) :
    (∀ (i : Nat) (c c' : Call), m.posts.calls[i]? = some c → Unread c.phase →
        s'.posts.calls[i]? = some c' → c'.accountId = row.accountId →
        ∀ executed, c'.phase ≠ .returned executed (.ok .notFound)) ∧
      ∀ (i : Nat) (x x' : Extrato), m.extratos[i]? = some x → x.response = none →
        s'.extratos[i]? = some x' → x'.accountId = row.accountId →
          x'.response ≠ some (.ok .notFound) := by
  have hstart : Seeding json rows i s :=
    ⟨hs.withLimit hseeds, rows, hrows, List.Subset.refl rows, fun r hr _ => Or.inl hr⟩
  have hmid := Transition.run_invariant (step json) (fun _ _ _ => seeding_step hdated) hstart
    hbefore
  obtain ⟨left, hleft, -, hseeded⟩ := hmid.left
  obtain rfl : left = [] := Option.some.inj (hleft.symm.trans hdone)
  have hfound : Found m.posts.redis row.accountId :=
    (hseeded row hrow hdesc).resolve_left List.not_mem_nil
  have hend := Transition.run_invariant (step json) (fun _ _ _ => finds_step)
    (finds_of_found hmid.faithful hfound) hafter
  exact ⟨hend.posts, hend.extratos⟩

theorem seeded_are_served_customers : ∃ m s',
    Transition.run (step systemTextJson) customers [.startUp 0] = some m ∧
      Transition.run (step systemTextJson) m [.extrato 0 (.ofTicks 6 .localTime)] = some s' ∧
      ∀ x, s'.extratos[0]? = some x → x.accountId = 1 → x.response ≠ some (.ok .notFound) := by
  have hrun : (Transition.run (step systemTextJson) customers [.startUp 0]).any (fun m =>
      m.startUps[0]? = some [] ∧ (Transition.run (step systemTextJson) m
        [.extrato 0 (.ofTicks 6 .localTime)]).isSome) = true := by decide +kernel
  obtain ⟨m, hm, hrest⟩ := (Option.any_eq_true _ _).mp hrun
  obtain ⟨hdone, hsome⟩ := of_decide_eq_true hrest
  obtain ⟨s', hs'⟩ := Option.isSome_iff_exists.mp hsome
  have hfresh : m.extratos[0]? = some ⟨1, 1, none⟩ := by
    obtain ⟨_, hfirst, hnil⟩ := (Transition.run_cons _).mp hm
    cases hnil
    obtain ⟨_, _, _, -, -, rfl⟩ := step_startUp hfirst
    rfl
  refine ⟨m, s', hm, hs', fun x hx hid => ?_⟩
  refine (seeded_are_served systemTextJson customers m s' customers_starting ?_ 0 [seedRow] rfl
    (by decide) [.startUp 0] [.extrato 0 (.ofTicks 6 .localTime)] hm hs' hdone seedRow
    (List.mem_singleton_self _) rfl).2 0 _ x hfresh rfl hx hid
  decide

end Answers

end Rinha
