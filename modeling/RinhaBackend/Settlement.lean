/-
  When everything has settled.

  While requests run, a statement depends on how they interleave.  Once all have returned it does
  not: whatever the order of their steps, lost updates included, the statement over the cache has
  the record with the highest score on top and lists the last ten (`settled_statement`).  And once
  everything has been delivered and drained too, the statement over the table is the same, but for
  one thing: with `n` instances it lists every record `n` times (`settled_statements_agree`).

  No order of the records is invented for this.  What counts is the multiset of the records the
  calls have added (`addedTo`); the cache and the table both sort it, one by score and one by the
  time the column keeps, and these are two readings of one clock (`DateTime.ticks_lt_of_score`).
-/
import RinhaBackend.Answers
import RinhaBackend.CacheAndTable
import RinhaBackend.EndToEnd
import RinhaBackend.Passbook
import RinhaBackend.WindowBound

namespace Rinha

namespace Settlement

open CachedRepository InitializeRedis ServiceRun
open LostUpdate (Returned)
open Passbook (Logged)
open RequestRun (Call Phase Moves Sound Executed)
open Retention (addedBy everAdded Kept Recalled)
open WindowBound (nonSeed)

/-! ## The records of an account -/

/-- The records calls have added to account `id`. -/
def addedTo (id : Int32) (s : State) : List Transaction :=
  (s.posts.calls.filterMap fun c => c.phase.added.map Prod.snd).filter fun t => t.accountId = id

section Added

variable {json : TransactionJson} {id : Int32} {s s' : State} {t : Transaction}

theorem mem_addedTo : t ∈ addedTo id s ↔
    t.accountId = id ∧ ∃ c ∈ s.posts.calls, ∃ account, c.phase.added = some (account, t) := by
  rw [addedTo, List.mem_filter, List.mem_filterMap, decide_eq_true_eq, and_comm]
  refine and_congr_right fun _ => exists_congr fun c => and_congr_right fun _ => ?_
  rw [Option.map_eq_some_iff]
  constructor
  · rintro ⟨⟨account, u⟩, hu, rfl⟩
    exact ⟨account, hu⟩
  · rintro ⟨account, hu⟩
    exact ⟨(account, t), hu, rfl⟩

/-- What has been added stays added. -/
theorem mem_addedTo_step {a : Action} (h : step json s a = some s') (ht : t ∈ addedTo id s) :
    t ∈ addedTo id s' := by
  obtain ⟨hid, c, hc, account, hadded⟩ := mem_addedTo.mp ht
  refine mem_addedTo.mpr ⟨hid, ?_⟩
  cases a with
  | post a =>
    obtain ⟨posts, hposts, rfl⟩ := step_post h
    obtain ⟨c', hc', -, hadded'⟩ := RequestRun.exists_added_step hposts hc hadded
    exact ⟨c', hc', account, hadded'⟩
  | extrato i now =>
    obtain ⟨x, -, -, rfl⟩ := step_extrato h
    exact ⟨c, hc, account, hadded⟩
  | startUp i =>
    obtain ⟨rows, db, rest, -, -, rfl⟩ := step_startUp h
    exact ⟨c, hc, account, hadded⟩

end Added

/-- A call of account `id` that is to trim. -/
def trimming (id : Int32) (c : Call) : Nat :=
  match c.phase with
  | .trimming _ t => if t.accountId = id then 1 else 0
  | _ => 0

/-- The calls that have added a record to account `id` and not trimmed yet. -/
def inFlight (id : Int32) (s : State) : Nat := (s.posts.calls.map (trimming id)).sum

/-- The invariant: `ts` are the records added in the run, the seed's and those of calls. -/
structure History (json : TransactionJson) (id : Int32) (seed : Transaction) (s : State)
    (ts : List Transaction) : Prop where
  faithful : Faithful json (fun id t => t.accountId = id) s
  kept : Kept json id ∅ s ts
  recalled : Recalled s ts
  startUps : ∀ rows ∈ s.startUps, ∀ row ∈ rows, ∀ t, seed? row = some t → t.accountId = id →
    t = seed
  named : ∀ t ∈ ts, t.accountId = id → t = seed ∨ t ∈ addedTo id s
  bounded : (nonSeed json seed (s.posts.redis (getBankStatementKey id))).card ≤ 10 + inFlight id s

section History

variable {json : TransactionJson} {id : Int32} {seed : Transaction} {s s' : State}
  {ts : List Transaction}

/-- A step of a call adds its record, trims, or does neither. -/
theorem trimming_of_moves {call : Call} {now : DateTime} {stores stores' : Stores} {phase : Phase}
    (h : Moves json call now stores call.phase stores' phase) (id : Int32) :
    (∃ account t, call.phase = .adding account t ∧ phase = .trimming account t ∧
        stores'.redis = saveInsert json stores.redis t) ∨
      (∃ account t, call.phase = .trimming account t ∧ phase = .publishing account t ∧
        stores'.redis = saveTrim stores.redis t) ∨
      stores'.redis = stores.redis ∧
        trimming id { call with phase := phase } = trimming id call := by
  obtain ⟨host, accountId, request, before⟩ := call
  dsimp only at h ⊢
  cases h with
  | add account t => exact Or.inl ⟨account, t, rfl, rfl, rfl⟩
  | trim account t => exact Or.inr (Or.inl ⟨account, t, rfl, rfl, rfl⟩)
  | _ => exact Or.inr (Or.inr ⟨rfl, rfl⟩)

/-- A call that adds a record is to trim next. -/
theorem trimming_of_adds {call : Call} {now : DateTime} {stores stores' : Stores}
    {phase phase' : Phase} (h : Moves json call now stores phase stores' phase') {t : Transaction}
    (ht : t ∈ Retention.adds phase) : ∃ account, phase' = .trimming account t := by
  cases h with
  | add account u =>
    obtain rfl := List.mem_singleton.mp ht
    exact ⟨account, rfl⟩
  | _ => cases ht

/-- **A step of a call** keeps the bound on the set. -/
theorem bounded_post {a : RequestRun.Action} {posts : RequestRun.State}
    (hI : (nonSeed json seed (s.posts.redis (getBankStatementKey id))).card ≤ 10 + inFlight id s)
    (h : RequestRun.step json s.posts a = some posts) :
    (nonSeed json seed (posts.redis (getBankStatementKey id))).card
      ≤ 10 + inFlight id { s with posts := posts } := by
  obtain ⟨call, stores, phase, hcall, hmove, rfl⟩ := RequestRun.step_moves h
  have hsum : inFlight id { s with posts := s.posts.put a.call call stores phase }
      + trimming id call = inFlight id s + trimming id { call with phase := phase } :=
    Parties.sum_map_set (trimming id) hcall { call with phase := phase }
  show (nonSeed json seed (stores.redis (getBankStatementKey id))).card ≤ _
  rcases trimming_of_moves hmove id with ⟨account, t, hphase, rfl, hredis⟩ |
    ⟨account, t, hphase, rfl, hredis⟩ | ⟨hredis, hsame⟩
  · have hbefore : trimming id call = 0 := by rw [trimming, hphase]
    have hafter : trimming id { call with phase := .trimming account t }
        = if t.accountId = id then 1 else 0 := rfl
    rw [hredis]
    show (nonSeed json seed (saveInsert json s.posts.redis t (getBankStatementKey id))).card ≤ _
    by_cases hid : t.accountId = id
    · rw [if_pos hid] at hafter
      rw [saveInsert_of_eq json s.posts.redis t hid]
      have hcard := @WindowBound.card_nonSeed_add json seed
        (s.posts.redis (getBankStatementKey id)) t
      omega
    · rw [if_neg hid] at hafter
      rw [saveInsert_of_ne json s.posts.redis t hid]
      omega
  · have hafter : trimming id { call with phase := .publishing account t } = 0 := rfl
    rw [hredis]
    show (nonSeed json seed (saveTrim s.posts.redis t (getBankStatementKey id))).card ≤ _
    by_cases hid : t.accountId = id
    · rw [saveTrim_of_eq s.posts.redis t hid]
      exact (WindowBound.card_nonSeed_keepTop _).trans (Nat.le_add_right _ _)
    · have hbefore : trimming id call = 0 := by
        rw [trimming, hphase]
        exact if_neg hid
      rw [saveTrim_of_ne s.posts.redis t hid]
      omega
  · rw [hredis]
    show (nonSeed json seed (s.posts.redis (getBankStatementKey id))).card ≤ _
    omega

/-- **A step of the service.** -/
theorem history_step (hI : History json id seed s ts) {a : Action}
    (h : step json s a = some s') : History json id seed s' (ts ++ addedBy s a) := by
  refine ⟨faithful_step Isolation.inherited_accountId hI.faithful h, Retention.kept_step hI.kept h,
    Retention.recalled_step hI.recalled h, startUps_step hI.startUps h, ?_, ?_⟩
  · intro t ht hid
    rcases List.mem_append.mp ht with ht | ht
    · exact (hI.named t ht hid).imp_right (mem_addedTo_step h)
    · cases a with
      | post a =>
        -- the call that has just added `t`
        obtain ⟨posts, hposts, rfl⟩ := step_post h
        obtain ⟨call, stores, phase, hcall, hmove, rfl⟩ := RequestRun.step_moves hposts
        simp only [addedBy, hcall] at ht
        obtain ⟨account, rfl⟩ := trimming_of_adds hmove ht
        exact Or.inr (mem_addedTo.mpr ⟨hid, _, Parties.moved_mem hcall _, account, rfl⟩)
      | extrato i now => cases ht
      | startUp i =>
        obtain ⟨rows, db, rest, hrows, -, -⟩ := step_startUp h
        rcases rows with _ | ⟨row, rows⟩
        · simp only [addedBy, hrows] at ht
          cases ht
        · simp only [addedBy, hrows, Option.mem_toList] at ht
          exact Or.inl (hI.startUps _ (List.mem_of_getElem? hrows) row List.mem_cons_self t ht hid)
  · cases a with
    | post a =>
      obtain ⟨posts, hposts, rfl⟩ := step_post h
      exact bounded_post hI.bounded hposts
    | extrato i now =>
      obtain ⟨x, -, -, rfl⟩ := step_extrato h
      exact hI.bounded
    | startUp i =>
      obtain ⟨rows, db, rest, hrows, hstep, rfl⟩ := step_startUp h
      show (nonSeed json seed (db (getBankStatementKey id))).card ≤ 10 + inFlight id s
      rcases (stepStartUp_cases hstep).2 with rfl | ⟨row, hrow, t, ht, rfl⟩
      · exact hI.bounded
      · by_cases hid : t.accountId = id
        · obtain rfl := hI.startUps rows (List.mem_of_getElem? hrows) row hrow t ht hid
          rw [saveInsert_of_eq json s.posts.redis t hid]
          exact (WindowBound.card_nonSeed_add_seed _).trans hI.bounded
        · rw [saveInsert_of_ne json s.posts.redis t hid]
          exact hI.bounded

/-- From an empty Redis. -/
theorem history_run (hredis : s.posts.redis = Redis.empty)
    (hfresh : RequestRun.Fresh s.posts)
    (hseeds : ∀ rows ∈ s.startUps, ∀ row ∈ rows, ∀ t, seed? row = some t → t.accountId = id →
      t = seed) {actions : List Action} (hrun : Transition.run (step json) s actions = some s') :
    History json id seed s' (Transition.yields (step json) addedBy s actions) := by
  have hempty : (s.posts.redis (getBankStatementKey id)).toFinset = ∅ := by
    rw [hredis]
    rfl
  have hstart : History json id seed s [] := by
    refine ⟨⟨hfresh.allSound, ?_, fun c hc account haccount => ?_, ?_⟩, ⟨?_, ?_⟩,
      fun c hc account t ht => ?_, hseeds, fun t ht => (by cases ht), ?_⟩
    · rw [hredis]
      exact fun id e he => by cases he
    · rw [hfresh c hc] at haccount
      cases haccount
    · exact fun _ _ row _ t ht => accountId_of_seed? ht
    · rw [hredis]
      exact fun e he => by cases he
    · rw [hempty]
      exact TopRank.Retains.refl 10 ∅
    · rw [hfresh c hc] at ht
      cases ht
    · rw [nonSeed, hempty]
      exact Nat.zero_le _
  exact Transition.run_yields (step json) addedBy (I := History json id seed)
    (C := fun _ _ => True) (fun _ _ _ _ hI _ h => history_step hI h) actions s s' [] hstart
    (Transition.allSteps_true _ s actions) hrun

/-- A start-up over dated rows that has gone through them has added the record of each. -/
theorem seed_mem_run {i : Nat} {rows : List Row} (hrows : s.startUps[i]? = some rows)
    (hdated : ∀ row ∈ rows, row.descricao = none → row.realizadaEm ≠ none) {row : Row}
    (hrow : row ∈ rows) (hseed : seed? row = some seed) {actions : List Action}
    (hrun : Transition.run (step json) s actions = some s') (hdone : s'.startUps[i]? = some []) :
    seed ∈ Transition.yields (step json) addedBy s actions := by
  have hstep : ∀ m a m' ts, (∃ left, m.startUps[i]? = some left ∧ left ⊆ rows ∧
      (row ∈ left ∨ seed ∈ ts)) → True → step json m a = some m' →
      ∃ left, m'.startUps[i]? = some left ∧ left ⊆ rows ∧
        (row ∈ left ∨ seed ∈ ts ++ addedBy m a) := by
    rintro m a m' ts ⟨left, hleft, hsub, hin⟩ - h
    rcases StartUps.left_step (fun r hr => hdated r (hsub hr)) hleft h with
      hsame | ⟨r, rest, rfl, rfl, hrest, -⟩
    · exact ⟨left, hsame, hsub, hin.imp_right (List.mem_append_left _)⟩
    · refine ⟨rest, hrest, fun x hx => hsub (List.mem_cons_of_mem r hx), ?_⟩
      rcases hin with hin | hin
      · rcases List.mem_cons.mp hin with rfl | hin
        · refine Or.inr (List.mem_append_right ts ?_)
          simp only [addedBy, hleft, hseed]
          exact List.mem_singleton_self seed
        · exact Or.inl hin
      · exact Or.inr (List.mem_append_left _ hin)
  obtain ⟨left, hleft, -, hin⟩ := Transition.run_yields (step json) addedBy
    (I := fun m ts => ∃ left, m.startUps[i]? = some left ∧ left ⊆ rows ∧ (row ∈ left ∨ seed ∈ ts))
    hstep actions s s' [] ⟨rows, hrows, List.Subset.refl rows, Or.inl hrow⟩
    (Transition.allSteps_true _ s actions) hrun
  obtain rfl : left = [] := Option.some.inj (hleft.symm.trans hdone)
  exact hin.resolve_left List.not_mem_nil

/-- The records of calls are movements. -/
theorem movement_of_mem (hI : History json id seed s ts) {t : Transaction}
    (ht : t ∈ addedTo id s) : RecordInvariant.Movement t := by
  obtain ⟨-, c, hc, account, hadded⟩ := mem_addedTo.mp ht
  exact RecordInvariant.movement_of_executed
    ((hI.faithful.sound c hc).executed (RequestRun.executed_of_added hadded))

/-- **The log of the account**: the records calls have added, by score, above the seed. -/
theorem logged_of_history (hI : History json id seed s ts) (hown : seed.accountId = id)
    (hseed : seed ∈ ts) {us : List Transaction} (hperm : us.Perm (addedTo id s))
    (hdown : us.Pairwise fun a b => b.realizadaEm.score < a.realizadaEm.score)
    (hlow : ∀ t ∈ us, seed.realizadaEm.score < t.realizadaEm.score) :
    Logged json (some seed) us (s.posts.redis (getBankStatementKey id)) := by
  refine ⟨fun _ => rfl, fun t ht => ?_, ?_, ?_⟩
  · obtain ⟨d, hd, hpos, -⟩ := (movement_of_mem hI (hperm.mem_iff.mp ht)).descricao
    rw [hd]
    rintro (hc | hc)
    · cases hc
    · cases hc
      cases hpos
  · rw [List.pairwise_map, Option.toList_some, List.pairwise_append]
    refine ⟨hdown.imp fun hlt => SortedSet.lt_of_score_lt hlt, List.pairwise_singleton _ _, ?_⟩
    intro t ht u hu
    rw [List.mem_singleton.mp hu]
    exact SortedSet.lt_of_score_lt (hlow t ht)
  · have hsame : ∅ ∪ everAdded json id ts
        = ((us ++ (some seed).toList).map (entryOf json)).toFinset := by
      ext e
      rw [Finset.empty_union, Retention.mem_everAdded, List.mem_toFinset, List.mem_map]
      constructor
      · rintro ⟨t, ht, hid, rfl⟩
        refine ⟨t, ?_, rfl⟩
        rcases hI.named t ht hid with rfl | hadded
        · exact List.mem_append_right us (List.mem_singleton_self t)
        · exact List.mem_append_left _ (hperm.mem_iff.mpr hadded)
      · rintro ⟨t, ht, rfl⟩
        rcases List.mem_append.mp ht with ht | ht
        · obtain ⟨hid, c, hc, account, hadded⟩ := mem_addedTo.mp (hperm.mem_iff.mp ht)
          exact ⟨t, hI.recalled c hc account t hadded, hid, rfl⟩
        · obtain rfl := List.mem_singleton.mp ht
          exact ⟨t, hseed, hown, rfl⟩
    rw [← hsame]
    exact hI.kept.retains

/-- Once every call has returned the set has at most eleven members. -/
theorem length_le_of_returned (hI : History json id seed s ts) (h : Returned s.posts) :
    (s.posts.redis (getBankStatementKey id)).entries.length ≤ 11 := by
  have hnone : inFlight id s = 0 := by
    refine List.sum_eq_zero fun n hn => ?_
    obtain ⟨c, hc, rfl⟩ := List.mem_map.mp hn
    obtain ⟨executed, outcome, hphase⟩ := LostUpdate.exists_of_isReturned (h c hc)
    rw [trimming, hphase]
  have hbound := hI.bounded
  rw [hnone] at hbound
  exact (WindowBound.length_le_nonSeed _).trans (Nat.succ_le_succ hbound)

end History

/-! ## The statement over the cache -/

section Cached

variable {json : TransactionJson} {id : Int32} {seed : Transaction}

/-- What a cached statement lists of the records `us`, newest first, down to its tenth line: the
    seed below them, unless it is alone, or unless limit and balance are both 0. -/
def cachedLines (seed : Transaction) (us : List Transaction) : List BankStatementTransaction :=
  if (us.headD seed).saldo = 0 ∧ (us.headD seed).limite = 0 ∨ us = [] then []
  else ((us ++ [seed]).map Transaction.listed).take 10

/-- **A log is shown.** -/
theorem statement_of_logged {db : Redis} {us : List Transaction}
    (h : Logged json (some seed) us (db (getBankStatementKey id)))
    (hrecorded : Recorded json (db (getBankStatementKey id)))
    (hroom : (db (getBankStatementKey id)).entries.length ≤ 11)
    (hdesc : seed.descricao = some []) (now : DateTime) :
    ∃ cached, CachedRepository.getBankStatementAsync json id now db = .ok cached ∧
      cached.saldo = ⟨(us.headD seed).saldo, (us.headD seed).limite, now⟩ ∧
      cached.ultimasTransacoes.take 10 = cachedLines seed us := by
  have htop : (us ++ (some seed).toList).head? = some (us.headD seed) := by
    cases us <;> rfl
  obtain ⟨low, hshown, htake⟩ := h.exists_shown hrecorded hroom htop
  have hlisted := h.listed_of_shown (fun t ht => by cases ht; exact hdesc) htop htake
  obtain ⟨cached, hcached, hsaldo, hlines⟩ :=
    CacheAndTable.exists_statement (getBankStatementAsync_of_records now hshown)
  refine ⟨cached, hcached, hsaldo, ?_⟩
  rw [hlines, cachedLines]
  by_cases hzero : (us.headD seed).saldo = 0 ∧ (us.headD seed).limite = 0
  · rw [if_pos hzero, if_pos (Or.inl hzero), List.take_nil]
  · rw [if_neg hzero, hlisted]
    by_cases hnone : us = []
    · rw [if_pos hnone, if_pos (Or.inr hnone)]
    · rw [if_neg hnone, if_neg fun hc => hc.elim hzero hnone]
      rfl

/-- The records added, by score. -/
theorem exists_newest_first {ts : List Transaction}
    (h : (ts.map fun t => t.realizadaEm.score).Nodup) : ∃ us : List Transaction, us.Perm ts ∧
      us.Pairwise fun a b => b.realizadaEm.score < a.realizadaEm.score := by
  have hne : ts.Pairwise fun a b => OrderDual.toDual a.realizadaEm.score
      ≠ OrderDual.toDual b.realizadaEm.score := List.pairwise_map.mp h
  let order := OrderBy.stable fun t : Transaction => OrderDual.toDual t.realizadaEm.score
  exact ⟨order.sort ts, order.perm ts, (order.strict hne).imp OrderDual.toDual_lt_toDual.mp⟩

/-- What a history of calls that have all returned shows. -/
theorem statement_of_history {s : State} {ts : List Transaction} (hI : History json id seed s ts)
    (hown : seed.accountId = id) (hseed : seed ∈ ts) (hdesc : seed.descricao = some [])
    (hreturned : Returned s.posts)
    (hscores : ((addedTo id s).map fun t => t.realizadaEm.score).Nodup)
    (hlow : ∀ t ∈ addedTo id s, seed.realizadaEm.score < t.realizadaEm.score) (now : DateTime) :
    ∃ us cached, us.Perm (addedTo id s) ∧
      (us.Pairwise fun a b => b.realizadaEm.score < a.realizadaEm.score) ∧
      CachedRepository.getBankStatementAsync json id now s.posts.redis = .ok cached ∧
      cached.saldo = ⟨(us.headD seed).saldo, (us.headD seed).limite, now⟩ ∧
      cached.ultimasTransacoes.take 10 = cachedLines seed us := by
  obtain ⟨us, hperm, hdown⟩ := exists_newest_first hscores
  have hlogged := logged_of_history hI hown hseed hperm hdown
    fun t ht => hlow t (hperm.mem_iff.mp ht)
  obtain ⟨cached, hcached, hsaldo, hlines⟩ := statement_of_logged hlogged hI.kept.recorded
    (length_le_of_returned hI hreturned) hdesc now
  exact ⟨us, cached, hperm, hdown, hcached, hsaldo, hlines⟩

/-- **The settled statement.**  From an empty Redis, in any interleaving of POST calls, statements
    and start-ups in which one start-up has gone through its dated rows: once every call has
    returned, the statement of an account with one seed has the balance of the record with the
    highest score among all that calls have added to the account, or of the seed, and its first ten
    lines are these records by score, with the seed at their end.  Scores are to differ, and those
    of the calls to be above the seed's. -/
theorem settled_statement (json : TransactionJson) (id : Int32) (seed : Transaction) (s s' : State)
    (hredis : s.posts.redis = Redis.empty) (hfresh : RequestRun.Fresh s.posts)
    (hseeds : ∀ rows ∈ s.startUps, ∀ row ∈ rows, ∀ t, seed? row = some t → t.accountId = id →
      t = seed)
    (i : Nat) (rows : List Row) (hrows : s.startUps[i]? = some rows)
    (hdated : ∀ row ∈ rows, row.descricao = none → row.realizadaEm ≠ none)
    (row : Row) (hrow : row ∈ rows) (hseed : seed? row = some seed) (hown : row.accountId = id)
    (actions : List Action) (hrun : Transition.run (step json) s actions = some s')
    (hdone : s'.startUps[i]? = some []) (hreturned : Returned s'.posts)
    (hscores : ((addedTo id s').map fun t => t.realizadaEm.score).Nodup)
    (hlow : ∀ t ∈ addedTo id s', seed.realizadaEm.score < t.realizadaEm.score) (now : DateTime) :
    ∃ us cached, us.Perm (addedTo id s') ∧
      (us.Pairwise fun a b => b.realizadaEm.score < a.realizadaEm.score) ∧
      CachedRepository.getBankStatementAsync json id now s'.posts.redis = .ok cached ∧
      cached.saldo = ⟨(us.headD seed).saldo, (us.headD seed).limite, now⟩ ∧
      cached.ultimasTransacoes.take 10 = cachedLines seed us := by
  obtain ⟨-, realizadaEm, hmade⟩ := eq_of_seed? hseed
  exact statement_of_history (history_run hredis hfresh hseeds hrun)
    ((accountId_of_seed? hseed).trans hown) (seed_mem_run hrows hdated hrow hseed hrun hdone)
    (by rw [hmade]; rfl) hreturned hscores hlow now

/-- Account 1 before its start-up, with two credits. -/
def twoCredits : State :=
  ⟨⟨Redis.empty, [], fun _ => 0,
    List.replicate 2 ⟨0, 1, TransactionService.creditOfTen, .received⟩⟩, [], [[seedRow]]⟩

/-- Two credits that both read before either adds. -/
def racing : List Action :=
  .startUp 0 :: (List.replicate 7
    [.post ⟨0, .ofTicks 5 .localTime⟩, .post ⟨1, .ofTicks 6 .localTime⟩]).flatten

/-- One of the two credits is lost to the balance, and both are listed. -/
theorem settled_statement_racing : ∃ s' us cached,
    Transition.run (step systemTextJson) twoCredits racing = some s' ∧
      us.Perm (addedTo 1 s') ∧
      CachedRepository.getBankStatementAsync systemTextJson 1 (.ofTicks 9 .localTime) s'.posts.redis
        = .ok cached ∧
      cached.ultimasTransacoes.take 10 = cachedLines seedRecord us := by
  have hend : (Transition.run (step systemTextJson) twoCredits racing).any (fun s' =>
      s'.startUps[0]? = some [] ∧ Returned s'.posts ∧
        ((addedTo 1 s').map fun t => t.realizadaEm.score).Nodup ∧
        ∀ t ∈ addedTo 1 s', seedRecord.realizadaEm.score < t.realizadaEm.score) = true := by
    decide +kernel
  obtain ⟨s', hrun, hall⟩ := (Option.any_eq_true _ _).mp hend
  obtain ⟨hdone, hreturned, hscores, hlow⟩ := of_decide_eq_true hall
  have hseeds : ∀ rows ∈ twoCredits.startUps, ∀ row ∈ rows, ∀ t, seed? row = some t →
      t.accountId = 1 → t = seedRecord := by
    intro rows hrows row hrow t ht _
    rw [List.mem_singleton.mp hrows] at hrow
    rw [List.mem_singleton.mp hrow] at ht
    exact (Option.some.inj ht).symm
  obtain ⟨us, cached, hperm, -, hcached, -, hlines⟩ := settled_statement systemTextJson 1 seedRecord
    twoCredits s' rfl (fun c hc => by rw [List.eq_of_mem_replicate hc]) hseeds 0 [seedRow]
    rfl (by decide) seedRow (List.mem_singleton_self _) rfl rfl racing hrun hdone hreturned hscores
    hlow (.ofTicks 9 .localTime)
  exact ⟨s', us, cached, hrun, hperm, hcached, hlines⟩

end Cached

/-! ## The statement over the table -/

section Drained

open EndToEnd (Booted Calm calm publishedBy published insertedBy)

variable {json : TransactionJson} {base : List Row} {n : Nat} {s s' : EndToEnd.State}

/-- A calm run of the whole is a run of the service. -/
theorem service_run {actions : List EndToEnd.Action}
    (hcalm : Transition.AllSteps (EndToEnd.step json) (fun s a => calm s a = true) s actions)
    (hrun : Transition.run (EndToEnd.step json) s actions = some s') :
    ∃ as, Transition.run (ServiceRun.step json) s.service as = some s'.service := by
  refine Transition.run_invariant_of (EndToEnd.step json)
    (I := fun m => ∃ as, Transition.run (ServiceRun.step json) s.service as = some m.service)
    (fun m a m' hI hC h => ?_) actions s s' ⟨[], rfl⟩ hcalm hrun
  obtain ⟨as, has⟩ := hI
  rcases EndToEnd.step_service h with ⟨b, rfl, hb⟩ | ⟨-, hsame⟩ | ⟨i, rfl, -⟩
  · exact ⟨as ++ [b], (Transition.run_concat _).mpr ⟨m.service, has, hb⟩⟩
  · rw [hsame]
    exact ⟨as, has⟩
  · cases hC

/-- `n` copies of a list, and a list of `n` copies each. -/
theorem perm_copies (l : List Transaction) (n : Nat) :
    (List.replicate n l).flatten.Perm (l.flatMap (List.replicate n)) := by
  refine List.perm_iff_count.mpr fun t => ?_
  rw [List.count_flatten, List.map_replicate, List.sum_replicate, nsmul_eq_mul, Nat.cast_id]
  induction l with
  | nil => rfl
  | cons x l ih =>
    rw [List.flatMap_cons, List.count_append, ← ih, List.count_replicate, List.count_cons]
    split <;> ring

/-- **The rows of the account**, once everything is drained: those of the records added, `n` of
    each, and the seed row. -/
theorem ofAccount_perm_copies {id : Int32} {row : Row} {ts us : List Transaction}
    (hcalm : Calm json base n s ts) (hreturned : Returned s.service.posts)
    (hquiet : ∀ node ∈ s.nodes, node.inbox = [] ∧ node.saver.pending = [])
    (hrow : Repository.ofAccount base id = [row]) (hperm : us.Perm (addedTo id s.service)) :
    (Repository.ofAccount (base ++ ts.map CacheAndTable.tableRow) id).Perm
        ((us.flatMap (List.replicate n)).map CacheAndTable.tableRow ++ [row]) ∧
      ∀ t ∈ us.flatMap (List.replicate n), t ∈ ts := by
  have hcopies : (ts.filter fun t => t.accountId = id).Perm (us.flatMap (List.replicate n)) := by
    have hfilter := (hcalm.perm_of_quiet hquiet).filter fun t => decide (t.accountId = id)
    rw [EndToEnd.publishedBy_of_returned hreturned, List.filter_flatten, List.map_replicate]
      at hfilter
    exact hfilter.trans ((perm_copies _ n).trans (hperm.symm.flatMap_right _))
  have hadded : Repository.ofAccount (ts.map CacheAndTable.tableRow) id
      = (ts.filter fun t => t.accountId = id).map CacheAndTable.tableRow := by
    rw [Repository.ofAccount, List.filter_map]
    rfl
  refine ⟨?_, fun t ht => List.mem_of_mem_filter (hcopies.mem_iff.mpr ht)⟩
  rw [Repository.ofAccount, List.filter_append]
  rw [← Repository.ofAccount, ← Repository.ofAccount, hrow, hadded]
  exact List.perm_append_comm.trans ((hcopies.map _).append_right _)

/-- Records by score are by the time of the column too, if no two have the same. -/
theorem kept_of_newest_first {us : List Transaction}
    (hdown : us.Pairwise fun a b => b.realizadaEm.score < a.realizadaEm.score)
    (htimes : (us.map fun t => CacheAndTable.keptTicks t.realizadaEm).Nodup) (n : Nat) :
    (us.flatMap (List.replicate n)).Pairwise fun a b => a = b ∨
      CacheAndTable.keptTicks b.realizadaEm < CacheAndTable.keptTicks a.realizadaEm := by
  rw [List.pairwise_flatMap]
  refine ⟨fun t _ => List.pairwise_replicate.mpr (Or.inr (Or.inl rfl)), ?_⟩
  refine hdown.imp₂ (fun a b hlt hne x hx y hy => ?_) (List.pairwise_map.mp htimes)
  rw [List.eq_of_mem_replicate hx, List.eq_of_mem_replicate hy]
  exact Or.inr (lt_of_le_of_ne
    (CacheAndTable.keptTicks_mono (DateTime.ticks_lt_of_score hlt).le) hne.symm)

/-- The start-ups have no other record for the account than its seed. -/
theorem seeds_of_booted {id : Int32} {row : Row} {seed : Transaction} (hs : Booted base n s)
    (hrow : Repository.ofAccount base id = [row]) (hseed : seed? row = some seed) :
    ∀ rows ∈ s.service.startUps, ∀ r ∈ rows, ∀ t, seed? r = some t → t.accountId = id →
      t = seed := by
  intro rows hrows r hr t ht hid
  rw [hs.startUps rows hrows] at hr
  have hin : r ∈ Repository.ofAccount base id :=
    List.mem_filter.mpr ⟨hr, decide_eq_true ((accountId_of_seed? ht).symm.trans hid)⟩
  rw [hrow] at hin
  rw [List.mem_singleton.mp hin, hseed] at ht
  exact (Option.some.inj ht).symm

/-- **The settled statements agree.**  `n` instances boot over a table with one row for the account,
    a seed, and a calm run of them has come to rest: every call has returned, everything is
    delivered and drained, and one start-up has gone through its rows.  Then, whatever the
    interleaving was, the two statements have the same balance, that of the newest record, and both
    list the records added from the newest on: the cached one each of them, with the seed at the
    end, the one over the table each of them `n` times.  No two of the records are to have the same
    score or, in the column, the same time, and all are to be above the seed in both. -/
theorem settled_statements_agree (json : TransactionJson) (pg : Repository.Postgres)
    (base : List Row) (n : Nat) (hn : 0 < n) (s s' : EndToEnd.State) (hs : Booted base n s)
    (hnul : ∀ c ∈ s.service.posts.calls, ∀ d, c.request.descricao = some d → Table.nul ∉ d)
    (id : Int32) (row : Row) (seed : Transaction) (hrow : Repository.ofAccount base id = [row])
    (hseed : seed? row = some seed)
    (hdated : ∀ row ∈ base, row.descricao = none → row.realizadaEm ≠ none)
    (actions : List EndToEnd.Action)
    (hcalm : Transition.AllSteps (EndToEnd.step json) (fun s a => calm s a = true) s actions)
    (hrun : Transition.run (EndToEnd.step json) s actions = some s')
    (hreturned : Returned s'.service.posts)
    (hquiet : ∀ node ∈ s'.nodes, node.inbox = [] ∧ node.saver.pending = [])
    (i : Nat) (hi : i < s.service.startUps.length) (hdone : s'.service.startUps[i]? = some [])
    (hscores : ((addedTo id s'.service).map fun t => t.realizadaEm.score).Nodup)
    (hlow : ∀ t ∈ addedTo id s'.service, seed.realizadaEm.score < t.realizadaEm.score)
    (htimes : ((addedTo id s'.service).map fun t => CacheAndTable.keptTicks t.realizadaEm).Nodup)
    (hlater : ∀ t ∈ addedTo id s'.service,
      seed.realizadaEm.ticks < CacheAndTable.keptTicks t.realizadaEm) (now : DateTime) :
    ∃ us cached stored, us.Perm (addedTo id s'.service) ∧
      (us.Pairwise fun a b => b.realizadaEm.score < a.realizadaEm.score) ∧
      CachedRepository.getBankStatementAsync json id now s'.service.posts.redis = .ok cached ∧
      Repository.getBankStatementAsync pg id now s'.table = some stored ∧
      cached.saldo = stored.saldo ∧
      cached.ultimasTransacoes.take 10 = cachedLines seed us ∧
      stored.ultimasTransacoes.map some
        = (((us.flatMap (List.replicate n)).map Transaction.listed).take 10).map
            CacheAndTable.keptEntry := by
  have hmem : row ∈ base ∧ row.accountId = id := by
    have hin : row ∈ Repository.ofAccount base id := by rw [hrow]; exact List.mem_singleton_self row
    exact ⟨List.mem_of_mem_filter hin, of_decide_eq_true (List.mem_filter.mp hin).2⟩
  have hrows : s.service.startUps[i]? = some base := by
    rw [List.getElem?_eq_getElem hi, hs.startUps _ (List.getElem_mem hi)]
  have hstart := realizadaEm_of_seed? hseed
  have hseeds := seeds_of_booted hs hrow hseed
  obtain ⟨hnull, start, rfl⟩ := eq_of_seed? hseed
  -- the cache
  obtain ⟨as, has⟩ := service_run hcalm hrun
  have hhistory := history_run hs.cache hs.fresh hseeds has
  obtain ⟨us, cached, hperm, hdown, hcached, hbalance, hlines⟩ := statement_of_history hhistory
    hmem.2 (seed_mem_run hrows hdated hmem.1 hseed has hdone) rfl hreturned hscores hlow now
  -- the table
  have hend := EndToEnd.calm_run hs hnul hcalm hrun
  obtain ⟨rows, hinserted, htable⟩ := hend.integral.accounted.inserted
  obtain ⟨rfl, hkept⟩ := CacheAndTable.mapM_batchRow_eq_some hinserted
  obtain ⟨hcopies, hin⟩ := ofAccount_perm_copies hend hreturned hquiet hrow hperm
  rw [← htable] at hcopies
  have hus : ∀ t ∈ us.flatMap (List.replicate n), t ∈ addedTo id s'.service := by
    intro t ht
    obtain ⟨u, hu, htu⟩ := List.mem_flatMap.mp ht
    rw [List.eq_of_mem_replicate htu]
    exact hperm.mem_iff.mp hu
  have hkeep : ∀ t ∈ us.flatMap (List.replicate n), CacheAndTable.Keepable t := by
    intro t ht
    obtain ⟨d, hd, -, hlength⟩ := (movement_of_mem hhistory (hus t ht)).descricao
    exact ⟨⟨d, hd, (Text.length_le_length16 d).trans hlength⟩, hkept t (hin t ht),
      (Nat.zero_le _).trans_lt (hlater t (hus t ht))⟩
  obtain ⟨stored, hstored, hbalance', hlines'⟩ :=
    CacheAndTable.getBankStatementAsync_of_descending pg now hcopies hnull hstart hkeep
      (kept_of_newest_first hdown ((hperm.map _).nodup_iff.mpr htimes) n)
      fun t ht => hlater t (hus t ht)
  refine ⟨us, cached, stored, hperm, hdown, hcached, hstored, ?_, hlines, hlines'⟩
  rw [hbalance, hbalance']
  obtain ⟨m, rfl⟩ := Nat.exists_eq_succ_of_ne_zero hn.ne'
  cases us <;> rfl

/-- Two instances, one credit: the table lists it twice. -/
theorem settled_statements_agree_delivered : ∃ (s' : EndToEnd.State) (us : List Transaction)
    (cached stored : BankStatement),
    Transition.run (EndToEnd.step systemTextJson) EndToEnd.twoBooting EndToEnd.delivered = some s' ∧
      us.Perm (addedTo 1 s'.service) ∧
      CachedRepository.getBankStatementAsync systemTextJson 1 (.ofTicks 9 .localTime)
        s'.service.posts.redis = .ok cached ∧
      Repository.getBankStatementAsync .stable 1 (.ofTicks 9 .localTime) s'.table = some stored ∧
      cached.saldo = stored.saldo ∧ stored.ultimasTransacoes.map some
        = (((us.flatMap (List.replicate 2)).map Transaction.listed).take 10).map
            CacheAndTable.keptEntry := by
  obtain ⟨s', hrun, hreturned, hquiet⟩ := EndToEnd.delivered_quiet
  have hend : (Transition.run (EndToEnd.step systemTextJson) EndToEnd.twoBooting
      EndToEnd.delivered).all (fun s' => s'.service.startUps[0]? = some [] ∧
        ((addedTo 1 s'.service).map fun t => t.realizadaEm.score).Nodup ∧
        (∀ t ∈ addedTo 1 s'.service, seedRecord.realizadaEm.score < t.realizadaEm.score) ∧
        ((addedTo 1 s'.service).map fun t => CacheAndTable.keptTicks t.realizadaEm).Nodup ∧
        ∀ t ∈ addedTo 1 s'.service,
          seedRecord.realizadaEm.ticks < CacheAndTable.keptTicks t.realizadaEm) = true := by
    decide +kernel
  rw [hrun, Option.all_some] at hend
  obtain ⟨hdone, hscores, hlow, htimes, hlater⟩ := of_decide_eq_true hend
  obtain ⟨us, cached, stored, hperm, -, hcached, hstored, hsaldo, -, hlines⟩ :=
    settled_statements_agree systemTextJson .stable [seedRow] 2 (by decide) EndToEnd.twoBooting s'
      EndToEnd.twoBooting_booted EndToEnd.twoBooting_nul 1 seedRow seedRecord (by decide) rfl
      (by decide) EndToEnd.delivered EndToEnd.delivered_calm hrun hreturned hquiet 0 (by decide)
      hdone hscores hlow htimes hlater (.ofTicks 9 .localTime)
  exact ⟨s', us, cached, stored, hrun, hperm, hcached, hstored, hsaldo, hlines⟩

end Drained

end Settlement

end Rinha
