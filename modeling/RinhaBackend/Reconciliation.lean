/-
  The cache against the table, in money.

  `rows_per_success` counts rows, `posts_linearize` explains balances.  Put together they say what
  an auditor would check: when everything has been answered, delivered and drained, the rows added
  for an account sum up to `n` times what its cached balance has moved since the seed, `n` being the
  number of instances (`table_reconciles`).  With one instance the table is the cache; with two
  every cent is there twice.

  It takes both kinds of good behaviour: that no update of the cache is lost (`lossless`) and that
  no message is (`calm`).  The cache side is an invariant of the service (`Sums`): from the first
  start-up on, the highest record of the account carries the seed's balance and the amounts of all
  calls that have added their record.
-/
import RinhaBackend.Bank
import RinhaBackend.CacheAndTable
import RinhaBackend.EndToEnd
import RinhaBackend.Provenance

namespace Rinha

namespace Reconciliation

open CachedRepository InitializeRedis EndToEnd
open RequestRun (Call Phase Moves Sound Executed)
open ServiceRun (Faithful)
open LostUpdate (amount addOf ReadIsCurrent Returned)
open Ledger (wrap32)

/-! ## Amounts -/

/-- The signed amount of a transaction. -/
def signed (tipo : Char) (valor : Int32) : Int :=
  if tipo = Transaction.credit then valor.toInt else -valor.toInt

/-- What a record is worth to account `id`. -/
def worth (id : Int32) (t : Transaction) : Int :=
  if t.accountId = id then signed t.tipo t.valor else 0

/-- What a row is worth to account `id`. -/
def rowWorth (id : Int32) (row : Row) : Int :=
  if row.accountId = id then signed row.tipo row.valor else 0

/-- What a call has added to account `id`. -/
def contribution (id : Int32) (c : Call) : Int :=
  match c.phase.added with
  | some (_, t) => worth id t
  | none => 0

/-- What all calls have added to account `id`. -/
def total (id : Int32) (s : ServiceRun.State) : Int := (s.posts.calls.map (contribution id)).sum

/-- A record is worth the amount of its request. -/
theorem worth_of_executed {request : TransactionRequest} {account : Account} {t : Transaction}
    (h : Executed request account t) {id : Int32} (hid : t.accountId = id) :
    worth id t = amount request := by
  obtain ⟨now, rfl⟩ := h.made
  rw [worth, if_pos hid]
  rfl

/-! ## The cache -/

/-- A record is added above everything stored, and while what its call read is current. -/
def lossless (json : TransactionJson) (s : State) : Action → Prop
  | .service (.post a) =>
    Bank.ScoresRise s.service.posts a ∧ ReadIsCurrent json s.service.posts a
  | _ => True

instance (json : TransactionJson) (s : State) : ∀ a, Decidable (lossless json s a)
  | .service (.post a) => inferInstanceAs (Decidable (Bank.ScoresRise s.service.posts a ∧
      ReadIsCurrent json s.service.posts a))
  | .service (.extrato _ _) | .service (.startUp _) | .deliver _ _ | .saver _ _ _ | .stop _
  | .restart _ => inferInstanceAs (Decidable True)

/-- `z` has been added to account `id`: before the first start-up nothing is stored for it and `z`
    is 0; from then on the highest record, the seed or one above it, carries the seed's balance
    and `z`. -/
def Balanced (json : TransactionJson) (id : Int32) (seed : Transaction) (db : Redis) (z : Int) :
    Prop :=
  (db (getBankStatementKey id)).last? = none ∧ z = 0 ∨
    ∃ t, (db (getBankStatementKey id)).last? = some (entryOf json t) ∧
      entryOf json seed ≤ entryOf json t ∧ t.saldo.toInt = wrap32 (seed.saldo.toInt + z)

section Balances

variable {json : TransactionJson} {id : Int32} {seed : Transaction} {db db' : Redis} {z : Int}

theorem Balanced.of_last (h : Balanced json id seed db z)
    (hlast : (db' (getBankStatementKey id)).last? = (db (getBankStatementKey id)).last?) :
    Balanced json id seed db' z := by
  rw [Balanced, hlast]
  exact h

/-- A call adds its amount to what it has read. -/
theorem Balanced.add (h : Balanced json id seed db z) {request : TransactionRequest}
    {account : Account} {t : Transaction} (hid : t.accountId = id)
    (hread : getAccountByIdAsync json id db = .ok (some account))
    (hex : Executed request account t) (hkeyed : Keyed json db)
    (hrise : ∀ e ∈ (db (getBankStatementKey id)).entries,
      SortedSet.score e < t.realizadaEm.score) :
    Balanced json id seed (saveInsert json db t) (z + worth id t) := by
  obtain ⟨u, hlast, -, rfl⟩ := hkeyed.read hread
  rcases h with ⟨hnone, -⟩ | ⟨v, hv, hseed, hsaldo⟩
  · rw [hlast] at hnone
    cases hnone
  · rw [hlast, Option.some.injEq] at hv
    obtain rfl := entryOf_injective json hv
    have htop : entryOf json u < entryOf json t :=
      SortedSet.lt_of_score_lt (hrise _ (SortedSet.mem_of_last? hlast))
    refine Or.inr ⟨t, ?_, hseed.trans htop.le, ?_⟩
    · rw [saveInsert_of_eq json db t hid]
      exact SortedSet.last?_add_of_forall_lt hrise
    · rw [Provenance.saldo_of_executed hex, worth_of_executed hex hid, Transaction.account, hsaldo]
      simp only [wrap32]
      rw [Int.bmod_add_bmod, add_assoc]

/-- A start-up adds the seed below everything, or first. -/
theorem Balanced.reseed (h : Balanced json seed.accountId seed db z) (hkeyed : Keyed json db) :
    Balanced json seed.accountId seed (saveInsert json db seed) z := by
  rcases h with ⟨hnone, hz⟩ | ⟨t, hlast, hle, hsaldo⟩
  · have hempty := List.getLast?_eq_none_iff.mp hnone
    have hrange := inInt32_toInt seed.saldo
    refine Or.inr ⟨seed, ?_, le_refl _, ?_⟩
    · rw [saveInsert_same]
      exact SortedSet.last?_add_of_forall_lt fun e he => absurd (hempty ▸ he) List.not_mem_nil
    · rw [hz, add_zero, wrap32]
      exact (Int.bmod_eq_of_le (by have := hrange.1; omega) (by have := hrange.2; omega)).symm
  · refine Or.inr ⟨t, ?_, hle, hsaldo⟩
    rw [saveInsert_same, SortedSet.last?_add hlast fun hm =>
      (hkeyed.recorded _).score_eq (SortedSet.mem_of_last? hlast) hm]
    exact congrArg some (max_eq_left hle)

end Balances

/-- The invariant of the service. -/
structure Sums (json : TransactionJson) (id : Int32) (seed : Transaction)
    (s : ServiceRun.State) : Prop where
  faithful : Faithful json (fun id t => t.accountId = id) s
  startUps : ∀ rows ∈ s.startUps, ∀ row ∈ rows, ∀ t, seed? row = some t → t.accountId = id →
    t = seed
  balance : Balanced json id seed s.posts.redis (total id s)

section Cache

variable {json : TransactionJson} {id : Int32} {seed : Transaction} {s s' : ServiceRun.State}

/-- What the one call that moves contributes decides the total. -/
theorem total_put {i : Nat} {call : Call} (hcall : s.posts.calls[i]? = some call) (stores : Stores)
    (phase : Phase) (id : Int32) :
    total id { s with posts := s.posts.put i call stores phase } + contribution id call
      = total id s + contribution id { call with phase := phase } :=
  Parties.sum_map_set (contribution id) hcall { call with phase := phase }

/-- **A step of a call** keeps the balance. -/
theorem balanced_post (hI : Sums json id seed s) {a : RequestRun.Action}
    (hrise : Bank.ScoresRise s.posts a) (hcurrent : ReadIsCurrent json s.posts a)
    {posts : RequestRun.State} (h : RequestRun.step json s.posts a = some posts) :
    Balanced json id seed posts.redis (total id { s with posts := posts }) := by
  obtain ⟨call, stores, phase, hcall, hmove, rfl⟩ := RequestRun.step_moves h
  have hmem : call ∈ s.posts.calls := List.mem_of_getElem? hcall
  have htotal := total_put hcall stores phase id
  show Balanced json id seed stores.redis _
  rcases hmove.effect with ⟨account, t, hphase, rfl, hredis⟩ | ⟨hsame, hredis⟩
  · have hadd : addOf s.posts a = some (call, account, t) := by
      rw [addOf, hcall, Option.bind_some, hphase]
    have hread : getAccountByIdAsync json call.accountId s.posts.redis = .ok (some account) :=
      hcurrent (call, account, t) hadd
    have hsound := hI.faithful.sound call hmem
    rw [hphase] at hsound
    have hid : t.accountId = call.accountId := ServiceRun.holds_executed
      Isolation.inherited_accountId (hI.faithful.sound call hmem) (hI.faithful.held call hmem)
      (by rw [hphase]; rfl)
    have hbefore : contribution id call = 0 := by rw [contribution, hphase]; rfl
    have hafter : contribution id { call with phase := .trimming account t } = worth id t := rfl
    rw [hbefore, hafter, add_zero] at htotal
    rw [htotal, hredis]
    by_cases hown : t.accountId = id
    · rw [← hid, hown] at hread
      have hscores := hrise (call, account, t) hadd
      rw [hown] at hscores
      exact hI.balance.add hown hread hsound hI.faithful.stored hscores
    · have hnothing : worth id t = 0 := if_neg hown
      rw [hnothing, add_zero]
      refine hI.balance.of_last ?_
      rw [saveInsert_of_ne json _ t hown]
      rfl
  · have hcontribution : contribution id { call with phase := phase } = contribution id call := by
      rw [contribution, contribution, hsame]
    rw [hcontribution] at htotal
    rw [add_right_cancel htotal]
    exact hI.balance.of_last (last?_of_trimmed hredis _)

/-- **A step of the service** keeps the sums. -/
theorem sums_step (hI : Sums json id seed s) {a : ServiceRun.Action}
    (hC : ∀ b, a = .post b → Bank.ScoresRise s.posts b ∧ ReadIsCurrent json s.posts b)
    (h : ServiceRun.step json s a = some s') : Sums json id seed s' := by
  have hfaithful := ServiceRun.faithful_step Isolation.inherited_accountId hI.faithful h
  have hstartUps := ServiceRun.startUps_step hI.startUps h
  refine ⟨hfaithful, hstartUps, ?_⟩
  cases a with
  | post a =>
    obtain ⟨hrise, hcurrent⟩ := hC a rfl
    obtain ⟨posts, hposts, rfl⟩ := ServiceRun.step_post h
    exact balanced_post hI hrise hcurrent hposts
  | extrato i now =>
    obtain ⟨x, -, -, rfl⟩ := ServiceRun.step_extrato h
    exact hI.balance
  | startUp i =>
    obtain ⟨rows, db, rest, hrows, hstep, rfl⟩ := ServiceRun.step_startUp h
    show Balanced json id seed db (total id s)
    rcases (ServiceRun.stepStartUp_cases hstep).2 with rfl | ⟨row, hrow, t, ht, rfl⟩
    · exact hI.balance
    · by_cases hown : t.accountId = id
      · obtain rfl := hI.startUps rows (List.mem_of_getElem? hrows) row hrow t ht hown
        subst hown
        exact hI.balance.reseed hI.faithful.stored
      · refine hI.balance.of_last ?_
        rw [saveInsert_of_ne json _ t hown]

end Cache

/-! ## Runs of the whole -/

section Runs

variable {json : TransactionJson} {id : Int32} {seed : Transaction}

theorem sums_run_step {s s' : State} {a : Action} (hI : Sums json id seed s.service)
    (hcalm : calm s a = true) (hC : lossless json s a) (h : step json s a = some s') :
    Sums json id seed s'.service := by
  rcases EndToEnd.step_service h with ⟨b, rfl, hb⟩ | ⟨-, hsame⟩ | ⟨i, rfl, -⟩
  · refine sums_step hI (fun c hc => ?_) hb
    subst hc
    exact hC
  · rw [hsame]
    exact hI
  · cases hcalm

theorem sums_of_booted {base : List Row} {n : Nat} {s : State} (hs : Booted base n s)
    (hseed : ∀ row ∈ base, ∀ t, seed? row = some t → t.accountId = id → t = seed) :
    Sums json id seed s.service := by
  refine ⟨⟨hs.fresh.allSound, ?_, fun c hc account haccount => ?_, ?_⟩, ?_, Or.inl ⟨?_, ?_⟩⟩
  · rw [hs.cache]
    exact fun id e he => by cases he
  · rw [hs.fresh c hc] at haccount
    cases haccount
  · exact fun _ _ row _ t ht => accountId_of_seed? ht
  · intro rows hrows row hrow
    rw [hs.startUps rows hrows] at hrow
    exact hseed row hrow
  · rw [hs.cache]
    rfl
  · refine List.sum_eq_zero fun z hz => ?_
    obtain ⟨c, hc, rfl⟩ := List.mem_map.mp hz
    rw [contribution, hs.fresh c hc]
    rfl

end Runs

/-! ## The table -/

section Rows

variable {id : Int32}

/-- What is there `n` times is worth `n` times as much. -/
theorem sum_of_copies {ts l : List Transaction} {n : Nat} (h : ts.Perm (List.replicate n l).flatten)
    (f : Transaction → Int) : (ts.map f).sum = n * (l.map f).sum := by
  rw [(h.map f).sum_eq, List.map_flatten, List.sum_flatten, List.map_replicate,
    List.map_replicate, List.sum_replicate, nsmul_eq_mul]

/-- Call by call, or record by record. -/
theorem sum_added (calls : List Call) :
    ((calls.filterMap fun c => c.phase.added.map Prod.snd).map (worth id)).sum
      = (calls.map (contribution id)).sum := by
  induction calls with
  | nil => rfl
  | cons c calls ih =>
    rw [List.map_cons, List.sum_cons, ← ih, contribution]
    rcases hadded : c.phase.added with _ | ⟨account, t⟩
    · rw [List.filterMap_cons_none (by rw [hadded]; rfl)]
      exact (zero_add _).symm
    · rw [List.filterMap_cons_some (by rw [hadded]; rfl), List.map_cons, List.sum_cons]

end Rows

/-- **The table reconciles with the cache.**  Take `n` instances that boot over a table whose seed
    rows of account `id` have one record, and a run in which no update and no message is lost, with
    no U+0000 in a description.  When every call has returned, and everything has been delivered and
    drained, the rows added for the account sum up, in 32 bits, to `n` times what its cached balance
    has moved since the seed. -/
theorem table_reconciles (json : TransactionJson) (base : List Row) (n : Nat) (s s' : State)
    (hs : Booted base n s)
    (hnul : ∀ c ∈ s.service.posts.calls, ∀ d, c.request.descricao = some d → Table.nul ∉ d)
    (id : Int32) (seed : Transaction)
    (hseed : ∀ row ∈ base, ∀ t, seed? row = some t → t.accountId = id → t = seed)
    (actions : List Action)
    (hcalm : Transition.AllSteps (step json) (fun s a => calm s a = true) s actions)
    (hlossless : Transition.AllSteps (step json) (lossless json) s actions)
    (hrun : Transition.run (step json) s actions = some s')
    (hreturned : Returned s'.service.posts)
    (hquiet : ∀ node ∈ s'.nodes, node.inbox = [] ∧ node.saver.pending = []) :
    ∃ added, s'.table = base ++ added ∧ ∀ account,
      getAccountByIdAsync json id s'.service.posts.redis = .ok (some account) →
        wrap32 (added.map (rowWorth id)).sum
          = wrap32 (n * (account.saldo.toInt - seed.saldo.toInt)) := by
  have hend := calm_run hs hnul hcalm hrun
  obtain ⟨added, hadded, htable⟩ := hend.integral.accounted.inserted
  obtain ⟨rfl, -⟩ := CacheAndTable.mapM_batchRow_eq_some hadded
  refine ⟨_, htable, fun account hread => ?_⟩
  have hsums : Sums json id seed s'.service :=
    Transition.run_invariant_of (step json) (fun _ _ _ hI hC h => sums_run_step hI hC.1 hC.2 h)
      actions s s' (sums_of_booted hs hseed) (hcalm.and (step json) hlossless) hrun
  have hrows : (List.map (rowWorth id) (List.map CacheAndTable.tableRow
      (Transition.yields (step json) insertedBy s actions))).sum = n * total id s'.service := by
    rw [List.map_map, total, ← sum_added, ← publishedBy_of_returned hreturned]
    exact sum_of_copies (hend.perm_of_quiet hquiet) (worth id)
  -- what is read has the seed's balance and all that has been added
  obtain ⟨u, hlast, -, rfl⟩ := hsums.faithful.stored.read hread
  rcases hsums.balance with ⟨hnone, -⟩ | ⟨t, ht, -, hsaldo⟩
  · rw [hlast] at hnone
    cases hnone
  · rw [hlast, Option.some.injEq] at ht
    obtain rfl := entryOf_injective json ht
    have hmoved : wrap32 (wrap32 (seed.saldo.toInt + total id s'.service) - seed.saldo.toInt)
        = wrap32 (total id s'.service) := by
      simp only [wrap32]
      rw [Int.bmod_sub_bmod, add_sub_cancel_left]
    rw [hrows, Transaction.account, hsaldo]
    simp only [wrap32] at hmoved ⊢
    rw [← Int.mul_bmod_bmod, ← hmoved, Int.mul_bmod_bmod]

/-- Two instances, one credit: the rows are worth twice what the balance has moved. -/
theorem table_reconciles_delivered : ∃ s' added,
    Transition.run (step systemTextJson) twoBooting delivered = some s' ∧
      s'.table = [seedRow] ++ added ∧ ∀ account,
        getAccountByIdAsync systemTextJson 1 s'.service.posts.redis = .ok (some account) →
          wrap32 (added.map (rowWorth 1)).sum
            = wrap32 (2 * (account.saldo.toInt - seedRecord.saldo.toInt)) := by
  obtain ⟨s', hrun, hreturned, hquiet⟩ := delivered_quiet
  have hseed : ∀ row ∈ [seedRow], ∀ t, seed? row = some t → t.accountId = 1 → t = seedRecord := by
    intro row hrow t ht _
    rw [List.mem_singleton.mp hrow] at ht
    exact (Option.some.inj ht).symm
  obtain ⟨added, htable, hsum⟩ := table_reconciles systemTextJson [seedRow] 2 twoBooting s'
    twoBooting_booted twoBooting_nul 1 seedRecord hseed delivered delivered_calm (by decide +kernel)
    hrun hreturned hquiet
  exact ⟨s', added, hrun, htable, hsum⟩

end Reconciliation

end Rinha
