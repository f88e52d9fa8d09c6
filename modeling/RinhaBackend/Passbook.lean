/-
  The whole service as one sequential object: a bank that keeps a passbook for every account.

  `Bank` linearizes the POST calls against a bank of balances.  Here the statements are operations
  too, and what they show is the passbook: the limit, the balance, and the last ten lines.  A
  statement takes effect at the one command it sends to Redis, a posting where `Bank` says; a
  start-up that runs again in the middle of the traffic is no operation at all.

  A statement asks for the ranks -11 .. -1 in descending order, the eleven LOWEST, so it shows the
  balance only while no more than eleven records are stored.  That is the one condition beyond those
  of `Bank` (`Orderly`); with it, one order of postings and statements explains the run
  (`service_linearizes`).

  What carries it: the passbook of an account is the log of its records, the set in Redis retains
  the top ten of the log at every moment (`Logged`), and so it has the newest ten on top.
-/
import RinhaBackend.Bank
import RinhaBackend.Retention

namespace Rinha

namespace Passbook

open CachedRepository InitializeRedis ServiceRun
open RequestRun (Call Phase Moves Sound AllSound)
open Ledger (Answer)
open TopRank (Retains)

/-! ## The bank with its passbooks -/

/-- The accounts, and for each its accepted requests, newest first. -/
structure Books where
  accounts : Bank.Accounts
  lines : Int32 → List TransactionRequest

/-- What is asked: a posting, or a statement. -/
inductive Request where
  | posting (id : Int32) (request : TransactionRequest)
  | statement (id : Int32)

/-- What a statement shows: limit, balance, and the last ten lines. -/
abbrev Page := Int × Int × List TransactionRequest

/-- The reply: `none` says that there is no such account. -/
inductive Reply where
  | posting (answer : Option Answer)
  | statement (page : Option Page)
  deriving DecidableEq

/-- The line every passbook begins with. -/
def opening : TransactionRequest := ⟨0, 'c', some []⟩

/-- A posting is answered by the bank, and one that is accepted is one line more. -/
def Books.post (books : Books) (id : Int32) (request : TransactionRequest) :
    Books × Option Answer :=
  let r := Bank.post books.accounts (id, request.posting)
  match r.2 with
  | some (.posted _ _) =>
    (⟨r.1, Function.update books.lines id (request :: books.lines id)⟩, r.2)
  | _ => (⟨r.1, books.lines⟩, r.2)

/-- The last ten lines; a passbook with no line but the opening one is shown blank. -/
def lastTen (lines : List TransactionRequest) : List TransactionRequest :=
  if lines = [] then [] else (lines ++ [opening]).take 10

/-- A statement; an account with no limit and no balance counts as one that does not exist. -/
def Books.statement (books : Books) (id : Int32) : Option Page :=
  match books.accounts id with
  | none => none
  | some (limite, saldo) =>
    if saldo = 0 ∧ limite = 0 then none else some (limite, saldo, lastTen (books.lines id))

/-- One operation. -/
def serve (books : Books) : Request → Books × Reply
  | .posting id request => ((books.post id request).1, .posting (books.post id request).2)
  | .statement id => (books, .statement (books.statement id))

section Posting

variable {books : Books} {id : Int32} {request : TransactionRequest}

theorem post_answer : (books.post id request).2
    = (Bank.post books.accounts (id, request.posting)).2 := by
  rw [Books.post]
  split <;> rfl

theorem post_accounts : (books.post id request).1.accounts
    = (Bank.post books.accounts (id, request.posting)).1 := by
  rw [Books.post]
  split <;> rfl

/-- What is accepted is written down. -/
theorem post_lines {limite saldo : Int}
    (h : (Bank.post books.accounts (id, request.posting)).2 = some (.posted limite saldo)) :
    (books.post id request).1.lines
      = Function.update books.lines id (request :: books.lines id) := by
  rw [Books.post]
  split
  · rfl
  · next hno => exact absurd h (hno limite saldo)

/-- And nothing else. -/
theorem post_lines_of_refused
    (h : ∀ limite saldo, (Bank.post books.accounts (id, request.posting)).2
      ≠ some (.posted limite saldo)) : (books.post id request).1.lines = books.lines := by
  rw [Books.post]
  split
  · next limite saldo heq => exact absurd heq (h limite saldo)
  · rfl

end Posting

/-! ## The service, as the bank sees it -/

/-- A line of a statement, without its time. -/
def lineOf (x : BankStatementTransaction) : TransactionRequest := ⟨x.valor, x.tipo, x.descricao⟩

/-- The page a statement is, down to its tenth line. -/
def pageOf : Except Fault (HttpResult BankStatement) → Option (Option Page)
  | .ok (.ok statement) => some (some (statement.saldo.limite.toInt, statement.saldo.total.toInt,
      (statement.ultimasTransacoes.map lineOf).take 10))
  | .ok .notFound => some none
  | _ => none

/-- A POST, or a statement. -/
abbrev Party := Nat ⊕ Nat

/-- What a party asks. -/
def asked (s : State) : Party → Request
  | .inl i =>
    match s.posts.calls[i]? with
    | some c => .posting c.accountId c.request
    | none => .posting 0 ⟨0, 'c', none⟩
  | .inr k => .statement (((s.extratos[k]?).map Extrato.accountId).getD 0)

/-- What a party has been replied, or can no longer avoid. -/
def replied (s : State) : Party → Option Reply
  | .inl i => (Bank.replied s.posts i).map .posting
  | .inr k => (s.extratos[k]?).bind fun x => x.response.bind fun response =>
      (pageOf response).map .statement

/-- The party has been answered. -/
def Done (s : State) : Party → Prop
  | .inl i => ∃ c, s.posts.calls[i]? = some c ∧ LostUpdate.isReturned c = true
  | .inr k => ∃ x, s.extratos[k]? = some x ∧ x.response ≠ none

/-- The party is still to begin. -/
def Waiting (s : State) : Party → Prop
  | .inl i => ∃ c, s.posts.calls[i]? = some c ∧ c.phase = .received
  | .inr k => ∃ x, s.extratos[k]? = some x ∧ x.response = none

/-- A record is added above everything stored and while what its call read is current; a statement
    finds at most eleven records. -/
def Orderly (json : TransactionJson) (s : State) : Action → Prop
  | .post a => Bank.ScoresRise s.posts a ∧ LostUpdate.ReadIsCurrent json s.posts a
  | .extrato k _ => ∀ x ∈ s.extratos[k]?,
      (s.posts.redis (getBankStatementKey x.accountId)).entries.length ≤ 11
  | .startUp _ => True

instance (json : TransactionJson) (s : State) : ∀ a, Decidable (Orderly json s a)
  | .post a => inferInstanceAs (Decidable (Bank.ScoresRise s.posts a ∧
      LostUpdate.ReadIsCurrent json s.posts a))
  | .extrato k _ => inferInstanceAs (Decidable (∀ x ∈ s.extratos[k]?, _))
  | .startUp _ => inferInstanceAs (Decidable True)

/-! ## The log of an account -/

/-- `ts` has been posted on the account of `seed`, newest first: the set retains the top ten of the
    log, in which each record is above those before it. -/
structure Logged (json : TransactionJson) (seed : Option Transaction) (ts : List Transaction)
    (set : RedisSet) : Prop where
  opened : ts ≠ [] → seed.isSome
  described : ∀ t ∈ ts, ¬ (t.descricao = none ∨ t.descricao = some [])
  descending : ((ts ++ seed.toList).map (entryOf json)).Pairwise fun a b => b < a
  retains : Retains 10 ((ts ++ seed.toList).map (entryOf json)).toFinset set.toFinset

section Logs

variable {json : TransactionJson} {seed : Option Transaction} {ts : List Transaction}
  {set : RedisSet}

/-- The newest record is on top. -/
theorem Logged.last? (h : Logged json seed ts set) :
    set.last? = (ts ++ seed.toList).head?.map (entryOf json) := by
  have hten : 0 < 10 := by decide
  rw [SortedSet.last?_of_retains hten h.descending (fun _ => List.mem_toFinset) h.retains,
    List.head?_map]

/-- Nothing has been posted on a set that holds the seed. -/
theorem logged_of_seed (h : set.entries = (seed.map (entryOf json)).toList) :
    Logged json seed [] set := by
  have hlog : (([] : List Transaction) ++ seed.toList).map (entryOf json) = set.entries := by
    rw [h, List.nil_append]
    cases seed <;> rfl
  refine ⟨fun hc => absurd rfl hc, fun _ hc => absurd hc List.not_mem_nil, ?_, ?_⟩
  · cases seed with
    | none => exact List.Pairwise.nil
    | some t => exact List.pairwise_singleton _ _
  · rw [hlog]
    refine ⟨fun e he => List.mem_toFinset.mpr (SortedSet.mem_toFinset.mp he), fun e he => ?_⟩
    exact SortedSet.mem_toFinset.mpr (List.mem_toFinset.mp (TopRank.top_subset 10 _ he))

/-- A record added above everything stored is above the whole log. -/
theorem Logged.post (h : Logged json seed ts set) (hseed : seed.isSome)
    (hrecorded : Recorded json set) {t : Transaction}
    (hdesc : ¬ (t.descricao = none ∨ t.descricao = some []))
    (hlt : ∀ e ∈ set.entries, SortedSet.score e < t.realizadaEm.score) :
    Logged json seed (t :: ts) (set.add t.realizadaEm.score (json.serialize t)) := by
  refine ⟨fun _ => hseed, fun u hu => ?_, ?_, ?_⟩
  · rcases List.mem_cons.mp hu with rfl | hu
    · exact hdesc
    · exact h.described u hu
  · rw [List.cons_append, List.map_cons, List.pairwise_cons]
    refine ⟨fun e he => ?_, h.descending⟩
    -- the newest entry of the log is stored, so the new record is above it
    have hlast := h.last?
    have hdown := h.descending
    rcases hlog : ts ++ seed.toList with _ | ⟨u, rest⟩
    · rw [hlog] at he
      exact absurd he List.not_mem_nil
    · rw [hlog] at he hlast hdown
      have htop : entryOf json u < entryOf json t :=
        SortedSet.lt_of_score_lt (hlt _ (SortedSet.mem_of_last? hlast))
      rcases List.mem_cons.mp he with rfl | he
      · exact htop
      · exact lt_trans (List.rel_of_pairwise_cons hdown he) htop
  · refine h.retains.add (a := entryOf json t) (fun e => ?_) fun e => ?_
    · rw [List.cons_append, List.map_cons, List.toFinset_cons, Finset.mem_insert]
    · exact SortedSet.mem_toFinset_add fun e he hm => hrecorded.score_eq he hm

/-- A start-up that adds the seed again adds nothing to the log. -/
theorem Logged.reseed {t : Transaction} (h : Logged json (some t) ts set)
    (hrecorded : Recorded json set) :
    Logged json (some t) ts (set.add t.realizadaEm.score (json.serialize t)) := by
  refine ⟨h.opened, h.described, h.descending,
    h.retains.add (a := entryOf json t) (fun e => ?_) fun e => ?_⟩
  · refine (or_iff_right_of_imp ?_).symm
    rintro rfl
    exact List.mem_toFinset.mpr
      (List.mem_map_of_mem (List.mem_append_right ts (List.mem_singleton_self t)))
  · exact SortedSet.mem_toFinset_add fun e he hm => hrecorded.score_eq he hm

theorem Logged.trim (h : Logged json seed ts set) : Logged json seed ts (set.keepTop 10) := by
  refine ⟨h.opened, h.described, h.descending, ?_⟩
  rw [SortedSet.toFinset_keepTop]
  exact h.retains.cut

/-- The line of a record. -/
def line (t : Transaction) : TransactionRequest := lineOf t.listed

/-- A statement reads every record stored if there are at most eleven, and down to the tenth they
    are those of the log. -/
theorem Logged.exists_shown (h : Logged json seed ts set) (hrecorded : Recorded json set)
    (hroom : set.entries.length ≤ 11) {t : Transaction}
    (htop : (ts ++ seed.toList).head? = some t) :
    ∃ low, set.entries.take 11 = (low ++ [t]).map (entryOf json) ∧
      (t :: low.reverse).take 10 = (ts ++ seed.toList).take 10 := by
  obtain ⟨low, u, hshown⟩ : ∃ low u, set.entries.take 11 = (low ++ [u]).map (entryOf json) := by
    refine hrecorded.exists_shown fun hempty => ?_
    have hlast := h.last?
    rw [htop, SortedSet.last?, hempty] at hlast
    cases hlast
  have hall : set.entries.reverse = (u :: low.reverse).map (entryOf json) := by
    rw [← List.take_of_length_le hroom, hshown, ← List.map_reverse, List.reverse_append]
    rfl
  have htake : (u :: low.reverse).take 10 = (ts ++ seed.toList).take 10 := by
    have hsame := SortedSet.take_reverse_of_retains h.descending (fun _ => List.mem_toFinset)
      h.retains
    rw [hall, ← List.map_take, ← List.map_take] at hsame
    exact List.map_injective_iff.mpr (fun _ _ he => entryOf_injective json he) hsame
  obtain rfl : u = t := by
    have hhead := congrArg List.head? htake
    rw [List.head?_take, List.head?_take, htop] at hhead
    exact Option.some.inj hhead
  exact ⟨low, hshown, htake⟩

/-- What a statement lists of such records: nothing while the seed is alone, else the log and the
    seed at its end. -/
theorem Logged.listed_of_shown (h : Logged json seed ts set)
    (hseed : ∀ t ∈ seed, t.descricao = some []) {t : Transaction} {low : List Transaction}
    (htop : (ts ++ seed.toList).head? = some t)
    (htake : (t :: low.reverse).take 10 = (ts ++ seed.toList).take 10) :
    (listedFirst t ++ low.reverse.map Transaction.listed).take 10
      = if ts = [] then [] else ((ts ++ seed.toList).map Transaction.listed).take 10 := by
  cases ts with
  | nil =>
    obtain rfl : seed = some t := by
      cases seed with
      | none => cases htop
      | some v =>
        cases htop
        rfl
    have hnone : low.reverse.take 9 = [] := (List.cons.inj htake).2
    have hlow : low.reverse = [] := by
      rcases List.take_eq_nil_iff.mp hnone with hc | hnil
      · cases hc
      · exact hnil
    rw [hlow, listedFirst, if_pos (Or.inr (hseed t rfl))]
    rfl
  | cons v ts =>
    obtain rfl : v = t := Option.some.inj htop
    rw [if_neg (List.cons_ne_nil v ts), listedFirst, if_neg (h.described v List.mem_cons_self),
      ← List.map_take, ← htake, List.map_take]
    rfl

/-- The lines a statement has of such records. -/
theorem Logged.lines_of_shown (h : Logged json seed ts set) (hseed : ∀ t ∈ seed, line t = opening)
    {t : Transaction} {low : List Transaction}
    (htop : (ts ++ seed.toList).head? = some t)
    (htake : (t :: low.reverse).take 10 = (ts ++ seed.toList).take 10) :
    ((listedFirst t ++ low.reverse.map Transaction.listed).map lineOf).take 10
      = lastTen (ts.map line) := by
  have hdesc : ∀ t ∈ seed, t.descricao = some [] := fun t ht =>
    congrArg TransactionRequest.descricao (hseed t ht)
  rw [← List.map_take, h.listed_of_shown hdesc htop htake, lastTen]
  by_cases hts : ts = []
  · rw [if_pos hts, if_pos (List.map_eq_nil_iff.mpr hts), List.map_nil]
  · obtain ⟨w, rfl⟩ := Option.isSome_iff_exists.mp (h.opened hts)
    rw [if_neg hts, if_neg fun hc => hts (List.map_eq_nil_iff.mp hc), ← List.map_take, List.map_map,
      List.map_take, List.map_append, Option.toList_some, List.map_singleton]
    show (ts.map line ++ [line w]).take 10 = _
    rw [hseed w rfl]

end Logs

/-! ## The refinement -/

/-- The posting of a request, as the bank takes it. -/
def postingOf : Request → Int32 × Ledger.Posting
  | .posting id request => (id, request.posting)
  | .statement _ => (0, .invalid)

/-- The cache keeps the books: it mirrors the bank, and each set shows the log of its account, of
    which the passbook has the lines. -/
structure Keeps (json : TransactionJson) (seeds : Int32 → Option Transaction)
    (op : Party → Request) (s : State) (books : Books) : Prop where
  mirrors : Bank.Mirrors json (fun i => postingOf (op (.inl i))) s.posts books.accounts
  asked : asked s = op
  logged : ∀ id, ∃ ts, ts.map line = books.lines id ∧
    Logged json (seeds id) ts (s.posts.redis (getBankStatementKey id))
  startUps : ∀ rows ∈ s.startUps, ∀ row ∈ rows, ∀ t, seed? row = some t →
    seeds row.accountId = some t
  replied : ∀ x ∈ s.extratos, ∀ response, x.response = some response →
    (pageOf response).isSome

section Steps

variable {json : TransactionJson} {seeds : Int32 → Option Transaction} {op : Party → Request}
  {s s' : State} {books : Books}

/-- Nobody changes what it asks. -/
theorem asked_step {a : Action} (h : step json s a = some s') : asked s' = asked s := by
  funext p
  cases a with
  | post a =>
    obtain ⟨posts, hposts, rfl⟩ := step_post h
    obtain ⟨call, stores, phase, hcall, -, rfl⟩ := RequestRun.step_moves hposts
    cases p with
    | inl i =>
      by_cases hi : a.call = i
      · subst hi
        rw [asked, asked, RequestRun.State.put]
        dsimp only
        rw [List.getElem?_set_self (List.getElem?_eq_some_iff.mp hcall).1, hcall]
      · rw [asked, asked, RequestRun.State.put]
        dsimp only
        rw [List.getElem?_set_ne hi]
    | inr k => rfl
  | extrato k now =>
    obtain ⟨x, hx, -, rfl⟩ := step_extrato h
    cases p with
    | inl i => rfl
    | inr j =>
      by_cases hj : k = j
      · subst hj
        rw [asked, asked]
        dsimp only
        rw [List.getElem?_set_self (List.getElem?_eq_some_iff.mp hx).1, hx]
        rfl
      · rw [asked, asked]
        dsimp only
        rw [List.getElem?_set_ne hj]
  | startUp i =>
    obtain ⟨rows, db, rest, -, -, rfl⟩ := step_startUp h
    cases p <;> rfl

/-- **A statement shows its page.** -/
theorem Keeps.page (hI : Keeps json seeds op s books)
    (hseeds : ∀ id, ∀ t ∈ seeds id, line t = opening) {id : Int32}
    (hroom : (s.posts.redis (getBankStatementKey id)).entries.length ≤ 11) (host : Nat)
    (now : DateTime) :
    pageOf (Endpoints.getBankStatementAsync json id now (s.posts.storesOf host))
      = some (books.statement id) := by
  obtain ⟨ts, hlines, hlogged⟩ := hI.logged id
  have hshows := hI.mirrors.shows id
  have hlast := hlogged.last?
  rw [Bank.Shows] at hshows
  rw [Endpoints.getBankStatementAsync, TransactionService.getBankStatementAsync,
    RequestRun.State.storesOf, Books.statement]
  dsimp only
  rcases htop : (ts ++ (seeds id).toList).head? with _ | t
  · -- nothing is stored
    rw [htop] at hlast
    rw [getBankStatementAsync_of_empty now (List.getLast?_eq_none_iff.mp hlast)]
    rcases haccount : books.accounts id with _ | ⟨limite, saldo⟩
    · rfl
    · rw [haccount, hlast] at hshows
      obtain ⟨t, ht, -⟩ := hshows
      cases ht
  · rw [htop] at hlast
    obtain ⟨low, hshown, htake⟩ :=
      hlogged.exists_shown (hI.mirrors.keyed.recorded id) hroom htop
    have hpage := hlogged.lines_of_shown (hseeds id) htop htake
    rw [hlines] at hpage
    rw [getBankStatementAsync_of_records now hshown]
    rcases haccount : books.accounts id with _ | ⟨limite, saldo⟩
    · rw [haccount, hlast] at hshows
      cases hshows
    · rw [haccount, hlast] at hshows
      obtain ⟨u, hu, rfl, rfl, -⟩ := hshows
      obtain rfl := entryOf_injective json (Option.some.inj hu)
      have hzero : (t.saldo.toInt = 0 ∧ t.limite.toInt = 0) ↔ (t.saldo = 0 ∧ t.limite = 0) := by
        rw [← Int32.toInt_inj, ← Int32.toInt_inj]
        rfl
      by_cases hempty : t.saldo = 0 ∧ t.limite = 0
      · dsimp only
        rw [if_pos hempty, if_pos (hzero.mpr hempty)]
        rfl
      · dsimp only
        rw [if_neg hempty, if_neg (fun hc => hempty (hzero.mp hc)), ← hpage, BankStatement.isEmpty,
          Balance.isEmpty, if_neg (fun hc => hempty (of_decide_eq_true hc))]
        rfl

/-- A statement is an operation that leaves the books. -/
theorem keeps_extrato (hseeds : ∀ id, ∀ t ∈ seeds id, line t = opening)
    (hI : Keeps json seeds op s books) {k : Nat} {now : DateTime}
    (hC : Orderly json s (.extrato k now)) (h : step json s (.extrato k now) = some s') :
    ∃ books', Keeps json seeds op s' books' ∧
      Linearization.Commits serve op replied s s' books books' := by
  have hasked := asked_step h
  obtain ⟨x, hx, hnone, rfl⟩ := step_extrato h
  have hop : op (.inr k) = .statement x.accountId := by
    rw [← hI.asked, asked, hx]
    rfl
  have hpage := hI.page hseeds (hC x hx) x.host now
  have hbooks : (serve books (op (.inr k))).1 = books := by rw [hop, serve]
  refine ⟨(serve books (op (.inr k))).1, ?_, .commit (Sum.inr k) ?_ ?_ ?_⟩
  · rw [hbooks]
    refine ⟨hI.mirrors, hasked.trans hI.asked, hI.logged, hI.startUps, fun y hy response hr => ?_⟩
    rcases List.mem_or_eq_of_mem_set hy with hy | rfl
    · exact hI.replied y hy response hr
    · obtain rfl := Option.some.inj hr
      rw [hpage]
      rfl
  · rw [replied, hx, Option.bind_some, hnone, Option.bind_none]
  · rw [replied]
    dsimp only
    rw [List.getElem?_set_self (List.getElem?_eq_some_iff.mp hx).1, Option.bind_some,
      Option.bind_some, hpage, hop, serve]
    rfl
  · intro q hq
    cases q with
    | inl i => rfl
    | inr j =>
      have hj : k ≠ j := fun hc => hq (congrArg Sum.inr hc.symm)
      rw [replied, replied]
      dsimp only
      rw [List.getElem?_set_ne hj]

/-- A start-up over the seeds leaves the books, and nobody notices. -/
theorem keeps_startUp (hI : Keeps json seeds op s books) {i : Nat}
    (h : step json s (.startUp i) = some s') :
    ∃ books', Keeps json seeds op s' books' ∧
      Linearization.Commits serve op replied s s' books books' := by
  have hasked := asked_step h
  have hstartUps := startUps_step hI.startUps h
  obtain ⟨rows, db, rest, hrows, hstep, rfl⟩ := step_startUp h
  have hmem : rows ∈ s.startUps := List.mem_of_getElem? hrows
  have hdb := (stepStartUp_cases hstep).2
  -- the sets after the step, with the logs they had
  have hlogged : ∀ id ts, Logged json (seeds id) ts (s.posts.redis (getBankStatementKey id)) →
      Logged json (seeds id) ts (db (getBankStatementKey id)) := by
    intro id ts hlog
    rcases hdb with rfl | ⟨row, hrow, t, ht, rfl⟩
    · exact hlog
    · have hseed : seeds t.accountId = some t := by
        rw [accountId_of_seed? ht]
        exact hI.startUps rows hmem row hrow t ht
      by_cases hid : t.accountId = id
      · subst hid
        rw [hseed] at hlog ⊢
        rw [saveInsert_of_eq json s.posts.redis t rfl]
        exact hlog.reseed (hI.mirrors.keyed.recorded t.accountId)
      · rw [saveInsert_of_ne json s.posts.redis t hid]
        exact hlog
  have hkeyed : Keyed json db := by
    rcases hdb with rfl | ⟨row, hrow, t, ht, rfl⟩
    · exact hI.mirrors.keyed
    · exact hI.mirrors.keyed.saveInsert rfl
  refine ⟨books, ⟨⟨hI.mirrors.sound, hkeyed, hI.mirrors.held, hI.mirrors.asked,
    hI.mirrors.replied, fun id => ?_⟩, hasked.trans hI.asked, fun id => ?_, hstartUps, hI.replied⟩,
    .silent fun p => ?_⟩
  · obtain ⟨ts, -, hlog⟩ := hI.logged id
    exact Bank.shows_of_last (hI.mirrors.shows id)
      ((hlogged id ts hlog).last?.trans hlog.last?.symm)
  · obtain ⟨ts, hts, hlog⟩ := hI.logged id
    exact ⟨ts, hts, hlogged id ts hlog⟩
  · cases p <;> rfl

/-- A call that is now known to be accepted has just added its record. -/
theorem adding_of_posted {call : Call} {now : DateTime} {stores stores' : Stores}
    {phase : Phase} (h : Moves json call now stores call.phase stores' phase)
    (hbefore : Bank.decided call = none) {limite saldo : Int}
    (hafter : Bank.decided { call with phase := phase } = some (some (.posted limite saldo))) :
    ∃ account t, call.phase = .adding account t ∧
      stores'.redis = saveInsert json stores.redis t := by
  obtain ⟨host, accountId, request, before⟩ := call
  dsimp only at h ⊢
  cases h with
  | add account t => exact ⟨account, t, rfl, rfl⟩
  | refuse _ | validate _ | execute _ _ => cases hafter
  | notFound outcome hno =>
    rcases outcome with e | body | _ | _
    · cases hafter
    · exact absurd rfl (hno body)
    · cases hafter
    · cases hafter
  | read account _ _ =>
    rw [Bank.decided] at hafter
    dsimp only at hafter
    split at hafter <;> cases hafter
  | exceed account hcan =>
    rw [Bank.decided] at hbefore
    dsimp only at hbefore
    rw [if_pos hcan] at hbefore
    cases hbefore
  | trim account t | publish account t | respond account t => cases hbefore

/-- What a step of the calls is to the bank is an operation on the books, or none; the lines stay,
    but for a call that is now known to be accepted. -/
theorem lift_commits {posts : RequestRun.State} {bank' : Bank.Accounts}
    (hasked : asked s = op) (h : Linearization.Commits Bank.post (fun i => postingOf (op (.inl i)))
      Bank.replied s.posts posts books.accounts bank') :
    ∃ books', books'.accounts = bank' ∧
      Linearization.Commits serve op replied s { s with posts := posts } books books' ∧
      (books'.lines = books.lines ∧ (∀ i limite saldo,
          Bank.replied posts i = some (some (.posted limite saldo)) →
          Bank.replied s.posts i = some (some (.posted limite saldo))) ∨
        ∃ i id request limite saldo, op (.inl i) = .posting id request ∧
          Bank.replied s.posts i = none ∧
          Bank.replied posts i = some (some (.posted limite saldo)) ∧
          books'.lines = Function.update books.lines id (request :: books.lines id)) := by
  cases h with
  | silent hsame =>
    refine ⟨books, rfl, .silent fun p => ?_, Or.inl ⟨rfl, fun i limite saldo hi => ?_⟩⟩
    · cases p with
      | inl i => exact congrArg (Option.map Reply.posting) (hsame i)
      | inr k => rfl
    · rw [← hsame]
      exact hi
  | commit i hbefore hafter hothers =>
    obtain ⟨id, request, hop⟩ : ∃ id request, op (.inl i) = .posting id request := by
      rw [← hasked, asked]
      split
      · exact ⟨_, _, rfl⟩
      · exact ⟨_, _, rfl⟩
    have hserve : (serve books (op (.inl i))).1 = (books.post id request).1 := by rw [hop, serve]
    rw [hop, postingOf] at hafter
    refine ⟨(books.post id request).1, ?_, ?_, ?_⟩
    · rw [post_accounts, hop, postingOf]
    · rw [← hserve]
      refine .commit (Sum.inl i) ?_ ?_ fun q hq => ?_
      · rw [replied, hbefore]
        rfl
      · rw [replied]
        dsimp only
        rw [hafter, hop, serve, post_answer]
        rfl
      · cases q with
        | inl j =>
          have hj : j ≠ i := fun hc => hq (congrArg Sum.inl hc)
          exact congrArg (Option.map Reply.posting) (hothers j hj)
        | inr k => rfl
    · by_cases hposted : ∃ limite saldo,
          (Bank.post books.accounts (id, request.posting)).2 = some (.posted limite saldo)
      · obtain ⟨limite, saldo, hposted⟩ := hposted
        refine Or.inr ⟨i, id, request, limite, saldo, hop, hbefore, ?_, post_lines hposted⟩
        rw [hafter, hposted]
      · refine Or.inl ⟨post_lines_of_refused fun l b hc => hposted ⟨l, b, hc⟩, ?_⟩
        intro j limite saldo hj
        by_cases hji : j = i
        · subst hji
          rw [hafter, Option.some.injEq] at hj
          exact absurd ⟨limite, saldo, hj⟩ hposted
        · rw [← hothers j hji]
          exact hj

/-- The record a call adds, while what it read is current, is one line more in the log of its
    account. -/
theorem logged_of_adding (hI : Keeps json seeds op s books) {call : Call}
    (hmem : call ∈ s.posts.calls) {account : Account} {t : Transaction}
    (hphase : call.phase = .adding account t)
    (hscore : ∀ e ∈ (s.posts.redis (getBankStatementKey t.accountId)).entries,
      SortedSet.score e < t.realizadaEm.score)
    (hread : getAccountByIdAsync json call.accountId s.posts.redis = .ok (some account)) :
    t.accountId = call.accountId ∧ line t = call.request ∧ ∀ ts,
      Logged json (seeds call.accountId) ts (s.posts.redis (getBankStatementKey call.accountId)) →
      Logged json (seeds call.accountId) (t :: ts)
        (saveInsert json s.posts.redis t (getBankStatementKey call.accountId)) := by
  obtain ⟨u, hlast, huid, rfl⟩ := hI.mirrors.keyed.read hread
  have hempty := (Bank.bank_of_read hI.mirrors.keyed (hI.mirrors.shows _) hread).2.1
  have hsound := hI.mirrors.sound call hmem
  rw [hphase] at hsound
  obtain ⟨hvalid, hcan, now, hmade⟩ := hsound
  have hmakes : SequentialRun.Makes u ⟨call.accountId, call.request, now⟩ t :=
    ⟨hvalid, hempty, hcan, hmade⟩
  have hid : t.accountId = call.accountId := hmakes.accountId.trans huid
  refine ⟨hid, congrArg lineOf hmakes.listed, fun ts hlog => ?_⟩
  have hseed : (seeds call.accountId).isSome := by
    -- without a seed nothing would be stored
    by_contra hnone
    have hts : ts = [] := by
      by_contra hne
      exact hnone (hlog.opened hne)
    have htop := hlog.last?
    rw [hts, Option.not_isSome_iff_eq_none.mp hnone, hlast] at htop
    cases htop
  rw [hid] at hscore
  rw [saveInsert_of_eq json s.posts.redis t hid]
  exact hlog.post hseed (hI.mirrors.keyed.recorded _) hmakes.descricao hscore

/-- **A step of a call** leaves the books, or is its posting. -/
theorem keeps_post (hI : Keeps json seeds op s books) {a : RequestRun.Action}
    (hC : Orderly json s (.post a)) (h : step json s (.post a) = some s') :
    ∃ books', Keeps json seeds op s' books' ∧
      Linearization.Commits serve op replied s s' books books' := by
  have hasked := asked_step h
  obtain ⟨posts, hposts, rfl⟩ := step_post h
  obtain ⟨bank', hmirrors, hcommits⟩ := Bank.mirrors_step hI.mirrors hC hposts
  obtain ⟨books', rfl, hcommits', hlines⟩ := lift_commits hI.asked hcommits
  refine ⟨books', ⟨hmirrors, hasked.trans hI.asked, fun id => ?_, hI.startUps, hI.replied⟩,
    hcommits'⟩
  obtain ⟨call, stores, phase, hcall, hmove, rfl⟩ := RequestRun.step_moves hposts
  have hmem : call ∈ s.posts.calls := List.mem_of_getElem? hcall
  obtain ⟨hself, hothers⟩ := Bank.replied_put hcall stores phase
  have hbefore : Bank.replied s.posts a.call = Bank.decided call := by
    rw [Bank.replied, hcall, Option.bind_some]
  obtain ⟨ts, hts, hlog⟩ := hI.logged id
  rcases hlines with ⟨hsame, hnews⟩ | ⟨i, k, request, limite, saldo, hop, hnone, hposted, hlines⟩
  · -- no record is added, for the call that adds one is not known to be accepted before
    rw [hsame]
    refine ⟨ts, hts, ?_⟩
    show Logged json (seeds id) ts (stores.redis (getBankStatementKey id))
    rcases hmove.effect with ⟨account, t, hphase, rfl, -⟩ | ⟨-, hredis | ⟨t, hredis⟩⟩
    · have hnew := hnews a.call t.limite.toInt t.saldo.toInt hself
      rw [hbefore, Bank.decided, hphase] at hnew
      cases hnew
    · rw [hredis]
      exact hlog
    · rw [hredis]
      by_cases hid : t.accountId = id
      · rw [saveTrim_of_eq _ t hid]
        exact hlog.trim
      · rw [saveTrim_of_ne _ t hid]
        exact hlog
  · obtain rfl : i = a.call := by
      by_contra hne
      rw [hothers i hne, hnone] at hposted
      cases hposted
    rw [hbefore] at hnone
    rw [hself] at hposted
    obtain ⟨account, t, hphase, hredis⟩ := adding_of_posted hmove hnone hposted
    rw [← hI.asked, asked, hcall, Request.posting.injEq] at hop
    obtain ⟨rfl, rfl⟩ := hop
    have hadd : LostUpdate.addOf s.posts a = some (call, account, t) := by
      rw [LostUpdate.addOf, hcall, Option.bind_some, hphase]
    obtain ⟨hid, hline, hlogs⟩ := logged_of_adding hI hmem hphase
      (hC.1 (call, account, t) hadd) (hC.2 (call, account, t) hadd)
    rw [hlines]
    show ∃ ts, _ ∧ Logged json (seeds id) ts (stores.redis (getBankStatementKey id))
    rw [hredis]
    by_cases hown : call.accountId = id
    · subst hown
      refine ⟨t :: ts, ?_, hlogs ts hlog⟩
      rw [Function.update_self, List.map_cons, hline, hts]
    · refine ⟨ts, ?_, ?_⟩
      · rw [Function.update_of_ne (Ne.symm hown), hts]
      · rw [saveInsert_of_ne json _ t (by rw [hid]; exact hown)]
        exact hlog

/-- **One step of the service**: the books are kept, and at most one operation takes effect. -/
theorem keeps_step (hseeds : ∀ id, ∀ t ∈ seeds id, line t = opening)
    (hI : Keeps json seeds op s books) {a : Action} (hC : Orderly json s a)
    (h : step json s a = some s') : ∃ books', Keeps json seeds op s' books' ∧
      Linearization.Commits serve op replied s s' books books' := by
  cases a with
  | post a => exact keeps_post hI hC h
  | extrato k now => exact keeps_extrato hseeds hI hC h
  | startUp i => exact keeps_startUp hI h

/-- Who has been answered has a reply. -/
theorem Keeps.replied_of_done (hI : Keeps json seeds op s books) {p : Party} (h : Done s p) :
    (Passbook.replied s p).isSome := by
  cases p with
  | inl i =>
    obtain ⟨c, hc, hret⟩ := h
    rw [Passbook.replied, Bank.replied, hc, Option.bind_some, Option.isSome_map]
    exact hI.mirrors.replied c (List.mem_of_getElem? hc) hret
  | inr k =>
    obtain ⟨x, hx, hne⟩ := h
    obtain ⟨response, hresponse⟩ := Option.ne_none_iff_exists'.mp hne
    rw [Passbook.replied, hx, Option.bind_some, hresponse, Option.bind_some, Option.isSome_map]
    exact hI.replied x (List.mem_of_getElem? hx) response hresponse

/-- Who is still to begin has none. -/
theorem replied_of_waiting {p : Party} (h : Waiting s p) : replied s p = none := by
  cases p with
  | inl i =>
    obtain ⟨c, hc, hphase⟩ := h
    rw [replied, Bank.replied, hc, Option.bind_some, Bank.decided, hphase]
    rfl
  | inr k =>
    obtain ⟨x, hx, hnone⟩ := h
    rw [replied, hx, Option.bind_some, hnone, Option.bind_none]

/-- Nor has anyone before the first step. -/
theorem replied_of_fresh (hfresh : RequestRun.Fresh s.posts)
    (hunanswered : ∀ x ∈ s.extratos, x.response = none) (p : Party) : replied s p = none := by
  cases p with
  | inl i =>
    rw [replied, Bank.replied_of_fresh hfresh]
    rfl
  | inr k =>
    rw [replied]
    rcases hk : s.extratos[k]? with _ | x
    · rfl
    · rw [Option.bind_some, hunanswered x (List.mem_of_getElem? hk), Option.bind_none]

/-- What the rows of the table say of the seeds. -/
theorem opened_by_rows (hrows : ∀ id t, seeds id = some t →
      ∃ row, seed? row = some t ∧ row.accountId = id ∧ (id = 0 → row.limite ≠ 0)) :
    (∀ id t, seeds id = some t → t.accountId = id ∧ (id = 0 → t.limite ≠ 0)) ∧
      ∀ id, ∀ t ∈ seeds id, line t = opening := by
  constructor
  · intro id t ht
    obtain ⟨row, hrow, rfl, hlimite⟩ := hrows id t ht
    obtain ⟨-, realizadaEm, rfl⟩ := eq_of_seed? hrow
    exact ⟨rfl, hlimite⟩
  · intro id t ht
    obtain ⟨row, hrow, -, -⟩ := hrows id t ht
    obtain ⟨-, realizadaEm, rfl⟩ := eq_of_seed? hrow
    rfl

/-- The seeds are the passbooks before any request. -/
theorem keeps_of_seeds (hseeds : ∀ id, (s.posts.redis (getBankStatementKey id)).entries
      = ((seeds id).map (entryOf json)).toList)
    (hids : ∀ id t, seeds id = some t → t.accountId = id ∧ (id = 0 → t.limite ≠ 0))
    (hstartUps : ∀ rows ∈ s.startUps, ∀ row ∈ rows, ∀ t, seed? row = some t →
      seeds row.accountId = some t)
    (hfresh : RequestRun.Fresh s.posts) (hunanswered : ∀ x ∈ s.extratos, x.response = none) :
    Keeps json seeds (asked s) s ⟨Bank.accountsOf seeds, fun _ => []⟩ := by
  have hposting : Bank.asked s.posts = fun i => postingOf (asked s (.inl i)) := by
    funext i
    rw [Bank.asked, asked]
    rcases s.posts.calls[i]? with _ | c <;> rfl
  refine ⟨?_, rfl, fun id => ⟨[], rfl, logged_of_seed (hseeds id)⟩, hstartUps, ?_⟩
  · rw [← hposting]
    exact Bank.mirrors_of_seeds hseeds hids hfresh
  · intro x hx response hresponse
    rw [hunanswered x hx] at hresponse
    cases hresponse

end Steps

/-- **The service is linearizable.**  From a cache that holds the seeds, take any interleaving of
    POST calls, statements and start-ups over the seeds that is orderly: a record is added above
    everything stored for its account and while what its call read is current, and a statement finds
    at most eleven records.  Then one order of the postings and statements explains the run: the
    bank, serving them whole in this order, gives every posting its answer, and every statement its
    limit, its balance and its last ten lines; all that have been answered are in the order; and one
    that was answered before another had begun stands before it. -/
theorem service_linearizes (json : TransactionJson) (seeds : Int32 → Option Transaction)
    (s s' : State)
    (hseeds : ∀ id, (s.posts.redis (getBankStatementKey id)).entries
      = ((seeds id).map (entryOf json)).toList)
    (hrows : ∀ id t, seeds id = some t →
      ∃ row, seed? row = some t ∧ row.accountId = id ∧ (id = 0 → row.limite ≠ 0))
    (hstartUps : ∀ rows ∈ s.startUps, ∀ row ∈ rows, ∀ t, seed? row = some t →
      seeds row.accountId = some t)
    (hfresh : RequestRun.Fresh s.posts) (hunanswered : ∀ x ∈ s.extratos, x.response = none)
    (actions : List Action) (horderly : Transition.AllSteps (step json) (Orderly json) s actions)
    (hrun : Transition.run (step json) s actions = some s') :
    ∃ order : List Party, order.Nodup ∧
      order.map (replied s') = (Linearization.serveAll serve
        ⟨Bank.accountsOf seeds, fun _ => []⟩ (order.map (asked s))).2.map some ∧
      (∀ p, Done s' p → p ∈ order) ∧
      ∀ before after m, actions = before ++ after →
        Transition.run (step json) s before = some m →
        ∀ p q, Done m p → Waiting m q → q ∈ order → [p, q].Sublist order := by
  obtain ⟨hids, hopening⟩ := opened_by_rows hrows
  have hstart := keeps_of_seeds hseeds hids hstartUps hfresh hunanswered
  have hnone := replied_of_fresh hfresh hunanswered
  have hstep : ∀ m a m' books, Keeps json seeds (asked s) m books → Orderly json m a →
      step json m a = some m' → ∃ books', Keeps json seeds (asked s) m' books' ∧
        Linearization.Commits serve (asked s) replied m m' books books' :=
    fun _ _ _ _ hI hC h => keeps_step hopening hI hC h
  obtain ⟨order, hexplains, hend, hbefore⟩ :=
    Linearization.exists_order (step json) hstep hnone hstart horderly hrun
  refine ⟨order, hexplains.nodup, hexplains.answers, fun p hp => ?_, ?_⟩
  · rw [hexplains.mem_iff]
    exact hend.replied_of_done hp
  · intro before after m hsplit hm p q hp hq hqin
    refine hbefore before after m hsplit hm p q ?_ (replied_of_waiting hq)
      ((hexplains.mem_iff q).mp hqin)
    -- the state in between keeps the books too
    obtain ⟨_, -, hmid, -⟩ := Linearization.exists_order (step json) hstep hnone hstart
      (Transition.AllSteps.of_append (step json) (hsplit ▸ horderly)) hm
    exact hmid.replied_of_done hp

/-- Account 1, with a credit of 10, a debit of 5, two statements, and an instance to start again. -/
def morning : State :=
  ⟨⟨seededCache, [], fun _ => 0, [⟨0, 1, TransactionService.creditOfTen, .received⟩,
      ⟨1, 1, ⟨5, 'd', some ['y']⟩, .received⟩]⟩, [⟨0, 1, none⟩, ⟨1, 1, none⟩], [[seedRow]]⟩

/-- The credit is added and not trimmed yet when the first statement is taken; the other instance
    starts again; the debit begins after that. -/
def opened : List Action :=
  List.replicate 4 (.post ⟨0, .ofTicks 5 .localTime⟩) ++ [.extrato 0 (.ofTicks 6 .localTime),
      .startUp 0] ++ List.replicate 4 (.post ⟨1, .ofTicks 7 .localTime⟩)
    ++ [.extrato 1 (.ofTicks 8 .localTime)]

/-- The seed of account 1 is that of its row. -/
theorem oneSeed_rows (id : Int32) (t : Transaction) (h : Bank.oneSeed id = some t) :
    ∃ row, seed? row = some t ∧ row.accountId = id ∧ (id = 0 → row.limite ≠ 0) := by
  rw [Bank.oneSeed] at h
  split at h
  · next hid =>
    cases h
    exact ⟨seedRow, rfl, hid.symm, fun _ => by decide⟩
  · cases h

/-- And the instance starts over that row. -/
theorem morning_startUps : ∀ rows ∈ morning.startUps, ∀ row ∈ rows, ∀ t, seed? row = some t →
    Bank.oneSeed row.accountId = some t := by
  intro rows hmem row hrow t ht
  rw [List.mem_singleton.mp hmem] at hrow
  rw [List.mem_singleton.mp hrow] at ht ⊢
  exact ht

theorem service_linearizes_morning : ∃ (s' : State) (order : List Party),
    Transition.run (step systemTextJson) morning opened = some s' ∧
      (∀ k < 2, Sum.inr k ∈ order) ∧
      order.map (replied s') = (Linearization.serveAll serve
        ⟨Bank.accountsOf Bank.oneSeed, fun _ => []⟩ (order.map (asked morning))).2.map some := by
  have hdone : (Transition.run (step systemTextJson) morning opened).any (fun s' =>
      s'.extratos.length = 2 ∧ ∀ x ∈ s'.extratos, x.response.isSome = true) = true := by
    decide +kernel
  obtain ⟨s', hrun, hall⟩ := (Option.any_eq_true _ _).mp hdone
  obtain ⟨hlength, hanswered⟩ := of_decide_eq_true hall
  obtain ⟨order, -, hanswers, hin, -⟩ := service_linearizes systemTextJson Bank.oneSeed morning s'
    Bank.oneSeed_entries oneSeed_rows morning_startUps
    (fun c hc => by rcases List.mem_pair.mp hc with rfl | rfl <;> rfl)
    (fun x hx => by rcases List.mem_pair.mp hx with rfl | rfl <;> rfl) opened
    (by decide +kernel) hrun
  refine ⟨s', order, hrun, fun k hk => hin (.inr k) ?_, hanswers⟩
  have hlt : k < s'.extratos.length := by omega
  refine ⟨_, List.getElem?_eq_getElem hlt, fun hc => ?_⟩
  have hsome := hanswered _ (List.getElem_mem hlt)
  rw [hc] at hsome
  cases hsome

end Passbook

end Rinha
