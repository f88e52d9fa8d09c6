/-
  POST requests executed one after another, on any accounts: what the set of ONE account goes
  through.

  A run leaves a log, each request with its outcome; the successes on account `k` (`accepted`) are
  the only entries that touch the set of `k`, because every record stands under the key of its own
  account (`Keyed`).  `servePost_cases` says it of one request.

  With scores that only increase, the set is the window of the ten last records
  (`serveAll_window`), and the records are a chain: each is `Execute` on the account its
  predecessor is read as (`Posted`).  Whatever is asked of such a run then is a fact about chains.
-/
import RinhaBackend.Endpoints

namespace Rinha

namespace SequentialRun

open CachedRepository Endpoints

/-- A POST: the account, the body, and the clock reading it sees if it executes. -/
structure Post where
  id : Int32
  request : TransactionRequest
  now : DateTime

/-- A request with its outcome. -/
structure Served where
  post : Post
  outcome : Except Fault (HttpResult TransactionResponse)

section Runs

variable (json : TransactionJson)

/-- One request. -/
def servePost (s : Stores) (p : Post) : Stores × Except Fault (HttpResult TransactionResponse) :=
  makeTransactionAsync json none p.id p.request p.now s

/-- Requests one after another: the stores at the end, and the log. -/
def serveAll : Stores → List Post → Stores × List Served
  | s, [] => (s, [])
  | s, p :: ps =>
    ((serveAll (servePost json s p).1 ps).1,
      ⟨p, (servePost json s p).2⟩ :: (serveAll (servePost json s p).1 ps).2)

/-- The first request, and the rest from where it leaves the stores. -/
theorem serveAll_cons (s : Stores) (p : Post) (ps : List Post) : serveAll json s (p :: ps)
    = ((serveAll json (servePost json s p).1 ps).1,
      ⟨p, (servePost json s p).2⟩ :: (serveAll json (servePost json s p).1 ps).2) := rfl

/-- `P` holds of every request of the run and the stores it finds. -/
def EachRequest (P : Stores → Post → Prop) (s : Stores) (posts : List Post) : Prop :=
  ∀ n p, posts[n]? = some p → P (serveAll json s (posts.take n)).1 p

/-- What holds of every request holds of the first and along the rest. -/
theorem eachRequest_cons (P : Stores → Post → Prop) (s : Stores) (p : Post) (posts : List Post) :
    EachRequest json P s (p :: posts) ↔
      P s p ∧ EachRequest json P (servePost json s p).1 posts := by
  constructor
  · intro h
    exact ⟨h 0 p rfl, fun n q hq => h (n + 1) q hq⟩
  · rintro ⟨hp, hrest⟩ n q hq
    cases n with
    | zero =>
      cases hq
      exact hp
    | succ n => exact hrest n q hq

end Runs

/-- A 200. -/
def isSuccess : Except Fault (HttpResult TransactionResponse) → Bool
  | .ok (.ok _) => true
  | _ => false

theorem isSuccess_of_refused {outcome : Except Fault (HttpResult TransactionResponse)}
    (h : ∀ body, outcome ≠ .ok (.ok body)) : isSuccess outcome = false := by
  rcases outcome with e | body | _ | _
  · rfl
  · exact absurd rfl (h body)
  · rfl
  · rfl

/-- A success answered to a request on account `k`. -/
def Served.isAccepted (k : Int32) (x : Served) : Bool := x.post.id = k ∧ isSuccess x.outcome

theorem isAccepted_of_ok {k : Int32} {p : Post} (hid : p.id = k)
    {outcome : Except Fault (HttpResult TransactionResponse)} {body : TransactionResponse}
    (h : outcome = .ok (.ok body)) : Served.isAccepted k ⟨p, outcome⟩ = true := by
  rw [h, Served.isAccepted]
  exact decide_eq_true (show p.id = k ∧ isSuccess _ = true from ⟨hid, rfl⟩)

/-- What a statement should list of a success. -/
def Served.listed (x : Served) : BankStatementTransaction :=
  ⟨x.post.request.valor, x.post.request.tipo, x.post.request.descricao, x.post.now⟩

/-- The successes on account `k`, in order. -/
def accepted (k : Int32) (log : List Served) : List Served := log.filter (Served.isAccepted k)

/-- The scores of the seed and of the successes on account `k` strictly increase. -/
def Increasing (k : Int32) (seed : Transaction) (log : List Served) : Prop :=
  (seed.realizadaEm.score :: (accepted k log).map fun x => x.post.now.score).Pairwise (· < ·)

/-! ## One request -/

/-- `t` is the record a request makes of the account read from the record `u`. -/
structure Makes (u : Transaction) (p : Post) (t : Transaction) : Prop where
  valid : p.request.isInvalid = false
  nonempty : u.account.isEmpty = false
  can : u.account.canExecute p.request = true
  made : t = (u.account.execute p.request p.now).2

namespace Makes

variable {u t : Transaction} {p : Post}

theorem accountId (h : Makes u p t) : t.accountId = u.accountId := by
  rw [h.made, Account.execute_accountId]
  rfl

theorem limite (h : Makes u p t) : t.limite = u.limite := by
  rw [h.made, Account.execute_limite]
  rfl

theorem realizadaEm (h : Makes u p t) : t.realizadaEm = p.now := by
  rw [h.made, Account.execute_realizadaEm]

theorem listed (h : Makes u p t) :
    t.listed = ⟨p.request.valor, p.request.tipo, p.request.descricao, p.now⟩ := by
  rw [h.made, Account.execute_listed]

/-- A record made of a request has a description. -/
theorem descricao (h : Makes u p t) : ¬ (t.descricao = none ∨ t.descricao = some []) := by
  obtain ⟨-, ⟨d, hd, hpos, -⟩, -⟩ := (p.request.valid_iff).mp h.valid
  have hdesc : t.descricao = some d := by
    rw [h.made]
    exact hd
  rw [hdesc]
  rintro (hnone | hnil)
  · cases hnone
  · cases hnil
    exact absurd hpos (by decide)

end Makes

section Steps

variable {json : TransactionJson}

/-- What passes the checks on account `k` is answered with a success. -/
theorem isAccepted_of_accepted {s : Stores} {k : Int32} {p : Post} {account : Account}
    (hid : p.id = k) (h : TransactionService.Accepted json s k p.request account) :
    Served.isAccepted k ⟨p, (servePost json s p).2⟩ = true := by
  subst hid
  exact isAccepted_of_ok rfl (congrArg Prod.snd (makeTransactionAsync_of_accepted p.now h))

/-- **What one request does to the set of account `k`.**  A success on `k` stores the record made
    of the top one, and answers with it; everything else leaves the set as it is. -/
theorem servePost_cases {s : Stores} (h : Keyed json s.redis) (k : Int32) (p : Post) :
    Keyed json (servePost json s p).1.redis ∧
      (Served.isAccepted k ⟨p, (servePost json s p).2⟩ = false ∧
          (servePost json s p).1.redis (getBankStatementKey k) = s.redis (getBankStatementKey k) ∨
        p.id = k ∧ ∃ u t, (s.redis (getBankStatementKey k)).last? = some (entryOf json u) ∧
          u.accountId = k ∧ Makes u p t ∧
          (servePost json s p).2 = .ok (.ok ⟨t.limite.toInt64, t.saldo.toInt64⟩) ∧
          (servePost json s p).1.redis (getBankStatementKey k)
            = ((s.redis (getBankStatementKey k)).add t.realizadaEm.score
                (json.serialize t)).keepTop 10) := by
  rcases makeTransactionAsync_cases p.now json p.id p.request s with
    ⟨account, haccepted, hmake⟩ | ⟨hsame, hrefused⟩
  · obtain ⟨u, hlast, huid, rfl⟩ := h.read haccepted.read
    rw [servePost, hmake]
    generalize ht : (u.account.execute p.request p.now).2 = t
    have hmakes : Makes u p t := ⟨haccepted.valid, haccepted.nonempty, haccepted.can, ht.symm⟩
    have hid : t.accountId = p.id := hmakes.accountId.trans huid
    refine ⟨(h.saveInsert rfl).saveTrim t, ?_⟩
    by_cases hk : p.id = k
    · subst hk
      refine Or.inr ⟨rfl, u, t, hlast, huid, hmakes, ?_, ?_⟩
      · rw [hmakes.limite]
        rfl
      · exact save_of_eq json s.redis t hid
    · refine Or.inl ⟨?_, ?_⟩
      · rw [Served.isAccepted]
        exact decide_eq_false fun hc => hk hc.1
      · exact save_of_ne json s.redis t (by rw [hid]; exact hk)
  · have hno : Served.isAccepted k ⟨p, (servePost json s p).2⟩ = false := by
      rw [Served.isAccepted, servePost, isSuccess_of_refused hrefused]
      exact decide_eq_false fun hc => Bool.noConfusion hc.2
    rw [servePost] at hno ⊢
    rw [hsame]
    exact ⟨h, Or.inl ⟨hno, rfl⟩⟩

theorem serveAll_keyed {s : Stores} (h : Keyed json s.redis) (posts : List Post) :
    Keyed json (serveAll json s posts).1.redis := by
  induction posts generalizing s with
  | nil => exact h
  | cons p posts ih => exact ih (servePost_cases h p.id p).1

/-- An account without a record gets none. -/
theorem serveAll_of_noRecord {k : Int32} (posts : List Post) : ∀ {s : Stores}, Keyed json s.redis →
    (s.redis (getBankStatementKey k)).entries = [] →
    ((serveAll json s posts).1.redis (getBankStatementKey k)).entries = [] := by
  induction posts with
  | nil => exact fun _ h => h
  | cons p posts ih =>
    intro s hkeyed h
    obtain ⟨hkeyed', ⟨-, hset⟩ | ⟨-, u, -, hlast, -⟩⟩ := servePost_cases hkeyed k p
    · exact ih hkeyed' (by rw [hset, h])
    · have hmem := SortedSet.mem_of_last? hlast
      rw [h] at hmem
      cases hmem

/-- The log of a request and what comes after it. -/
theorem accepted_cons (k : Int32) (x : Served) (log : List Served) :
    accepted k (x :: log) = if x.isAccepted k then x :: accepted k log else accepted k log := by
  rw [accepted, List.filter_cons, ← accepted]

end Steps

/-! ## The chain of records -/

/-- The records a log of successes leaves, each made of the account its predecessor is read as,
    and each answered with its limit and balance. -/
inductive Posted : Transaction → List Served → List Transaction → Prop where
  | nil (u : Transaction) : Posted u [] []
  | cons {u t : Transaction} {p : Post} {log : List Served} {ts : List Transaction}
      (hmakes : Makes u p t) (hrest : Posted t log ts) :
      Posted u (⟨p, .ok (.ok ⟨t.limite.toInt64, t.saldo.toInt64⟩)⟩ :: log) (t :: ts)

namespace Posted

variable {u : Transaction} {log : List Served} {ts : List Transaction}

/-- One record a success, listed as the request and the clock gave it. -/
theorem map_listed (h : Posted u log ts) : ts.map Transaction.listed = log.map Served.listed := by
  induction h with
  | nil u => rfl
  | cons hmakes hrest ih =>
    rw [List.map_cons, List.map_cons, ih, hmakes.listed]
    rfl

theorem length_eq (h : Posted u log ts) : ts.length = log.length := by
  have hlen := congrArg List.length h.map_listed
  rwa [List.length_map, List.length_map] at hlen

/-- No record of a chain is skipped in a statement for want of a description. -/
theorem descricao (h : Posted u log ts) :
    ∀ t ∈ ts, ¬ (t.descricao = none ∨ t.descricao = some []) := by
  induction h with
  | nil u => exact nofun
  | cons hmakes hrest ih =>
    intro t ht
    rcases List.mem_cons.mp ht with rfl | ht
    · exact hmakes.descricao
    · exact ih t ht

end Posted

/-! ## The window of an account -/

section Windows

variable (json : TransactionJson) (k : Int32)

/-- The set of account `k` holds the last ten of the seed and the records `ts`, oldest first. -/
def Window (seed : Transaction) (ts : List Transaction) (db : Redis) : Prop :=
  (db (getBankStatementKey k)).entries = ((seed :: ts).map (entryOf json)).drop (ts.length - 9)

variable {json k} {seed : Transaction} {ts : List Transaction} {db : Redis}

/-- A seed alone is the window of no record. -/
theorem window_nil (h : (db (getBankStatementKey k)).entries = [entryOf json seed]) :
    Window json k seed [] db := h

/-- The account is read from the last record. -/
theorem Window.last? (h : Window json k seed ts db) :
    (db (getBankStatementKey k)).last? = some (entryOf json (ts.getLastD seed)) := by
  have hlong : ¬ ((seed :: ts).map (entryOf json)).length ≤ ts.length - 9 := by
    rw [List.length_map, List.length_cons]
    omega
  rw [SortedSet.last?, h, List.getLast?_drop, if_neg hlong, List.getLast?_map, List.getLast?_cons,
    Option.map_some, List.getLastD_eq_getLast?]

/-- Nothing stored is scored above the last record. -/
theorem Window.score_le (h : Window json k seed ts db) {e : Nat ×ₗ Text}
    (he : e ∈ (db (getBankStatementKey k)).entries) :
    SortedSet.score e ≤ (ts.getLastD seed).realizadaEm.score := by
  by_contra hlt
  have habove : entryOf json (ts.getLastD seed) < e := SortedSet.lt_of_score_lt (not_le.mp hlt)
  exact absurd (SortedSet.le_of_last? h.last? he) (not_le.mpr habove)

/-- A record scored above the seed and every earlier record slides the window on. -/
theorem Window.add (h : Window json k seed ts db) {t : Transaction}
    (hlt : ∀ r ∈ seed :: ts, r.realizadaEm.score < t.realizadaEm.score) {db' : Redis}
    (hset : db' (getBankStatementKey k) = ((db (getBankStatementKey k)).add t.realizadaEm.score
      (json.serialize t)).keepTop 10) : Window json k seed (ts ++ [t]) db' := by
  have hmem : ∀ e ∈ (db (getBankStatementKey k)).entries, ∃ r ∈ seed :: ts, e = entryOf json r := by
    intro e he
    rw [h] at he
    obtain ⟨r, hr, rfl⟩ := List.mem_map.mp (List.mem_of_mem_drop he)
    exact ⟨r, hr, rfl⟩
  have hrecorded : Recorded json (db (getBankStatementKey k)) := by
    intro e he
    obtain ⟨r, -, rfl⟩ := hmem e he
    exact ⟨r, rfl⟩
  have hadd := hrecorded.entries_add_of_forall_lt (t := t) fun e he => by
    obtain ⟨r, hr, rfl⟩ := hmem e he
    exact hlt r hr
  have hlength : (seed :: ts).length = ts.length + 1 := rfl
  rw [Window, hset, SortedSet.entries_keepTop, hadd, h, ← List.cons_append, List.map_append,
    List.map_singleton, ← List.drop_append_of_le_length (by rw [List.length_map]; omega),
    List.drop_drop, List.length_drop, List.length_append, List.length_append, List.length_map,
    List.length_singleton, List.length_singleton, hlength]
  congr 1
  omega

variable (k) in
/-- The scores of the seed, of the records `ts` and of the successes still to come strictly
    increase. -/
def InOrder (seed : Transaction) (ts : List Transaction) (log : List Served) : Prop :=
  ((seed :: ts).map (fun t => t.realizadaEm.score)
    ++ (accepted k log).map fun x => x.post.now.score).Pairwise (· < ·)

theorem inOrder_nil {log : List Served} (h : Increasing k seed log) : InOrder k seed [] log := h

/-- **One request slides the window**, or leaves it: a success on `k` makes a record of the last
    one and puts it at the end. -/
theorem window_step {s : Stores} {p : Post} {posts : List Post} (hkeyed : Keyed json s.redis)
    (hwindow : Window json k seed ts s.redis)
    (hinc : InOrder k seed ts (serveAll json s (p :: posts)).2) :
    Keyed json (servePost json s p).1.redis ∧
      (Served.isAccepted k ⟨p, (servePost json s p).2⟩ = false ∧
          Window json k seed ts (servePost json s p).1.redis ∧
          InOrder k seed ts (serveAll json (servePost json s p).1 posts).2 ∨
        p.id = k ∧ ∃ t, Makes (ts.getLastD seed) p t ∧
          (servePost json s p).2 = .ok (.ok ⟨t.limite.toInt64, t.saldo.toInt64⟩) ∧
          (ts.getLastD seed).realizadaEm.score < p.now.score ∧
          Window json k seed (ts ++ [t]) (servePost json s p).1.redis ∧
          InOrder k seed (ts ++ [t]) (serveAll json (servePost json s p).1 posts).2) := by
  rw [InOrder, serveAll_cons] at hinc
  dsimp only at hinc
  obtain ⟨hkeyed', ⟨hno, hset⟩ | ⟨hid, u, t, hlast, huid, hmakes, hout, hset⟩⟩ :=
    servePost_cases hkeyed k p
  · rw [accepted_cons, if_neg (by rw [hno]; decide)] at hinc
    refine ⟨hkeyed', Or.inl ⟨hno, ?_, hinc⟩⟩
    rw [Window, hset]
    exact hwindow
  · rw [accepted_cons, if_pos (isAccepted_of_ok hid hout)] at hinc
    obtain rfl : u = ts.getLastD seed := by
      rw [hwindow.last?] at hlast
      exact (entryOf_injective json (Option.some.inj hlast)).symm
    have hscore : p.now.score = t.realizadaEm.score := by rw [hmakes.realizadaEm]
    -- the new record ranks above the seed and the records so far
    have hlt : ∀ r ∈ seed :: ts, r.realizadaEm.score < t.realizadaEm.score := by
      intro r hr
      rw [← hscore]
      exact (List.pairwise_append.mp hinc).2.2 _ (List.mem_map_of_mem hr) _ List.mem_cons_self
    have hlast := hlt _ List.getLastD_mem_cons
    rw [← hscore] at hlast
    refine ⟨hkeyed', Or.inr ⟨hid, t, hmakes, hout, hlast, hwindow.add hlt hset, ?_⟩⟩
    rw [InOrder, ← List.cons_append, List.map_append, List.map_singleton, List.append_assoc,
      List.singleton_append, ← hscore]
    exact hinc

/-- **Sequential runs slide the window.**  The set of account `k` is the window of the seed and of
    a chain of records, one for each success on `k`. -/
theorem serveAll_window (posts : List Post) : ∀ {s : Stores} {ts : List Transaction},
    Keyed json s.redis → Window json k seed ts s.redis →
    InOrder k seed ts (serveAll json s posts).2 →
    ∃ us, Window json k seed (ts ++ us) (serveAll json s posts).1.redis ∧
      Posted (ts.getLastD seed) (accepted k (serveAll json s posts).2) us := by
  induction posts with
  | nil =>
    intro s ts _ hwindow _
    exact ⟨[], by rwa [List.append_nil], .nil _⟩
  | cons p posts ih =>
    intro s ts hkeyed hwindow hinc
    obtain ⟨hkeyed', ⟨hno, hwindow', hinc'⟩ | ⟨hid, t, hmakes, hout, -, hwindow', hinc'⟩⟩ :=
      window_step hkeyed hwindow hinc
    · rw [serveAll_cons, accepted_cons, if_neg (by rw [hno]; decide)]
      exact ih hkeyed' hwindow' hinc'
    · obtain ⟨us, hend, hposted⟩ := ih hkeyed' hwindow' hinc'
      rw [List.getLastD_concat] at hposted
      rw [serveAll_cons, accepted_cons, if_pos (isAccepted_of_ok hid hout)]
      refine ⟨t :: us, by rwa [List.append_assoc, List.singleton_append] at hend, ?_⟩
      rw [hout]
      exact .cons hmakes hposted

end Windows

/-! ## Seeded caches -/

/-- `seed` is a record the start-up service stores for account `id`. -/
structure SeedOf (id : Int32) (seed : Transaction) : Prop where
  valor : seed.valor = 0
  tipo : seed.tipo = Transaction.credit
  descricao : seed.descricao = some []
  accountId : seed.accountId = id

/-- The cache as the start-up service leaves it: each account has its seed, or no record. -/
def SeededCache (json : TransactionJson) (db : Redis) : Prop :=
  ∀ id, (db (getBankStatementKey id)).entries = [] ∨
    ∃ seed, SeedOf id seed ∧ (db (getBankStatementKey id)).entries = [entryOf json seed]

section Seeds

variable {json : TransactionJson} {k : Int32} {seed : Transaction} {db : Redis}

/-- What seeds have, the records of a seeded cache have. -/
theorem SeededCache.records {R : Int32 → Transaction → Prop} (h : SeededCache json db)
    (hR : ∀ id seed, SeedOf id seed → R id seed) : Records json R db := by
  intro id e he
  rcases h id with hnone | ⟨seed, hseed, hone⟩
  · rw [hnone] at he
    cases he
  · rw [hone, List.mem_singleton] at he
    exact ⟨seed, he, hR id seed hseed⟩

theorem SeededCache.keyed (h : SeededCache json db) : Keyed json db :=
  h.records fun _ _ hseed => hseed.accountId

/-- The one record of a seeded account is its seed. -/
theorem SeededCache.seedOf (h : SeededCache json db)
    (hseed : (db (getBankStatementKey k)).entries = [entryOf json seed]) : SeedOf k seed := by
  rcases h k with hnone | ⟨seed', hseed', hone⟩
  · rw [hseed] at hnone
    cases hnone
  · rw [hseed, List.cons.injEq] at hone
    obtain rfl := entryOf_injective json hone.1
    exact hseed'

/-- A run from a seeded account. -/
theorem serveAll_of_seeded {s : Stores} (h : SeededCache json s.redis)
    (hseed : (s.redis (getBankStatementKey k)).entries = [entryOf json seed]) (posts : List Post)
    (hinc : Increasing k seed (serveAll json s posts).2) :
    ∃ ts, Window json k seed ts (serveAll json s posts).1.redis ∧
      Posted seed (accepted k (serveAll json s posts).2) ts := by
  have hrun := serveAll_window posts h.keyed (window_nil hseed) (inOrder_nil hinc)
  exact hrun

end Seeds

open InitializeRedis in
/-- A table a start-up can seed a cache from: at most one seed row for each account, each with its
    time. -/
structure SeedTable (rows : List Row) : Prop where
  one : ∀ k, (seedRows rows k).length ≤ 1
  dated : ∀ row ∈ rows, row.descricao = none → row.realizadaEm ≠ none

namespace SeedTable

open InitializeRedis

variable {rows : List Row} (h : SeedTable rows) (k : Int32)

include h

/-- An account has no seed row, or one with its record. -/
theorem seedRows_cases : seedRows rows k = [] ∨
    ∃ row seed, seedRows rows k = [row] ∧ seed? row = some seed ∧ SeedOf k seed := by
  rcases hrows : seedRows rows k with _ | ⟨row, rest⟩
  · exact Or.inl rfl
  · have hrest : rest = [] := by
      have hone := h.one k
      rw [hrows, List.length_cons] at hone
      exact List.eq_nil_of_length_eq_zero (by omega)
    subst hrest
    have hmem : row ∈ seedRows rows k := by
      rw [hrows]
      exact List.mem_singleton_self row
    obtain ⟨hin, hprops⟩ := List.mem_filter.mp hmem
    obtain ⟨hid, hdesc⟩ := of_decide_eq_true hprops
    obtain ⟨realizadaEm, ht⟩ := Option.ne_none_iff_exists'.mp (h.dated row hin hdesc)
    refine Or.inr ⟨row, seedTransaction row realizadaEm, rfl, ?_, rfl, rfl, rfl, hid⟩
    rw [seed?, if_pos hdesc, ht, Option.map_some]

/-- What a start-up does to the set of an account: it adds the seed, if there is one. -/
theorem executeAsync_set (json : TransactionJson) (db : Redis) :
    (seedRows rows k = [] ∧
        (executeAsync json rows db).1 (getBankStatementKey k) = db (getBankStatementKey k)) ∨
      ∃ row seed, seedRows rows k = [row] ∧ seed? row = some seed ∧ SeedOf k seed ∧
        (executeAsync json rows db).1 (getBankStatementKey k)
          = (db (getBankStatementKey k)).add seed.realizadaEm.score (json.serialize seed) := by
  have hset := executeAsync_same json h.dated db k
  rcases h.seedRows_cases k with hnone | ⟨row, seed, hone, hseed, hof⟩
  · rw [hnone] at hset
    exact Or.inl ⟨hnone, hset⟩
  · rw [hone, List.filterMap_cons_some hseed] at hset
    exact Or.inr ⟨row, seed, hone, hseed, hof, hset⟩

/-- From an empty Redis, the one record of an account is its seed. -/
theorem entries_of_seedRows (json : TransactionJson) {row : Row} {seed : Transaction}
    (hone : seedRows rows k = [row]) (hrow : seed? row = some seed) :
    ((executeAsync json rows Redis.empty).1 (getBankStatementKey k)).entries
      = [entryOf json seed] := by
  rw [executeAsync_same json h.dated, hone, List.filterMap_cons_some hrow]
  rfl

/-- **A start-up over an empty Redis leaves a seeded cache.** -/
theorem seededCache (json : TransactionJson) :
    SeededCache json (executeAsync json rows Redis.empty).1 := by
  intro id
  rcases h.executeAsync_set id json Redis.empty with ⟨-, hset⟩ | ⟨row, seed, hone, hrow, hof, -⟩
  · rw [hset]
    exact Or.inl rfl
  · exact Or.inr ⟨seed, hof, h.entries_of_seedRows id json hone hrow⟩

end SeedTable

/-- Credits of 10 on account 1, one tick after the other. -/
def credits (n : Nat) : List Post :=
  (List.range n).map fun i => ⟨1, TransactionService.creditOfTen, .ofTicks (i + 1) .localTime⟩

/-- The table with the row of account 1. -/
theorem seedTable_seedRow : SeedTable [InitializeRedis.seedRow] where
  one _ := List.length_filter_le _ _
  dated := by decide

end SequentialRun

end Rinha
