/-
  The statement from the cache against the statement from the table.

  The backend has two implementations of one query: `CachedRepository` reads the sorted set of an
  account, `Repository` the rows a batch has inserted.  After requests served one after another,
  with everything that was published inserted in any order, both read the same chain of records
  (`serveAll_published`), and the two statements have the same balance.  They differ in what they
  list: the cache lists the seed while it stands under one to nine records, the table never; and the
  cache takes an account with no limit and no balance for an absent one (`statements_agree`).
-/
import RinhaBackend.BatchInsert
import RinhaBackend.LastTransactions
import RinhaBackend.Repository

namespace Rinha

namespace CacheAndTable

open CachedRepository SequentialRun
open SaveInBackground (batchRow)

/-! ## The rows of a batch -/

/-- The row of a transaction that a batch has inserted. -/
def tableRow (t : Transaction) : Row :=
  ⟨t.accountId, t.descricao.map (List.take 10), t.tipo, t.valor, t.saldo, t.limite,
    Table.timestamp t.realizadaEm⟩

theorem batchRow_eq_some {t : Transaction} {row : Row} (h : batchRow t = some row) :
    row = tableRow t ∧ row.realizadaEm ≠ none := by
  rw [batchRow, SaveInBackground.batchCommand] at h
  rcases htime : Table.timestamp t.realizadaEm with _ | realizadaEm
  · rw [htime] at h
    cases h
  rcases hdesc : t.descricao with _ | d
  · rw [htime, hdesc] at h
    cases h
  · -- every `int` goes in, so what has gone in is the description and the type
    simp only [htime, hdesc, Table.insertRow, Table.integer_toInt, Table.char_singleton,
      Option.bind_eq_bind, Option.bind_some, Option.bind_eq_some_iff, Option.pure_def,
      Option.some.injEq] at h
    obtain ⟨d', hd', tipo, htipo, rfl⟩ := h
    obtain ⟨rfl, -⟩ := Table.of_varchar hd'
    split at htipo
    · cases htipo
    · cases htipo
      refine ⟨?_, Option.some_ne_none _⟩
      rw [tableRow, htime, hdesc, Option.map_some]

/-- The rows of the transactions inserted. -/
theorem mapM_batchRow_eq_some {ts : List Transaction} : ∀ {added : List Row},
    ts.mapM batchRow = some added →
      added = ts.map tableRow ∧ ∀ t ∈ ts, Table.timestamp t.realizadaEm ≠ none := by
  induction ts with
  | nil =>
    intro added h
    cases h
    exact ⟨rfl, fun t ht => by cases ht⟩
  | cons t ts ih =>
    intro added h
    simp only [List.mapM_cons, Option.bind_eq_bind, Option.bind_eq_some_iff, Option.pure_def,
      Option.some.injEq] at h
    obtain ⟨row, hrow, rest, hrest, rfl⟩ := h
    obtain ⟨rfl, hdated⟩ := batchRow_eq_some hrow
    obtain ⟨rfl, hall⟩ := ih hrest
    exact ⟨rfl, List.forall_mem_cons.mpr ⟨hdated, hall⟩⟩

/-! ## What a sequential run publishes -/

section Publishing

variable {json : TransactionJson} {k : Int32} {seed : Transaction} {ts : List Transaction}

/-- The records of account `k` on the bus. -/
def onBus (k : Int32) (s : Stores) : List Transaction := s.bus.filter fun t => t.accountId = k

/-- What one request publishes about account `k`. -/
theorem servePost_onBus {s : Stores} (hkeyed : Keyed json s.redis)
    (hwindow : Window json k seed ts s.redis) (p : Post) :
    (Served.isAccepted k ⟨p, (servePost json s p).2⟩ = false →
        onBus k (servePost json s p).1 = onBus k s) ∧
      ∀ t, p.id = k → Makes (ts.getLastD seed) p t →
        onBus k (servePost json s p).1 = onBus k s ++ [t] := by
  constructor
  · intro hno
    rcases Endpoints.makeTransactionAsync_cases p.now json p.id p.request s with
      ⟨account, haccepted, hmake⟩ | ⟨hsame, -⟩
    · -- accepted, so on another account
      obtain ⟨u, -, huid, rfl⟩ := hkeyed.read haccepted.read
      have hid : ¬ (u.account.execute p.request p.now).2.accountId = k := by
        rw [Account.execute_accountId, show u.account.id = p.id from huid]
        intro hk
        rw [isAccepted_of_ok hk (by rw [servePost, hmake])] at hno
        cases hno
      rw [onBus, servePost, hmake, List.filter_append, List.filter_singleton, decide_eq_false hid]
      exact List.append_nil _
    · rw [onBus, servePost, hsame]
      rfl
  · rintro t rfl hmakes
    have hread := getAccountByIdAsync_of_last hwindow.last?
    have haccepted : TransactionService.Accepted json s p.id p.request (ts.getLastD seed).account :=
      ⟨hmakes.valid, hread, hmakes.nonempty, hmakes.can⟩
    obtain ⟨u, hu, huid⟩ := hkeyed p.id _ (SortedSet.mem_of_last? hwindow.last?)
    obtain rfl := entryOf_injective json hu
    have hid : t.accountId = p.id := hmakes.accountId.trans huid
    rw [onBus, servePost, Endpoints.makeTransactionAsync_of_accepted p.now haccepted, ← hmakes.made,
      List.filter_append, List.filter_singleton, decide_eq_true hid]
    rfl

/-- **Sequential runs publish the chain they store.** -/
theorem serveAll_published (posts : List Post) : ∀ {s : Stores} {ts : List Transaction},
    Keyed json s.redis → Window json k seed ts s.redis →
    InOrder k seed ts (serveAll json s posts).2 →
    ∃ us, Window json k seed (ts ++ us) (serveAll json s posts).1.redis ∧
      Posted (ts.getLastD seed) (accepted k (serveAll json s posts).2) us ∧
      onBus k (serveAll json s posts).1 = onBus k s ++ us := by
  induction posts with
  | nil =>
    intro s ts _ hwindow _
    exact ⟨[], by rwa [List.append_nil], .nil _, (List.append_nil _).symm⟩
  | cons p posts ih =>
    intro s ts hkeyed hwindow hinc
    obtain ⟨hbus, hbus'⟩ := servePost_onBus hkeyed hwindow p
    obtain ⟨hkeyed', ⟨hno, hwindow', hinc'⟩ | ⟨hid, t, hmakes, hout, -, hwindow', hinc'⟩⟩ :=
      window_step hkeyed hwindow hinc
    · rw [serveAll_cons, accepted_cons, if_neg (by rw [hno]; decide), ← hbus hno]
      exact ih hkeyed' hwindow' hinc'
    · obtain ⟨us, hend, hposted, hpublished⟩ := ih hkeyed' hwindow' hinc'
      rw [List.getLastD_concat] at hposted
      rw [serveAll_cons, accepted_cons, if_pos (isAccepted_of_ok hid hout)]
      refine ⟨t :: us, by rwa [List.append_assoc, List.singleton_append] at hend, ?_, ?_⟩
      · rw [hout]
        exact .cons hmakes hposted
      · dsimp only
        rw [hpublished, hbus' t hid hmakes, List.append_assoc, List.singleton_append]

end Publishing

/-! ## What the column keeps -/

/-- The ticks of a time as the column keeps it. -/
def keptTicks (t : DateTime) : Nat :=
  if Table.epochTicks ≤ t.ticks then t.ticks / 10 * 10 else (t.ticks + 9) / 10 * 10

theorem ticks_of_timestamp {t u : DateTime} (h : Table.timestamp t = some u) :
    u.ticks = keptTicks t := by
  have hle := t.ticks_le
  rw [Table.timestamp] at h
  rw [keptTicks]
  split at h
  · cases h
  · split at h
    · next hepoch =>
      cases h
      rw [if_pos hepoch]
      refine Nat.min_eq_left ?_
      omega
    · next hepoch =>
      cases h
      rw [if_neg hepoch]
      refine Nat.min_eq_left ?_
      have hlt : t.ticks < 630822816000000000 := not_le.mp hepoch
      rw [maxTicks]
      omega

/-- The column keeps the order of times, if not strictly. -/
theorem keptTicks_mono {t u : DateTime} (h : t.ticks ≤ u.ticks) : keptTicks t ≤ keptTicks u := by
  rw [keptTicks, keptTicks, Table.epochTicks]
  split <;> split <;> omega

/-- An entry of a statement as the table keeps it. -/
def keptEntry (x : BankStatementTransaction) : Option BankStatementTransaction :=
  (Table.timestamp x.realizadaEm).map fun realizadaEm => { x with realizadaEm := realizadaEm }

/-- A record the table can show: with a description of at most ten characters, and a time that is
    kept and is not the default. -/
structure Keepable (t : Transaction) : Prop where
  descricao : ∃ d, t.descricao = some d ∧ d.length ≤ 10
  dated : Table.timestamp t.realizadaEm ≠ none
  pos : 0 < keptTicks t.realizadaEm

namespace Keepable

variable {t : Transaction}

theorem getTransaction_tableRow (h : Keepable t) :
    Repository.getTransaction (tableRow t) = keptEntry t.listed ∧
      (keptEntry t.listed).isSome := by
  obtain ⟨d, hd, hlength⟩ := h.descricao
  obtain ⟨u, hu⟩ := Option.ne_none_iff_exists'.mp h.dated
  have hticks : ¬ u.ticks = 0 := by
    rw [ticks_of_timestamp hu]
    exact h.pos.ne'
  have hentry : keptEntry t.listed = some ⟨t.valor, t.tipo, some d, u⟩ := by
    rw [keptEntry, Transaction.listed]
    dsimp only
    rw [hu, hd, Option.map_some]
  refine ⟨?_, by rw [hentry]; rfl⟩
  rw [hentry, Repository.getTransaction, tableRow, hd, Option.map_some, hu,
    List.take_of_length_le hlength]
  exact if_neg hticks

theorem key_tableRow (h : Keepable t) :
    Repository.realizadaEmKey (tableRow t) = (keptTicks t.realizadaEm : WithTop Nat) := by
  obtain ⟨u, hu⟩ := Option.ne_none_iff_exists'.mp h.dated
  rw [Repository.realizadaEmKey, tableRow, hu, ← ticks_of_timestamp hu]

end Keepable

/-- Rows that can be shown are shown as their entries. -/
theorem filterMap_getTransaction {ts : List Transaction} (h : ∀ t ∈ ts, Keepable t) :
    ((ts.map tableRow).filterMap Repository.getTransaction).map some
      = (ts.map Transaction.listed).map keptEntry := by
  induction ts with
  | nil => rfl
  | cons t ts ih =>
    obtain ⟨hrow, hsome⟩ := (h t List.mem_cons_self).getTransaction_tableRow
    obtain ⟨x, hx⟩ := Option.isSome_iff_exists.mp hsome
    rw [hx] at hrow
    rw [List.map_cons, List.filterMap_cons_some hrow, List.map_cons, List.map_cons, List.map_cons,
      hx, ih fun u hu => h u (List.mem_cons_of_mem _ hu)]

/-! ## The rows of an account -/

section Rows

variable {k : Int32} {row : Row} {ts : List Transaction}

/-- The rows of the account, newest first. -/
def rowsDown (row : Row) (ts : List Transaction) : List Row := (ts.map tableRow).reverse ++ [row]

/-- Whatever the order in which the batches have inserted them. -/
theorem ofAccount_perm {rows table : List Row} {s : Stores}
    (hrow : Repository.ofAccount rows k = [row])
    (htable : table.Perm (rows ++ s.bus.map tableRow)) :
    (Repository.ofAccount table k).Perm (rowsDown row (onBus k s)) := by
  have hbus : Repository.ofAccount (s.bus.map tableRow) k = (onBus k s).map tableRow := by
    rw [Repository.ofAccount, List.filter_map, onBus]
    rfl
  have hperm := htable.filter fun r => decide (r.accountId = k)
  rw [List.filter_append] at hperm
  refine hperm.trans ?_
  rw [← Repository.ofAccount, ← Repository.ofAccount, hrow, hbus, rowsDown]
  exact List.perm_append_comm.trans ((List.reverse_perm _).symm.append_right _)

/-- Rows of records, newest first, above the row of the seed: as `ORDER BY` puts them. -/
theorem pairwise_of_descending {us : List Transaction} {start : DateTime}
    (hstart : row.realizadaEm = some start) (hkeep : ∀ t ∈ us, Keepable t)
    (hdown : us.Pairwise fun a b => a = b ∨ keptTicks b.realizadaEm < keptTicks a.realizadaEm)
    (hlater : ∀ t ∈ us, start.ticks < keptTicks t.realizadaEm) :
    (us.map tableRow ++ [row]).Pairwise fun a b => a = b ∨
      OrderDual.toDual (Repository.realizadaEmKey a)
        < OrderDual.toDual (Repository.realizadaEmKey b) := by
  rw [List.pairwise_append]
  refine ⟨?_, List.pairwise_singleton _ _, fun a ha b hb => Or.inr ?_⟩
  · rw [List.pairwise_map]
    refine hdown.imp_of_mem fun {t u} ht hu hlt => hlt.imp (congrArg tableRow) fun hlt => ?_
    rw [OrderDual.toDual_lt_toDual, (hkeep t ht).key_tableRow, (hkeep u hu).key_tableRow]
    exact WithTop.coe_lt_coe.mpr hlt
  · obtain ⟨t, ht, rfl⟩ := List.mem_map.mp ha
    rw [List.mem_singleton.mp hb, OrderDual.toDual_lt_toDual, (hkeep t ht).key_tableRow,
      Repository.realizadaEmKey, hstart]
    exact WithTop.coe_lt_coe.mpr (hlater t ht)

/-- **The statement over the table**: the balance of the newest record, or of the seed, and the
    newest ten records, equal ones as often as their rows are there. -/
theorem getBankStatementAsync_of_descending (pg : Repository.Postgres) (now : DateTime)
    {table : List Row} {us : List Transaction}
    (hperm : (Repository.ofAccount table k).Perm (us.map tableRow ++ [row]))
    (hnull : row.descricao = none) {start : DateTime} (hstart : row.realizadaEm = some start)
    (hkeep : ∀ t ∈ us, Keepable t)
    (hdown : us.Pairwise fun a b => a = b ∨ keptTicks b.realizadaEm < keptTicks a.realizadaEm)
    (hlater : ∀ t ∈ us, start.ticks < keptTicks t.realizadaEm) :
    ∃ stored, Repository.getBankStatementAsync pg k now table = some stored ∧
      stored.saldo = ⟨((us.map tableRow).headD row).saldo, ((us.map tableRow).headD row).limite,
        now⟩ ∧
      stored.ultimasTransacoes.map some
        = ((us.map Transaction.listed).take 10).map keptEntry := by
  have hsort := pg.orderByRealizadaEmDesc.sort_eq hperm
    (pairwise_of_descending hstart hkeep hdown hlater)
  have hhead : ((us.map tableRow ++ [row]).take 10).head?
      = some ((us.map tableRow).headD row) := by
    rw [List.head?_take, if_neg (by decide), List.head?_append, List.head?_singleton,
      Option.or_some, List.headD_eq_head?_getD]
  have hseed : ∀ n, ([row].take n).filterMap Repository.getTransaction = [] := by
    intro n
    refine List.filterMap_eq_nil_iff.mpr fun r hr => ?_
    rw [List.mem_singleton.mp (List.mem_of_mem_take hr), Repository.getTransaction, hnull]
  rw [Repository.getBankStatementAsync, hsort, Repository.createBankStatement_eq, hhead]
  refine ⟨_, rfl, rfl, ?_⟩
  dsimp only
  rw [List.take_append, List.filterMap_append, hseed, List.append_nil, ← List.map_take,
    ← List.map_take]
  exact filterMap_getTransaction fun t ht => hkeep t (List.mem_of_mem_take ht)

/-- The same at increasing times. -/
theorem getBankStatementAsync_of_rows (pg : Repository.Postgres) (now : DateTime)
    {table : List Row} (hperm : (Repository.ofAccount table k).Perm (rowsDown row ts))
    (hnull : row.descricao = none) {start : DateTime} (hstart : row.realizadaEm = some start)
    (hkeep : ∀ t ∈ ts, Keepable t)
    (htimes : (start.ticks :: ts.map fun t => keptTicks t.realizadaEm).Pairwise (· < ·)) :
    ∃ stored, Repository.getBankStatementAsync pg k now table = some stored ∧
      stored.saldo = ⟨((ts.map tableRow).getLastD row).saldo,
        ((ts.map tableRow).getLastD row).limite, now⟩ ∧
      stored.ultimasTransacoes.map some
        = ((ts.map Transaction.listed).reverse.take 10).map keptEntry := by
  obtain ⟨hseed, hts⟩ := List.pairwise_cons.mp htimes
  rw [rowsDown, ← List.map_reverse] at hperm
  have hdown : ts.reverse.Pairwise fun a b =>
      a = b ∨ keptTicks b.realizadaEm < keptTicks a.realizadaEm := by
    rw [List.pairwise_reverse]
    exact (List.pairwise_map.mp hts).imp Or.inr
  have hstored := getBankStatementAsync_of_descending pg now hperm hnull hstart
    (fun t ht => hkeep t (List.mem_reverse.mp ht)) hdown
    fun t ht => hseed _ (List.mem_map_of_mem (List.mem_reverse.mp ht))
  rwa [List.map_reverse, List.map_reverse, List.headD_eq_head?_getD, List.head?_reverse,
    ← List.getLastD_eq_getLast?] at hstored

end Rows

/-! ## The window of an account -/

/-- What the cache lists below the last ten records: the seed, while it is in the window and not
    alone there. -/
def seedBelow (seed : Transaction) (n : Nat) : List BankStatementTransaction :=
  if 0 < n ∧ n < 10 then [seed.listed] else []

/-- What a statement is made of, once it is known what it lists: the balance of the record on top,
    and the list unless limit and balance are both 0. -/
theorem exists_statement {json : TransactionJson} {k : Int32} {now : DateTime} {db : Redis}
    {t : Transaction} {listed : List BankStatementTransaction}
    (h : CachedRepository.getBankStatementAsync json k now db
      = .ok (if t.saldo = 0 ∧ t.limite = 0 then BankStatement.default now
          else ⟨⟨t.saldo, t.limite, now⟩, listed⟩)) :
    ∃ cached, CachedRepository.getBankStatementAsync json k now db = .ok cached ∧
      cached.saldo = ⟨t.saldo, t.limite, now⟩ ∧
      cached.ultimasTransacoes = if t.saldo = 0 ∧ t.limite = 0 then [] else listed := by
  refine ⟨_, h, ?_⟩
  by_cases hzero : t.saldo = 0 ∧ t.limite = 0
  · rw [if_pos hzero, if_pos hzero, hzero.1, hzero.2]
    exact ⟨rfl, rfl⟩
  · rw [if_neg hzero, if_neg hzero]
    exact ⟨rfl, rfl⟩

/-- **The statement over the cache**: the balance of the last record, or of the seed, the last ten
    records, and the seed below them; and no list for an account with no limit and no balance. -/
theorem getBankStatementAsync_of_window {json : TransactionJson} {k : Int32} {seed : Transaction}
    {ts : List Transaction} {db : Redis} (hwindow : Window json k seed ts db)
    (hseed : seed.descricao = some [])
    (hdesc : ∀ t ∈ ts, ¬ (t.descricao = none ∨ t.descricao = some [])) (now : DateTime) :
    ∃ cached, CachedRepository.getBankStatementAsync json k now db = .ok cached ∧
      cached.saldo = ⟨(ts.getLastD seed).saldo, (ts.getLastD seed).limite, now⟩ ∧
      cached.ultimasTransacoes
        = if (ts.getLastD seed).saldo = 0 ∧ (ts.getLastD seed).limite = 0 then []
          else (ts.map Transaction.listed).reverse.take 10 ++ seedBelow seed ts.length := by
  rcases List.eq_nil_or_concat' ts with rfl | ⟨low, t, rfl⟩
  · have htake : (db (getBankStatementKey k)).entries.take 11 =
        ([] ++ [seed]).map (entryOf json) := by
      rw [hwindow]
      rfl
    have hcached := getBankStatementAsync_of_records now htake
    rw [listedFirst, if_pos (Or.inr hseed)] at hcached
    exact exists_statement hcached
  · have hlast := hdesc t (List.mem_append_right low (List.mem_singleton_self t))
    rw [List.getLastD_concat]
    by_cases hshort : (low ++ [t]).length ≤ 9
    · have hcached := LastTransactions.statement_of_short now hwindow hshort hlast
      have hbelow : seedBelow seed (low ++ [t]).length = [seed.listed] := by
        refine if_pos ⟨?_, by omega⟩
        rw [List.length_append, List.length_singleton]
        omega
      rw [hbelow, List.take_of_length_le (by rw [List.length_reverse, List.length_map]; omega)]
      rw [List.cons_append, List.map_cons, List.reverse_cons] at hcached
      exact exists_statement hcached
    · have hcached := LastTransactions.statement_of_long now hwindow (by omega) hlast
      have hbelow : seedBelow seed (low ++ [t]).length = [] := if_neg (by omega)
      rw [hbelow, List.append_nil]
      exact exists_statement hcached

/-! ## Both -/

/-- A record made of a request has a description of at most ten characters. -/
theorem descricao_of_posted {u : Transaction} {log : List Served} {ts : List Transaction}
    (h : Posted u log ts) : ∀ t ∈ ts, ∃ d, t.descricao = some d ∧ d.length ≤ 10 := by
  induction h with
  | nil u => exact fun t ht => by cases ht
  | @cons u t p log ts hmakes hrest ih =>
    obtain ⟨-, ⟨d, hd, -, hlength⟩, -⟩ := (p.request.valid_iff).mp hmakes.valid
    refine List.forall_mem_cons.mpr ⟨⟨d, ?_, (Text.length_le_length16 d).trans hlength⟩, ih⟩
    rw [hmakes.made]
    exact hd

/-- The one row of an account that is a seed is its seed row. -/
theorem seedRows_of_ofAccount {rows : List Row} {k : Int32} {row : Row}
    (hrow : Repository.ofAccount rows k = [row]) (hnull : row.descricao = none) :
    InitializeRedis.seedRows rows k = [row] := by
  have hfilter : InitializeRedis.seedRows rows k
      = (Repository.ofAccount rows k).filter fun r => r.descricao = none := by
    rw [Repository.ofAccount, List.filter_filter, InitializeRedis.seedRows]
    refine List.filter_congr fun r _ => ?_
    rw [Bool.decide_and, Bool.and_comm]
  rw [hfilter, hrow, List.filter_singleton, decide_eq_true hnull]
  rfl

/-- **How the two statements agree.**  After a sequential run over a table of seeds, with everything
    that was published inserted, in any order, and at times that increase both as scores and as the
    column keeps them: the statement over the table lists the last ten records of the account; the
    statement over the cache has the same balance and lists the same records, and the seed below
    them while one to nine have been accepted, or nothing if limit and balance are both 0. -/
theorem statements_agree (json : TransactionJson) (pg : Repository.Postgres)
    (rows table added : List Row) (k : Int32) (now : DateTime) (row : Row) (seed : Transaction)
    (s : Stores) (posts : List Post) (hrows : SeedTable rows)
    (hs : s.redis = (InitializeRedis.executeAsync json rows Redis.empty).1) (hbus : s.bus = [])
    (hrow : Repository.ofAccount rows k = [row])
    (hseed : InitializeRedis.seed? row = some seed)
    (hinc : Increasing k seed (serveAll json s posts).2)
    (htimes : (seed.realizadaEm.ticks :: (accepted k (serveAll json s posts).2).map
      fun x => keptTicks x.post.now).Pairwise (· < ·))
    (hadded : (serveAll json s posts).1.bus.mapM batchRow = some added)
    (htable : table.Perm (rows ++ added)) :
    ∃ cached stored,
      CachedRepository.getBankStatementAsync json k now (serveAll json s posts).1.redis
        = .ok cached ∧
      Repository.getBankStatementAsync pg k now table = some stored ∧
      cached.saldo = stored.saldo ∧
      ∃ shown : List BankStatementTransaction,
        shown.map keptEntry = stored.ultimasTransacoes.map some ∧
        shown = ((accepted k (serveAll json s posts).2).map Served.listed).reverse.take 10 ∧
        cached.ultimasTransacoes
          = if stored.saldo.total = 0 ∧ stored.saldo.limite = 0 then []
            else shown ++ seedBelow seed (accepted k (serveAll json s posts).2).length := by
  have hstart := InitializeRedis.realizadaEm_of_seed? hseed
  obtain ⟨hnull, start, rfl⟩ := InitializeRedis.eq_of_seed? hseed
  have hcache := hrows.seededCache json
  have hone := hrows.entries_of_seedRows k json (seedRows_of_ofAccount hrow hnull) hseed
  rw [← hs] at hcache hone
  obtain ⟨ts, hwindow, hposted, hpublished⟩ :=
    serveAll_published posts hcache.keyed (window_nil hone) (inOrder_nil hinc)
  rw [List.nil_append] at hwindow
  rw [show onBus k s = [] by rw [onBus, hbus]; rfl, List.nil_append] at hpublished
  -- the records of the chain can all be kept
  obtain ⟨rfl, hdated⟩ := mapM_batchRow_eq_some hadded
  have hsame : (ts.map fun t => keptTicks t.realizadaEm)
      = (accepted k (serveAll json s posts).2).map fun x => keptTicks x.post.now := by
    have hlisted := congrArg (List.map fun x => keptTicks x.realizadaEm) hposted.map_listed
    rwa [List.map_map, List.map_map] at hlisted
  rw [← hsame] at htimes
  have hkeep : ∀ t ∈ ts, Keepable t := by
    intro t ht
    have hin : t ∈ onBus k (serveAll json s posts).1 := by rwa [hpublished]
    have hlater := (List.pairwise_cons.mp htimes).1 _ (List.mem_map_of_mem ht)
    exact ⟨descricao_of_posted hposted t ht, hdated t (List.mem_of_mem_filter hin), by omega⟩
  have hperm := ofAccount_perm (s := (serveAll json s posts).1) hrow htable
  rw [hpublished] at hperm
  obtain ⟨cached, hcached, hbalance, hlist⟩ := getBankStatementAsync_of_window hwindow
    (hcache.seedOf hone).descricao hposted.descricao now
  obtain ⟨stored, hstored, hbalance', hlist'⟩ :=
    getBankStatementAsync_of_rows pg now hperm hnull hstart hkeep htimes
  have hsaldo : cached.saldo = stored.saldo := by
    rw [hbalance, hbalance']
    rcases List.eq_nil_or_concat' ts with rfl | ⟨low, t, rfl⟩
    · rfl
    · rw [List.map_append, List.map_singleton, List.getLastD_concat, List.getLastD_concat]
      rfl
  refine ⟨cached, stored, hcached, hstored, hsaldo, _, hlist'.symm, ?_, ?_⟩
  · rw [hposted.map_listed]
  · rw [hlist, ← hsaldo, hbalance, hposted.length_eq]

/-- Two credits of 10 on account 1, ten ticks after one another. -/
def twoCredits : List Post :=
  [⟨1, TransactionService.creditOfTen, .ofTicks 10 .localTime⟩,
    ⟨1, TransactionService.creditOfTen, .ofTicks 20 .localTime⟩]

theorem statements_agree_twoCredits : ∃ cached stored : BankStatement,
    CachedRepository.getBankStatementAsync systemTextJson 1 (.ofTicks 30 .localTime)
        (serveAll systemTextJson TransactionService.seededStores twoCredits).1.redis
      = .ok cached ∧
      cached.saldo = stored.saldo ∧ stored.ultimasTransacoes.length = 2 := by
  have hrun : (fun r : Stores × List Served =>
      Increasing 1 InitializeRedis.seedRecord r.2 ∧
        (InitializeRedis.seedRecord.realizadaEm.ticks :: (accepted 1 r.2).map
          fun x => keptTicks x.post.now).Pairwise (· < ·) ∧
        (accepted 1 r.2).length = 2 ∧ (r.1.bus.mapM batchRow).isSome)
      (serveAll systemTextJson TransactionService.seededStores twoCredits) := by
    unfold Increasing
    decide +kernel
  obtain ⟨hinc, htimes, htwo, hsome⟩ := hrun
  obtain ⟨added, hadded⟩ := Option.isSome_iff_exists.mp hsome
  obtain ⟨cached, stored, hcached, -, hsaldo, shown, hshown, heq, -⟩ :=
    statements_agree systemTextJson .stable [InitializeRedis.seedRow] _ added 1
      (.ofTicks 30 .localTime) InitializeRedis.seedRow InitializeRedis.seedRecord
      TransactionService.seededStores twoCredits seedTable_seedRow rfl rfl (by decide) rfl hinc
      htimes hadded (List.Perm.refl _)
  have hlength : shown.length = 2 := by
    rw [heq, List.length_take, List.length_reverse, List.length_map, htwo]
    decide
  have hcount := congrArg List.length hshown
  rw [List.length_map, List.length_map, hlength] at hcount
  exact ⟨cached, stored, hcached, hsaldo, hcount.symm⟩

end CacheAndTable

end Rinha
