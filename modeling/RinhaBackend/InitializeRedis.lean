/-
  `InitializeRedisBackgroundService`: filling the cache from the `Transactions` table at start-up.

  The query selects the rows `WHERE Descricao IS NULL` (the rows of `seed.sql`; a row the running
  system writes has a description), and for each of them stores a record with `Valor` 0, `Tipo`
  'c', an empty description and the row's balance, limit and time.

  So the service SEEDS the cache, it does not replay history.  `executeAsync_same` says what the
  set of an account holds afterwards, whatever the table, and `getAccountByIdAsync_after_restart`
  what is then read from an empty cache: the seed, however many rows came later.
-/
import RinhaBackend.CachedRepository

namespace Rinha

/-- A row of the `Transactions` table (`create-tables.sql`); only `Descricao` and `RealizadaEm`
    can be NULL. -/
structure Row where
  accountId : Int32
  descricao : Option Text
  tipo : Char
  valor : Int32
  saldo : Int32
  limite : Int32
  realizadaEm : Option DateTime
  deriving DecidableEq, Repr

namespace InitializeRedis

open CachedRepository

/-- The record stored for a row: no amount, an empty description. -/
def seedTransaction (row : Row) (realizadaEm : DateTime) : Transaction :=
  ⟨0, 'c', some [], row.accountId, row.limite, row.saldo, realizadaEm⟩

/-- The record of a row, if the query selects it and its time can be read. -/
def seed? (row : Row) : Option Transaction :=
  if row.descricao = none then row.realizadaEm.map (seedTransaction row) else none

/-- Only a row without a description has a record. -/
theorem eq_of_seed? {row : Row} {t : Transaction} (h : seed? row = some t) :
    row.descricao = none ∧ ∃ realizadaEm, t = seedTransaction row realizadaEm := by
  rw [seed?] at h
  split at h
  · next hdesc =>
    obtain ⟨realizadaEm, -, rfl⟩ := Option.map_eq_some_iff.mp h
    exact ⟨hdesc, realizadaEm, rfl⟩
  · cases h

/-- The record of a row is of the row's account. -/
theorem accountId_of_seed? {row : Row} {t : Transaction} (h : seed? row = some t) :
    t.accountId = row.accountId := by
  obtain ⟨-, realizadaEm, rfl⟩ := eq_of_seed? h
  rfl

/-- And has the time of the row. -/
theorem realizadaEm_of_seed? {row : Row} {t : Transaction} (h : seed? row = some t) :
    row.realizadaEm = some t.realizadaEm := by
  rw [seed?, if_pos (eq_of_seed? h).1] at h
  obtain ⟨realizadaEm, htime, rfl⟩ := Option.map_eq_some_iff.mp h
  exact htime

section Service

variable (json : TransactionJson)

/-- The `SortedSetAddAsync` of the loop. -/
def addSeed (db : Redis) (transaction : Transaction) : Redis :=
  db.sortedSetAdd ("BankStatement:".toList ++ TextFormat.printInt transaction.accountId.toInt)
    (json.serialize transaction) transaction.realizadaEm.score

/-- `ExecuteAsync` over the rows of the table; a NULL time ends it with the exception of
    `GetDateTime`, the rows before it being stored already. -/
def executeAsync : List Row → Redis → Redis × Option Fault
  | [], db => (db, none)
  | row :: rows, db =>
    -- the `WHERE` of the query
    if row.descricao ≠ none then executeAsync rows db
    else match row.realizadaEm with
      | none => (db, some .npgsqlException)
      | some realizadaEm => executeAsync rows (addSeed json db (seedTransaction row realizadaEm))

/-- The service and the repository use the same keys. -/
theorem addSeed_eq_saveInsert (db : Redis) (t : Transaction) :
    addSeed json db t = saveInsert json db t := rfl

/-! ## What the service leaves in Redis -/

/-- With a time in every selected row, the run is a fold over the selected rows. -/
theorem executeAsync_of_dated {rows : List Row}
    (h : ∀ row ∈ rows, row.descricao = none → row.realizadaEm ≠ none) (db : Redis) :
    executeAsync json rows db = ((rows.filterMap seed?).foldl (addSeed json) db, none) := by
  induction rows generalizing db with
  | nil => rfl
  | cons row rows ih =>
    have hrest := ih fun r hr => h r (List.mem_cons_of_mem _ hr)
    rw [executeAsync]
    by_cases hdesc : row.descricao = none
    · obtain ⟨t, ht⟩ := Option.ne_none_iff_exists'.mp (h row List.mem_cons_self hdesc)
      have hseed : seed? row = some (seedTransaction row t) := by
        rw [seed?, if_pos hdesc, ht, Option.map_some]
      rw [if_neg (not_not.mpr hdesc), ht, List.filterMap_cons_some hseed, List.foldl_cons]
      exact hrest _
    · have hseed : seed? row = none := if_neg hdesc
      rw [if_pos hdesc, List.filterMap_cons_none hseed]
      exact hrest db

/-- What the records of the rows all have, the records stored after a start-up have. -/
theorem executeAsync_records {R : Int32 → Transaction → Prop} {rows : List Row} {db : Redis}
    (hseeds : ∀ row ∈ rows, ∀ t, seed? row = some t → R row.accountId t) (h : Records json R db) :
    Records json R (executeAsync json rows db).1 := by
  induction rows generalizing db with
  | nil => exact h
  | cons row rows ih =>
    have hrest := fun r hr => hseeds r (List.mem_cons_of_mem row hr)
    rw [executeAsync]
    by_cases hdesc : row.descricao = none
    · rw [if_neg (not_not.mpr hdesc)]
      rcases ht : row.realizadaEm with _ | t
      · exact h
      · have hseed : seed? row = some (seedTransaction row t) := by
          rw [seed?, if_pos hdesc, ht, Option.map_some]
        refine ih hrest ?_
        rw [addSeed_eq_saveInsert]
        exact h.saveInsert (hseeds row List.mem_cons_self _ hseed)
    · rw [if_pos hdesc]
      exact ih hrest h

/-- Adding records one after another touches, at an account's key, that account's records only. -/
theorem foldl_addSeed_same (k : Int32) (ts : List Transaction) (db : Redis) :
    ts.foldl (addSeed json) db (getBankStatementKey k)
      = (ts.filter fun t => t.accountId = k).foldl
          (fun set t => set.add t.realizadaEm.score (json.serialize t))
          (db (getBankStatementKey k)) := by
  induction ts generalizing db with
  | nil => rfl
  | cons t ts ih =>
    rw [List.foldl_cons, ih, addSeed_eq_saveInsert, List.filter_cons]
    by_cases hk : t.accountId = k
    · rw [if_pos (decide_eq_true hk), List.foldl_cons, saveInsert_of_eq json db t hk]
    · rw [if_neg (fun h => hk (of_decide_eq_true h)), saveInsert_of_ne json db t hk]

/-- The rows the query selects for an account. -/
def seedRows (rows : List Row) (k : Int32) : List Row :=
  rows.filter fun row => row.accountId = k ∧ row.descricao = none

/-- The records of an account come from its selected rows. -/
theorem filter_filterMap_seed? (rows : List Row) (k : Int32) :
    (rows.filterMap seed?).filter (fun t => t.accountId = k)
      = (seedRows rows k).filterMap seed? := by
  induction rows with
  | nil => rfl
  | cons row rows ih =>
    rw [seedRows, List.filter_cons, ← seedRows]
    rcases hseed : seed? row with _ | t
    · rw [List.filterMap_cons_none hseed, ih]
      split
      · rw [List.filterMap_cons_none hseed]
      · rfl
    · have hdesc : row.descricao = none := by
        by_contra hc
        rw [seed?, if_neg hc] at hseed
        cases hseed
      have hid : t.accountId = row.accountId := accountId_of_seed? hseed
      rw [List.filterMap_cons_some hseed, List.filter_cons, hid, ih]
      by_cases hk : row.accountId = k
      · rw [if_pos (decide_eq_true hk), if_pos (decide_eq_true ⟨hk, hdesc⟩),
          List.filterMap_cons_some hseed]
      · rw [if_neg (fun h => hk (of_decide_eq_true h)),
          if_neg (fun h => hk (of_decide_eq_true h).1)]

/-- **What a start-up stores for an account**: the records of its selected rows, added in turn. -/
theorem executeAsync_same {rows : List Row}
    (h : ∀ row ∈ rows, row.descricao = none → row.realizadaEm ≠ none) (db : Redis) (k : Int32) :
    (executeAsync json rows db).1 (getBankStatementKey k)
      = ((seedRows rows k).filterMap seed?).foldl
          (fun set t => set.add t.realizadaEm.score (json.serialize t))
          (db (getBankStatementKey k)) := by
  rw [executeAsync_of_dated json h]
  dsimp only
  rw [foldl_addSeed_same, filter_filterMap_seed?]

end Service

/-- The row of account 1: limit 1000, balance 0. -/
def seedRow : Row := ⟨1, none, 'c', 0, 0, 1000, some (.ofTicks 0 .unspecified)⟩

/-- The record of account 1. -/
def seedRecord : Transaction := seedTransaction seedRow (.ofTicks 0 .unspecified)

/-- The cache after a start-up over that row alone. -/
def seededCache : Redis := (executeAsync systemTextJson [seedRow] Redis.empty).1

theorem seededCache_entries : (seededCache (getBankStatementKey 1)).entries
    = [entryOf systemTextJson seedRecord] := rfl

/-! ## Restarting over a table with history -/

/-- Row `a` is older than row `b`. -/
def Older (a b : Row) : Prop :=
  ∃ ta tb, a.realizadaEm = some ta ∧ b.realizadaEm = some tb ∧ ta.ticks < tb.ticks

/-- A table the system can have written: each account with a row has exactly one seed row, its
    oldest, and the times of its rows are distinct. -/
structure History (rows : List Row) : Prop where
  seeded : ∀ row ∈ rows, ∃ seed, seedRows rows row.accountId = [seed]
  dated : ∀ row ∈ rows, row.realizadaEm ≠ none
  oldest : ∀ seed ∈ rows, seed.descricao = none → ∀ row ∈ rows, row.accountId = seed.accountId →
    row = seed ∨ Older seed row
  distinct : rows.Pairwise fun a b => a.accountId = b.accountId → Older a b ∨ Older b a

/-- `row` is the most recent row of its account. -/
def MostRecent (rows : List Row) (row : Row) : Prop :=
  row ∈ rows ∧ ∀ other ∈ rows, other.accountId = row.accountId → other = row ∨ Older other row

/-- An account with one seed row is read from an empty cache as that row. -/
theorem getAccountByIdAsync_of_seedRows (json : TransactionJson) {rows : List Row}
    (hdated : ∀ row ∈ rows, row.realizadaEm ≠ none) {k : Int32} {seed : Row}
    (hseed : seedRows rows k = [seed]) :
    seed ∈ rows ∧ seed.accountId = k ∧ seed.descricao = none ∧
      getAccountByIdAsync json k (executeAsync json rows Redis.empty).1
        = .ok (some ⟨k, seed.limite, seed.saldo⟩) := by
  have hmem : seed ∈ seedRows rows k := by
    rw [hseed]
    exact List.mem_singleton_self seed
  obtain ⟨hin, hprops⟩ := List.mem_filter.mp hmem
  obtain ⟨hid, hdesc⟩ := of_decide_eq_true hprops
  obtain ⟨t, ht⟩ := Option.ne_none_iff_exists'.mp (hdated seed hin)
  have hrecord : seed? seed = some (seedTransaction seed t) := by
    rw [seed?, if_pos hdesc, ht, Option.map_some]
  have hset := executeAsync_same json (fun row hrow _ => hdated row hrow) Redis.empty k
  rw [hseed, List.filterMap_cons_some hrecord, List.filterMap_nil, List.foldl_cons,
    List.foldl_nil] at hset
  refine ⟨hin, hid, hdesc, ?_⟩
  rw [← hid]
  refine getAccountByIdAsync_of_last (t := seedTransaction seed t) ?_
  rw [hid, hset]
  rfl

/-- **After a restart every account reads as its seed row**, and no exception is raised; so it
    reads as its most recent row exactly when that row has the seed's limit and balance. -/
theorem getAccountByIdAsync_after_restart (json : TransactionJson) (rows : List Row)
    (h : History rows) :
    (executeAsync json rows Redis.empty).2 = none ∧
      ∀ row ∈ rows, ∃ seed ∈ rows, seed.accountId = row.accountId ∧ seed.descricao = none ∧
        getAccountByIdAsync json row.accountId (executeAsync json rows Redis.empty).1
          = .ok (some ⟨row.accountId, seed.limite, seed.saldo⟩) ∧
        (MostRecent rows row →
          (getAccountByIdAsync json row.accountId (executeAsync json rows Redis.empty).1
              = .ok (some ⟨row.accountId, row.limite, row.saldo⟩)
            ↔ row.limite = seed.limite ∧ row.saldo = seed.saldo)) := by
  refine ⟨by rw [executeAsync_of_dated json fun row hrow _ => h.dated row hrow], ?_⟩
  intro row hrow
  obtain ⟨seed, hseed⟩ := h.seeded row hrow
  obtain ⟨hin, hid, hdesc, hread⟩ := getAccountByIdAsync_of_seedRows json h.dated hseed
  refine ⟨seed, hin, hid, hdesc, hread, fun _ => ?_⟩
  rw [hread]
  constructor
  · intro heq
    injection heq with heq
    injection heq with heq
    injection heq with _ hlimite hsaldo
    exact ⟨hlimite.symm, hsaldo.symm⟩
  · rintro ⟨hlimite, hsaldo⟩
    rw [hlimite, hsaldo]

/-- A credit of 10 on account 1. -/
def creditRow : Row := ⟨1, some ['a'], 'c', 10, 10, 1000, some (.ofTicks 20 .unspecified)⟩

/-- Account 1 with its seed and one later credit. -/
def creditedTable : List Row := [seedRow, creditRow]

theorem creditedTable_history : History creditedTable where
  seeded := by
    intro row hrow
    refine ⟨seedRow, ?_⟩
    rcases List.mem_pair.mp hrow with rfl | rfl <;> decide
  dated := by decide
  oldest := by
    intro seed hseed hdesc row hrow _
    rcases List.mem_pair.mp hseed with rfl | rfl
    · rcases List.mem_pair.mp hrow with rfl | rfl
      · exact Or.inl rfl
      · exact Or.inr ⟨_, _, rfl, rfl, by decide⟩
    · cases hdesc
  distinct := by
    refine List.pairwise_pair.mpr fun _ => Or.inl ⟨_, _, rfl, rfl, by decide⟩

theorem getAccountByIdAsync_after_restart_credited :
    (executeAsync systemTextJson creditedTable Redis.empty).2 = none ∧
      ∃ seed ∈ creditedTable, seed.accountId = 1 ∧ seed.descricao = none ∧
        getAccountByIdAsync systemTextJson 1
            (executeAsync systemTextJson creditedTable Redis.empty).1
          = .ok (some ⟨1, seed.limite, seed.saldo⟩) := by
  obtain ⟨hnone, hrows⟩ :=
    getAccountByIdAsync_after_restart systemTextJson creditedTable creditedTable_history
  obtain ⟨seed, hin, hid, hdesc, hread, -⟩ := hrows _ List.mem_cons_self
  exact ⟨hnone, seed, hin, hid, hdesc, hread⟩

/-- The later credit is forgotten: the account is read with balance 0 after the restart. -/
theorem restart_forgets_the_most_recent_row :
    ¬ ∀ rows, History rows → ∀ row, MostRecent rows row →
      getAccountByIdAsync systemTextJson row.accountId
          (executeAsync systemTextJson rows Redis.empty).1
        = .ok (some ⟨row.accountId, row.limite, row.saldo⟩) := by
  intro h
  have hrecent : MostRecent creditedTable creditRow := by
    refine ⟨by decide, fun other hother _ => ?_⟩
    rcases List.mem_pair.mp hother with rfl | rfl
    · exact Or.inr ⟨_, _, rfl, rfl, by decide⟩
    · exact Or.inl rfl
  have hread := h creditedTable creditedTable_history _ hrecent
  have hseed : seedRows creditedTable creditRow.accountId = [seedRow] := by decide
  rw [(getAccountByIdAsync_of_seedRows systemTextJson creditedTable_history.dated hseed).2.2.2]
    at hread
  injection hread with hread
  injection hread with hread
  injection hread with _ _ hsaldo
  exact absurd hsaldo (by decide)

end InitializeRedis

end Rinha
