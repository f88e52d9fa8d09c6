/-
  Restarting an instance over a cache with history.

  `InitializeRedisBackgroundService` adds the seed of every account again.  While the seed is still
  in the window that changes nothing (a member is stored once); once `Save` has cut it away it
  comes back as an eleventh member, below the ten records: the account and the balance of the
  statement are read from the top and do not change, but the statement reads eleven ranks and now
  lists the seed.  `restart_unobservable_iff` says it account by account.

  The invariant (`Kept`) needs no order among the records: all of them rank above the seed, so the
  seed is the first to go, and it goes only from a full window.
-/
import RinhaBackend.SequentialRun

namespace Rinha

namespace Restart

open CachedRepository InitializeRedis SequentialRun

/-- Another start-up over the table changes neither read of account `k`. -/
def Unobservable (json : TransactionJson) (rows : List Row) (k : Int32) (db : Redis) : Prop :=
  getAccountByIdAsync json k (executeAsync json rows db).1 = getAccountByIdAsync json k db ∧
    ∀ now, getBankStatementAsync json k now (executeAsync json rows db).1
      = getBankStatementAsync json k now db

/-- The seed of account `k`, if it has one, is still stored. -/
def SeedStored (json : TransactionJson) (rows : List Row) (k : Int32) (db : Redis) : Prop :=
  ∀ row ∈ seedRows rows k, ∀ seed, seed? row = some seed →
    entryOf json seed ∈ (db (getBankStatementKey k)).entries

/-- Account `k` is read with balance 0 and limit 0. -/
def NoBalance (json : TransactionJson) (k : Int32) (db : Redis) : Prop :=
  ∃ account, getAccountByIdAsync json k db = .ok (some account) ∧ account.saldo = 0 ∧
    account.limite = 0

/-- The scores of the successes exceed the score of the seed of their account. -/
def AfterSeeds (rows : List Row) (log : List Served) : Prop :=
  ∀ k, ∀ row ∈ seedRows rows k, ∀ seed, seed? row = some seed →
    ∀ x ∈ accepted k log, seed.realizadaEm.score < x.post.now.score

/-! ## The seed is the lowest record -/

/-- Everything else ranks above the seed, and the seed is gone only from a full window. -/
structure Kept (json : TransactionJson) (seed : Transaction) (set : RedisSet) : Prop where
  above : ∀ e ∈ set.entries, e = entryOf json seed ∨ seed.realizadaEm.score < SortedSet.score e
  window : entryOf json seed ∈ set.entries ∨ set.entries.length = 10
  length_le : set.entries.length ≤ 10

section Keeping

variable {json : TransactionJson} {seed : Transaction} {set : RedisSet}

theorem kept_seed (h : set.entries = [entryOf json seed]) : Kept json seed set := by
  refine ⟨fun e he => ?_, Or.inl ?_, ?_⟩
  · rw [h, List.mem_singleton] at he
    exact Or.inl he
  · rw [h]
    exact List.mem_singleton_self _
  · rw [h, List.length_singleton]
    omega

theorem Kept.save (h : Kept json seed set) (hrecorded : Recorded json set) {t : Transaction}
    (hlt : seed.realizadaEm.score < t.realizadaEm.score) :
    Kept json seed ((set.add t.realizadaEm.score (json.serialize t)).keepTop 10) := by
  have hlength := SortedSet.length_keepTop 10 (set.add t.realizadaEm.score (json.serialize t))
  refine ⟨fun e he => ?_, ?_, by rw [hlength]; omega⟩
  · rcases SortedSet.of_mem_add (SortedSet.mem_of_mem_removeRange he) with rfl | hmem
    · exact Or.inr hlt
    · exact h.above e hmem
  by_cases hshort : (set.add t.realizadaEm.score (json.serialize t)).entries.length ≤ 10
  · rcases h.window with hmem | hfull
    · -- nothing is cut, and the record added is another one
      have hne : SortedSet.member (entryOf json seed) ≠ json.serialize t := by
        intro hm
        rw [json.serialize_injective hm] at hlt
        exact absurd hlt (lt_irrefl _)
      refine Or.inl ?_
      rw [SortedSet.entries_keepTop, Nat.sub_eq_zero_of_le hshort, List.drop_zero]
      exact SortedSet.mem_add.mpr (Or.inr ⟨hmem, hne⟩)
    · have hle := SortedSet.length_le_add (s := t.realizadaEm.score) (m := json.serialize t)
        fun e he hm => hrecorded.score_eq he hm
      refine Or.inr ?_
      rw [hlength]
      omega
  · refine Or.inr ?_
    rw [hlength]
    omega

/-- A seed that was cut away comes back below everything. -/
theorem Kept.entries_add_seed (h : Kept json seed set) (hrecorded : Recorded json set)
    (hgone : entryOf json seed ∉ set.entries) :
    (set.add seed.realizadaEm.score (json.serialize seed)).entries
      = entryOf json seed :: set.entries := by
  have hgt : ∀ e ∈ set.entries, seed.realizadaEm.score < SortedSet.score e := fun e he =>
    (h.above e he).resolve_left fun heq => hgone (heq ▸ he)
  refine SortedSet.entries_add_of_forall_gt (fun e he hm => ?_) hgt
  exact absurd (hrecorded.score_eq he hm) (ne_of_gt (hgt e he))

/-- A sequential run after the seed keeps it so. -/
theorem kept_serveAll {k : Int32} (posts : List Post) : ∀ {s : Stores}, Keyed json s.redis →
    Kept json seed (s.redis (getBankStatementKey k)) →
    (∀ x ∈ accepted k (serveAll json s posts).2,
      seed.realizadaEm.score < x.post.now.score) →
    Kept json seed ((serveAll json s posts).1.redis (getBankStatementKey k)) := by
  induction posts with
  | nil => exact fun _ h _ => h
  | cons p posts ih =>
    intro s hkeyed h hafter
    rw [serveAll_cons] at hafter ⊢
    dsimp only at hafter ⊢
    obtain ⟨hkeyed', ⟨hno, hset⟩ | ⟨hid, u, t, -, -, hmakes, hout, hset⟩⟩ :=
      servePost_cases hkeyed k p
    · rw [accepted_cons, if_neg (by rw [hno]; decide)] at hafter
      refine ih hkeyed' ?_ hafter
      rw [hset]
      exact h
    · have hyes : Served.isAccepted k ⟨p, (servePost json s p).2⟩ = true :=
        isAccepted_of_ok hid hout
      rw [accepted_cons, if_pos hyes] at hafter
      refine ih hkeyed' ?_ fun x hx => hafter x (List.mem_cons_of_mem _ hx)
      rw [hset]
      refine h.save (hkeyed.recorded k) ?_
      rw [hmakes.realizadaEm]
      exact hafter _ List.mem_cons_self

end Keeping

/-! ## What a restart shows -/

/-- A seed that comes back below ten records shows in the statement, unless that is empty. -/
theorem reads_of_seed_back {json : TransactionJson} {k : Int32} {seed : Transaction}
    {db db' : Redis} (hkeyed : Keyed json db)
    (hten : (db (getBankStatementKey k)).entries.length = 10)
    (hback : (db' (getBankStatementKey k)).entries
      = entryOf json seed :: (db (getBankStatementKey k)).entries) :
    getAccountByIdAsync json k db' = getAccountByIdAsync json k db ∧
      ((∀ now, getBankStatementAsync json k now db' = getBankStatementAsync json k now db)
        ↔ NoBalance json k db) := by
  obtain ⟨low, t, hts⟩ := (hkeyed.recorded k).exists_top (List.ne_nil_of_length_pos (by omega))
  have hts' : (db' (getBankStatementKey k)).entries = (seed :: low ++ [t]).map (entryOf json) := by
    rw [hback, hts]
    rfl
  have hlast := last?_of_records hts
  have hlast' := last?_of_records hts'
  have htake : (db (getBankStatementKey k)).entries.take 11 = (low ++ [t]).map (entryOf json) := by
    rw [List.take_of_length_le (by omega), hts]
  have htake' : (db' (getBankStatementKey k)).entries.take 11
      = (seed :: low ++ [t]).map (entryOf json) := by
    rw [List.take_of_length_le, hts']
    rw [hback, List.length_cons]
    omega
  refine ⟨by rw [getAccountByIdAsync_of_last hlast, getAccountByIdAsync_of_last hlast'], ?_⟩
  rw [NoBalance, getAccountByIdAsync_of_last hlast]
  constructor
  · intro hsame
    refine ⟨_, rfl, ?_⟩
    by_contra hsome
    have hlists := hsame (.ofTicks 0 .unspecified)
    rw [getBankStatementAsync_of_records _ htake, getBankStatementAsync_of_records _ htake',
      if_neg hsome, if_neg hsome] at hlists
    injection hlists with hlists
    injection hlists with _ hlists
    have hcount := congrArg List.length hlists
    rw [List.length_append, List.length_append, List.length_map, List.length_map,
      List.length_reverse, List.length_reverse, List.length_cons] at hcount
    omega
  · rintro ⟨account, haccount, hempty⟩ now
    cases haccount
    rw [getBankStatementAsync_of_records now htake, getBankStatementAsync_of_records now htake',
      if_pos hempty, if_pos hempty]

/-- **When a restart cannot be observed.**  After any sequential run from a seeded cache, with the
    scores of all successes above those of the seeds, another start-up over the same table leaves
    both reads of an account as they were if and only if the seed of the account is still stored,
    or its balance and limit are both 0. -/
theorem restart_unobservable_iff (json : TransactionJson) (rows : List Row)
    (htable : SeedTable rows) (s : Stores)
    (hs : s.redis = (executeAsync json rows Redis.empty).1) (posts : List Post)
    (hafter : AfterSeeds rows (serveAll json s posts).2) (k : Int32) :
    Unobservable json rows k (serveAll json s posts).1.redis ↔
      SeedStored json rows k (serveAll json s posts).1.redis ∨
        NoBalance json k (serveAll json s posts).1.redis := by
  have hkeyed : Keyed json s.redis := by
    rw [hs]
    exact (htable.seededCache json).keyed
  have hkeyed' := serveAll_keyed hkeyed posts
  rcases htable.executeAsync_set k json (serveAll json s posts).1.redis with
    ⟨hnone, hsame⟩ | ⟨row, seed, hone, hrow, -, hset⟩
  · -- no seed: the set is not touched
    refine iff_of_true ⟨getAccountByIdAsync_congr hsame json,
      getBankStatementAsync_congr hsame json⟩ (Or.inl ?_)
    intro row hmem
    rw [hnone] at hmem
    cases hmem
  have hmem : row ∈ seedRows rows k := by
    rw [hone]
    exact List.mem_singleton_self row
  have hstart : Kept json seed (s.redis (getBankStatementKey k)) := by
    rw [hs]
    exact kept_seed (htable.entries_of_seedRows k json hone hrow)
  have hkept := kept_serveAll posts hkeyed hstart (hafter k row hmem seed hrow)
  by_cases hstored : entryOf json seed ∈
      ((serveAll json s posts).1.redis (getBankStatementKey k)).entries
  · -- the seed is there: adding it again is nothing
    rw [SortedSet.add_of_mem hstored] at hset
    refine iff_of_true ⟨getAccountByIdAsync_congr hset json,
      getBankStatementAsync_congr hset json⟩ (Or.inl ?_)
    intro row' hmem' seed' hrow'
    rw [hone, List.mem_singleton] at hmem'
    subst hmem'
    obtain rfl := Option.some.inj (hrow.symm.trans hrow')
    exact hstored
  · have hback := hkept.entries_add_seed (hkeyed'.recorded k) hstored
    rw [← hset] at hback
    obtain ⟨haccount, hstatement⟩ := reads_of_seed_back hkeyed'
      (hkept.window.resolve_left hstored) hback
    rw [Unobservable, and_iff_right haccount, hstatement]
    refine (or_iff_right fun hall => hstored ?_).symm
    exact hall row hmem seed hrow

theorem afterSeeds_seedRow {log : List Served}
    (h : ∀ x ∈ accepted 1 log, 0 < x.post.now.score) : AfterSeeds [seedRow] log := by
  intro k row hrow seed hseed x hx
  obtain ⟨hrow, hprops⟩ := List.mem_filter.mp hrow
  obtain rfl := List.mem_singleton.mp hrow
  obtain rfl : (1 : Int32) = k := (of_decide_eq_true hprops).1
  cases hseed
  exact h x hx

theorem restart_unobservable_iff_three : Unobservable systemTextJson [seedRow] 1
    (serveAll systemTextJson TransactionService.seededStores (credits 3)).1.redis := by
  have hrun : (fun r : Stores × List Served => (∀ x ∈ accepted 1 r.2, 0 < x.post.now.score) ∧
      SeedStored systemTextJson [seedRow] 1 r.1.redis)
      (serveAll systemTextJson TransactionService.seededStores (credits 3)) := by
    unfold SeedStored
    decide +kernel
  exact (restart_unobservable_iff systemTextJson [seedRow] seedTable_seedRow
    TransactionService.seededStores rfl (credits 3) (afterSeeds_seedRow hrun.1) 1).mpr
    (Or.inl hrun.2)

/-- How many entries the statement of account 1 lists. -/
def listedCount (db : Redis) : Option Nat :=
  (getBankStatementAsync systemTextJson 1 (.ofTicks 11 .localTime) db).toOption.map
    fun statement => statement.ultimasTransacoes.length

/-- After ten accepted credits a restart brings the seed back: the statement lists eleven. -/
theorem restart_lists_the_seed_again :
    ¬ ∀ (rows : List Row) (s : Stores) (posts : List Post), SeedTable rows →
      s.redis = (executeAsync systemTextJson rows Redis.empty).1 →
      AfterSeeds rows (serveAll systemTextJson s posts).2 →
      ∀ k, Unobservable systemTextJson rows k (serveAll systemTextJson s posts).1.redis := by
  intro h
  have hrun : (fun r : Stores × List Served => (∀ x ∈ accepted 1 r.2, 0 < x.post.now.score) ∧
      listedCount r.1.redis = some 10 ∧
      listedCount (executeAsync systemTextJson [seedRow] r.1.redis).1 = some 11)
      (serveAll systemTextJson TransactionService.seededStores (credits 10)) := by
    decide +kernel
  obtain ⟨hafter, hten, heleven⟩ := hrun
  obtain ⟨-, hstatement⟩ := h [seedRow] TransactionService.seededStores (credits 10)
    seedTable_seedRow rfl (afterSeeds_seedRow hafter) 1
  rw [listedCount, hstatement, ← listedCount, hten] at heleven
  exact absurd heleven (by decide)

end Restart

end Rinha
