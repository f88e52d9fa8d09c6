/-
  Instances that start together.

  Every instance runs `InitializeRedisBackgroundService` over the same table when it starts, and
  nothing keeps two of them apart: their `SortedSetAddAsync`s interleave, and the query has no ORDER
  BY, so each may go through the rows in an order of its own.  None of it matters.  As soon as ONE
  of them has gone through its rows, Redis holds what a single start-up leaves, however far the
  others have come; and more start-ups leave it as it is (`start_ups_are_confluent`).

  What carries it: adding the record of a row adds one entry and removes none (`mem_addSeed`),
  because a record is stored under one score only.
-/
import RinhaBackend.ServiceRun

namespace Rinha

namespace StartUps

open CachedRepository InitializeRedis ServiceRun

section Commands

variable {json : TransactionJson} {db : Redis}

/-- Adding the record of a row adds its entry under its key, and removes nothing. -/
theorem mem_addSeed (h : ∀ key, Recorded json (db key)) (t : Transaction) (key : Text)
    (e : Nat ×ₗ Text) : e ∈ (saveInsert json db t key).entries ↔
      e ∈ (db key).entries ∨ key = getBankStatementKey t.accountId ∧ e = entryOf json t := by
  by_cases hkey : key = getBankStatementKey t.accountId
  · subst hkey
    rw [saveInsert_same, SortedSet.mem_add, and_iff_right rfl]
    constructor
    · rintro (rfl | ⟨hmem, -⟩)
      · exact Or.inr rfl
      · exact Or.inl hmem
    · rintro (hmem | rfl)
      · by_cases hm : SortedSet.member e = json.serialize t
        · refine Or.inl ?_
          rw [← SortedSet.entry_eta e, hm, (h _).score_eq hmem hm]
        · exact Or.inr ⟨hmem, hm⟩
      · exact Or.inl rfl
  · rw [saveInsert_other json db t hkey]
    constructor
    · exact Or.inl
    · rintro (hmem | ⟨hc, -⟩)
      · exact hmem
      · exact absurd hc hkey

theorem recorded_addSeed (h : ∀ key, Recorded json (db key)) (t : Transaction) (key : Text) :
    Recorded json (saveInsert json db t key) := (h key).saveInsert db t

/-- What records added one after another leave under a key. -/
theorem mem_foldl_addSeed (ts : List Transaction) (h : ∀ key, Recorded json (db key)) (key : Text)
    (e : Nat ×ₗ Text) : e ∈ (ts.foldl (addSeed json) db key).entries ↔
      e ∈ (db key).entries ∨
        ∃ t ∈ ts, key = getBankStatementKey t.accountId ∧ e = entryOf json t := by
  induction ts generalizing db with
  | nil => simp
  | cons t ts ih =>
    rw [List.foldl_cons, addSeed_eq_saveInsert, ih (recorded_addSeed h t), mem_addSeed h t key e,
      List.exists_mem_cons_iff, or_assoc]

/-- Databases with the same entries under every key are equal. -/
theorem eq_of_entries {db' : Redis}
    (h : ∀ key e, e ∈ (db key).entries ↔ e ∈ (db' key).entries) : db = db' := by
  funext key
  refine SortedSet.eq_of_toFinset_eq ?_
  ext e
  rw [SortedSet.mem_toFinset, SortedSet.mem_toFinset]
  exact h key e

end Commands

/-! ## Runs of start-ups -/

section Runs

variable {json : TransactionJson}

/-- The records of a table. -/
def seedsOf (table : List Row) : List Transaction := table.filterMap seed?

/-- What start-ups over `table` keep: they hold rows of the table, and between the cache they began
    with and the cache with all the records of the table, Redis holds at least the records of the
    rows a start-up is done with. -/
structure Filling (json : TransactionJson) (table : List Row) (db : Redis) (s : State) : Prop where
  recorded : ∀ key, Recorded json (s.posts.redis key)
  kept : ∀ key, ∀ e ∈ (db key).entries, e ∈ (s.posts.redis key).entries
  bounded : ∀ key, ∀ e ∈ (s.posts.redis key).entries, e ∈ (db key).entries ∨
    ∃ t ∈ seedsOf table, key = getBankStatementKey t.accountId ∧ e = entryOf json t
  rows : ∀ left ∈ s.startUps, left ⊆ table
  done : ∀ left ∈ s.startUps, ∀ row ∈ table, row ∈ left ∨ ∀ t, seed? row = some t →
    entryOf json t ∈ (s.posts.redis (getBankStatementKey t.accountId)).entries

/-- A start-up over dated rows is done with its first row, and has added its record if there is
    one. -/
theorem stepStartUp_dated {left rest : List Row} {db db' : Redis}
    (hdated : ∀ row ∈ left, row.descricao = none → row.realizadaEm ≠ none)
    (h : stepStartUp json left db = some (db', rest)) : ∃ row, left = row :: rest ∧
      (seed? row = none ∧ db' = db ∨ ∃ t, seed? row = some t ∧ db' = saveInsert json db t) := by
  cases left with
  | nil => cases h
  | cons row rows =>
    rw [stepStartUp] at h
    by_cases hdesc : row.descricao = none
    · obtain ⟨t, ht⟩ := Option.ne_none_iff_exists'.mp (hdated row List.mem_cons_self hdesc)
      rw [if_neg (not_not.mpr hdesc), ht] at h
      cases h
      refine ⟨row, rfl, Or.inr ⟨seedTransaction row t, ?_, rfl⟩⟩
      rw [seed?, if_pos hdesc, ht, Option.map_some]
    · rw [if_pos hdesc] at h
      cases h
      exact ⟨row, rfl, Or.inl ⟨if_neg hdesc, rfl⟩⟩

/-- What is left of a start-up over dated rows after a step of anyone: all of it, or all but its
    first row, whose record has been added. -/
theorem left_step {s s' : State} {a : Action} {i : Nat} {left : List Row}
    (hdated : ∀ row ∈ left, row.descricao = none → row.realizadaEm ≠ none)
    (hleft : s.startUps[i]? = some left) (h : step json s a = some s') :
    s'.startUps[i]? = some left ∨ ∃ row rest, left = row :: rest ∧ a = .startUp i ∧
      s'.startUps[i]? = some rest ∧
      ∀ t, seed? row = some t → s'.posts.redis = saveInsert json s.posts.redis t := by
  cases a with
  | post a =>
    obtain ⟨posts, -, rfl⟩ := step_post h
    exact Or.inl hleft
  | extrato j now =>
    obtain ⟨x, -, -, rfl⟩ := step_extrato h
    exact Or.inl hleft
  | startUp j =>
    obtain ⟨mine, db, rest, hmine, hstep, rfl⟩ := step_startUp h
    by_cases hij : j = i
    · subst hij
      obtain rfl := Option.some.inj (hmine.symm.trans hleft)
      obtain ⟨row, rfl, hrow⟩ := stepStartUp_dated hdated hstep
      refine Or.inr ⟨row, rest, rfl, rfl,
        List.getElem?_set_self (List.getElem?_eq_some_iff.mp hmine).1, fun t ht => ?_⟩
      rcases hrow with ⟨hnone, -⟩ | ⟨u, hu, rfl⟩
      · rw [hnone] at ht
        cases ht
      · rw [hu, Option.some.injEq] at ht
        rw [ht]
        rfl
    · refine Or.inl ?_
      rw [State.putStartUp]
      dsimp only
      rw [List.getElem?_set_ne hij]
      exact hleft

theorem filling_step {table : List Row} {db : Redis}
    (hdated : ∀ row ∈ table, row.descricao = none → row.realizadaEm ≠ none) {s s' : State}
    {i : Nat} (hI : Filling json table db s) (h : step json s (.startUp i) = some s') :
    Filling json table db s' := by
  obtain ⟨left, db', rest, hleft, hstep, rfl⟩ := step_startUp h
  have hmem : left ∈ s.startUps := List.mem_of_getElem? hleft
  have hsub := hI.rows left hmem
  obtain ⟨row, rfl, hrow⟩ := stepStartUp_dated (fun row hr => hdated row (hsub hr)) hstep
  have hrows : ∀ left' ∈ s.startUps.set i rest, left' ⊆ table := by
    intro left' hleft'
    rcases List.mem_or_eq_of_mem_set hleft' with hold | rfl
    · exact hI.rows left' hold
    · exact fun r hr => hsub (List.mem_cons_of_mem row hr)
  rcases hrow with ⟨hnone, rfl⟩ | ⟨t, hseed, rfl⟩
  · -- a row the query does not select
    refine ⟨hI.recorded, hI.kept, hI.bounded, hrows, fun left' hleft' r hr => ?_⟩
    rcases List.mem_or_eq_of_mem_set hleft' with hold | rfl
    · exact hI.done left' hold r hr
    · rcases hI.done _ hmem r hr with hin | hstored
      · rcases List.mem_cons.mp hin with rfl | hin
        · refine Or.inr fun t ht => ?_
          rw [hnone] at ht
          cases ht
        · exact Or.inl hin
      · exact Or.inr hstored
  · have hadd := mem_addSeed hI.recorded t
    have htable : t ∈ seedsOf table :=
      List.mem_filterMap.mpr ⟨row, hsub List.mem_cons_self, hseed⟩
    refine ⟨recorded_addSeed hI.recorded t, fun key e he => ?_, fun key e he => ?_, hrows,
      fun left' hleft' r hr => ?_⟩
    · exact (hadd key e).mpr (Or.inl (hI.kept key e he))
    · rcases (hadd key e).mp he with hold | ⟨hkey, rfl⟩
      · exact hI.bounded key e hold
      · exact Or.inr ⟨t, htable, hkey, rfl⟩
    · -- what was stored still is, and the row just left is too
      have hstays : ∀ u,
          entryOf json u ∈ (s.posts.redis (getBankStatementKey u.accountId)).entries →
          entryOf json u ∈ (saveInsert json s.posts.redis t
            (getBankStatementKey u.accountId)).entries :=
        fun u hu => (hadd _ _).mpr (Or.inl hu)
      rcases List.mem_or_eq_of_mem_set hleft' with hold | rfl
      · rcases hI.done left' hold r hr with hin | hstored
        · exact Or.inl hin
        · exact Or.inr fun u hu => hstays u (hstored u hu)
      · rcases hI.done _ hmem r hr with hin | hstored
        · rcases List.mem_cons.mp hin with rfl | hin
          · refine Or.inr fun u hu => ?_
            rw [hseed, Option.some.injEq] at hu
            subst hu
            exact (hadd _ _).mpr (Or.inr ⟨rfl, rfl⟩)
          · exact Or.inl hin
        · exact Or.inr fun u hu => hstays u (hstored u hu)

/-- **Start-ups are confluent and idempotent.**  Over a table with a time in every row the query
    selects, take any number of start-ups, each going through the rows in an order of its own, and
    any interleaving of their steps on any cache of records.  Once one of them has gone through its
    rows, Redis is what one start-up alone makes of it, and another start-up changes nothing. -/
theorem start_ups_are_confluent (json : TransactionJson) (table : List Row) (s s' : State)
    (hdated : ∀ row ∈ table, row.descricao = none → row.realizadaEm ≠ none)
    (hrecorded : ∀ key, Recorded json (s.posts.redis key))
    (hrows : ∀ rows ∈ s.startUps, rows.Perm table) (indices : List Nat)
    (hrun : Transition.run (step json) s (indices.map .startUp) = some s')
    (hdone : [] ∈ s'.startUps) :
    s'.posts.redis = (executeAsync json table s.posts.redis).1 ∧
      (executeAsync json table s'.posts.redis).1 = s'.posts.redis := by
  have hstart : Filling json table s.posts.redis s :=
    ⟨hrecorded, fun _ _ he => he, fun _ _ he => Or.inl he,
      fun rows hr => (hrows rows hr).subset,
      fun rows hr row hrow => Or.inl ((hrows rows hr).mem_iff.mpr hrow)⟩
  have hend : Filling json table s.posts.redis s' := by
    refine Transition.run_invariant_of (step json)
      (C := fun _ a => ∃ i, a = .startUp i) ?_ _ s s' hstart ?_ hrun
    · rintro m _ m' hI ⟨i, rfl⟩ h
      exact filling_step hdated hI h
    · refine Transition.allSteps_of_forall (step json) (fun a ha _ => ?_) s
      obtain ⟨i, -, rfl⟩ := List.mem_map.mp ha
      exact ⟨i, rfl⟩
  have hall : ∀ t ∈ seedsOf table,
      entryOf json t ∈ (s'.posts.redis (getBankStatementKey t.accountId)).entries := by
    intro t ht
    obtain ⟨row, hrow, hseed⟩ := List.mem_filterMap.mp ht
    rcases hend.done [] hdone row hrow with hin | hstored
    · cases hin
    · exact hstored t hseed
  constructor
  · refine eq_of_entries fun key e => ?_
    rw [executeAsync_of_dated json hdated, mem_foldl_addSeed _ hrecorded]
    constructor
    · exact hend.bounded key e
    · rintro (hold | ⟨t, ht, rfl, rfl⟩)
      · exact hend.kept key e hold
      · exact hall t ht
  · refine eq_of_entries fun key e => ?_
    rw [executeAsync_of_dated json hdated, mem_foldl_addSeed _ hend.recorded]
    constructor
    · rintro (hold | ⟨t, ht, rfl, rfl⟩)
      · exact hold
      · exact hall t ht
    · exact Or.inl

end Runs

/-- Two instances start over the rows of two accounts, each in its own order. -/
def twoStarting : State :=
  ⟨⟨Redis.empty, [], fun _ => 0, []⟩, [], [[seedRow, { seedRow with accountId := 2 }],
    [{ seedRow with accountId := 2 }, seedRow]]⟩

theorem start_ups_are_confluent_two :
    ∃ s', Transition.run (step systemTextJson) twoStarting ([1, 0, 0].map .startUp) = some s' ∧
      s'.posts.redis = (executeAsync systemTextJson [seedRow, { seedRow with accountId := 2 }]
        Redis.empty).1 := by
  have hdone : (Transition.run (step systemTextJson) twoStarting ([1, 0, 0].map .startUp)).any
      (fun s' => [] ∈ s'.startUps) = true := by decide +kernel
  obtain ⟨s', hrun, hnil⟩ := (Option.any_eq_true _ _).mp hdone
  refine ⟨s', hrun, (start_ups_are_confluent systemTextJson
    [seedRow, { seedRow with accountId := 2 }] twoStarting s' ?_ ?_ ?_ [1, 0, 0] hrun
    (of_decide_eq_true hnil)).1⟩
  · intro row hrow _
    rcases List.mem_pair.mp hrow with rfl | rfl <;> exact Option.some_ne_none _
  · exact fun _ _ he => by cases he
  · intro rows hrows
    rcases List.mem_pair.mp hrows with rfl | rfl
    · exact List.Perm.refl _
    · exact List.Perm.swap _ _ _

end StartUps

end Rinha
