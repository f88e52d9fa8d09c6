/-
  Account reads never go back.

  `GetAccountByIdAsync` takes its value from the highest-ranked member of the account's set, and
  while `Save`s add and trim in any order, with timestamps in any order, and restarted instances
  add their seeds again, that member only ever gives way to a higher one
  (`account_reads_never_go_back`).

  The one thing that could lower it is an add that gives it a lower score.  No writer does: the
  score of a member is a function of its text, the time inside it (`OwnScore`), and a `Cache` is a
  Redis where that is so.
-/
import RinhaBackend.SaveRun

namespace Rinha

namespace MonotonicReads

open CachedRepository InitializeRedis SaveRun

/-! ## Where a read takes its value from -/

/-- `GetAccountByIdAsync(k)` takes its value from the entry `e`: its member is the first of the
    descending ranks `0 .. 1`. -/
def TakesFrom (k : Int32) (db : Redis) (e : Nat ×ₗ Text) : Prop :=
  e ∈ (db (getBankStatementKey k)).entries ∧
    (db.sortedSetRangeByRank (getBankStatementKey k) 0 1 .descending).head?
      = some (SortedSet.member e)

/-- What `GetAccountByIdAsync` makes of the member it takes. -/
def accountOfMember (json : TransactionJson) (member : Text) : Except Fault (Option Account) :=
  if member.isEmpty then .ok none
  else match json.deserialize member with
    | none => .error .jsonException
    | some t => .ok (some ⟨t.accountId, t.limite, t.saldo⟩)

section Source

variable {json : TransactionJson} {k : Int32} {db : Redis} {e : Nat ×ₗ Text}

/-- The entry a read takes its value from is the highest-ranked one, and no other. -/
theorem takesFrom_iff : TakesFrom k db e ↔ (db (getBankStatementKey k)).last? = some e := by
  rw [TakesFrom, Redis.sortedSetRangeByRank, SortedSet.head?_rangeDescending]
  constructor
  · rintro ⟨hmem, hhead⟩
    obtain ⟨e', hlast, hmember⟩ := Option.map_eq_some_iff.mp hhead
    rw [hlast, SortedSet.entry_unique _ (SortedSet.mem_of_last? hlast) hmem hmember]
  · intro hlast
    exact ⟨SortedSet.mem_of_last? hlast, by rw [hlast, Option.map_some]⟩

/-- The value read is that of the member taken. -/
theorem getAccountByIdAsync_of_takesFrom (h : TakesFrom k db e) :
    getAccountByIdAsync json k db = accountOfMember json (SortedSet.member e) := by
  rw [getAccountByIdAsync, getAccountByIdCore, h.2]
  rfl

/-- The record of a transaction is read as an account. -/
theorem accountOfMember_entryOf (t : Transaction) :
    accountOfMember json (SortedSet.member (entryOf json t))
      = .ok (some ⟨t.accountId, t.limite, t.saldo⟩) := by
  rw [accountOfMember, member_entryOf, json.deserialize_serialize, if_neg]
  rw [List.isEmpty_iff]
  exact json.serialize_ne_nil t

end Source

/-! ## Caches -/

/-- A member that is the text of a transaction carries the score of that transaction. -/
def OwnScore (json : TransactionJson) (e : Nat ×ₗ Text) : Prop :=
  ∀ t, SortedSet.member e = json.serialize t → SortedSet.score e = t.realizadaEm.score

theorem ownScore_entryOf (json : TransactionJson) (t : Transaction) :
    OwnScore json (entryOf json t) := by
  intro u hu
  rw [json.serialize_injective hu, score_entryOf]

/-- A cache: a Redis whose members are scored by the time they carry.  Both writers, `Save` and
    the start-up service, score a member so; nothing else is asked of it. -/
structure Cache (json : TransactionJson) where
  redis : Redis
  ownScore : ∀ key, ∀ e ∈ (redis key).entries, OwnScore json e

/-- A Redis of records is a cache. -/
def Cache.ofRecords {json : TransactionJson} (redis : Redis)
    (h : ∀ key, Recorded json (redis key)) : Cache json where
  redis := redis
  ownScore key e he := by
    obtain ⟨t, rfl⟩ := h key e he
    exact ownScore_entryOf json t

/-- Both writers lead from a cache to a cache. -/
theorem cache_step {json : TransactionJson} (cache : Cache json) {saves : List Task} {s' : State}
    {a : Action} (h : step json ⟨cache.redis, saves⟩ a = some s') :
    ∃ cache' : Cache json, cache'.redis = s'.redis := by
  refine ⟨⟨s'.redis, fun key e he => ?_⟩, rfl⟩
  rcases step_redis h with ⟨t, -, hredis⟩ | ⟨t, hredis⟩
  · rw [hredis] at he
    rcases mem_saveInsert json cache.redis t he with rfl | hmem
    · exact ownScore_entryOf json t
    · exact cache.ownScore key e hmem
  · rw [hredis] at he
    exact cache.ownScore key e (mem_saveTrim cache.redis t he)

theorem cache_run {json : TransactionJson} (cache : Cache json) {saves : List Task} {s' : State}
    {actions : List Action}
    (hrun : Transition.run (step json) ⟨cache.redis, saves⟩ actions = some s') :
    ∃ cache' : Cache json, cache'.redis = s'.redis := by
  refine Transition.run_invariant (step json)
    (I := fun s => ∃ cache : Cache json, cache.redis = s.redis) ?_ ⟨cache, rfl⟩ hrun
  rintro ⟨_, saves⟩ a s' ⟨cache, rfl⟩ h
  exact cache_step cache h

/-! ## Runs -/

section Runs

variable {json : TransactionJson} {k : Int32} {e : Nat ×ₗ Text}

/-- The top of account `k` is `e`, or a record that came later and ranks above it. -/
def Above (json : TransactionJson) (k : Int32) (e : Nat ×ₗ Text) (db : Redis) : Prop :=
  ∃ e', (db (getBankStatementKey k)).last? = some e' ∧ e ≤ e' ∧
    (e' = e ∨ ∃ t, e' = entryOf json t)

theorem above_step (hown : OwnScore json e) {s s' : State} {a : Action}
    (hI : Above json k e s.redis) (h : step json s a = some s') : Above json k e s'.redis := by
  obtain ⟨e', hlast, hle, hfrom⟩ := hI
  rcases step_redis h with ⟨t, -, hredis⟩ | ⟨t, hredis⟩
  · rw [hredis]
    by_cases hk : t.accountId = k
    · -- the new top is the old one or the record added, whichever ranks higher
      have hsame : SortedSet.member e' = json.serialize t →
          SortedSet.score e' = t.realizadaEm.score := by
        rcases hfrom with rfl | ⟨u, rfl⟩
        · exact hown t
        · exact ownScore_entryOf json u t
      have htop := SortedSet.last?_add hlast hsame
      rw [← saveInsert_of_eq json s.redis t hk] at htop
      refine ⟨_, htop, hle.trans (le_max_left _ _), ?_⟩
      rcases max_choice e' (toLex (t.realizadaEm.score, json.serialize t)) with hmax | hmax
      · rw [hmax]
        exact hfrom
      · exact Or.inr ⟨t, hmax⟩
    · exact ⟨e', by rw [saveInsert_of_ne json s.redis t hk, hlast], hle, hfrom⟩
  · exact ⟨e', by rw [hredis, last?_saveTrim, hlast], hle, hfrom⟩

theorem above_run (hown : OwnScore json e) {s s' : State} {actions : List Action}
    (hI : Above json k e s.redis) (hrun : Transition.run (step json) s actions = some s') :
    Above json k e s'.redis :=
  Transition.run_invariant (step json) (I := fun s => Above json k e s.redis)
    (fun _ _ _ => above_step hown) hI hrun

/-- The top `e` starts every later comparison. -/
theorem above_self {db : Redis} (h : (db (getBankStatementKey k)).last? = some e) :
    Above json k e db := ⟨e, h, le_refl e, Or.inl rfl⟩

/-- **Account reads never go back.**  From any cache with a member for account `k`, at any point
    `m` of a run of `Save`s and re-seedings and any later point `s'`: the read at `m` takes its
    value from some member, the read at `s'` from one that ranks as high or higher, an account
    found at `m` is found at `s'`, and no trim at `m` removes the member it is read from. -/
theorem account_reads_never_go_back (json : TransactionJson) (k : Int32) (cache : Cache json)
    (hstored : (cache.redis (getBankStatementKey k)).entries ≠ []) (saves : List Task)
    (m s' : State) (actions later : List Action)
    (hrun : Transition.run (step json) ⟨cache.redis, saves⟩ actions = some m)
    (hlater : Transition.run (step json) m later = some s') :
    ∃ e e', TakesFrom k m.redis e ∧ TakesFrom k s'.redis e' ∧ e ≤ e' ∧
      (∀ account, getAccountByIdAsync json k m.redis = .ok (some account) →
        ∃ account', getAccountByIdAsync json k s'.redis = .ok (some account')) ∧
      ∀ t, TakesFrom k (saveTrim m.redis t) e := by
  obtain ⟨first, hfirst⟩ : ∃ first, (cache.redis (getBankStatementKey k)).last? = some first :=
    Option.ne_none_iff_exists'.mp fun hnone => hstored (List.getLast?_eq_none_iff.mp hnone)
  have hown := cache.ownScore _ first (SortedSet.mem_of_last? hfirst)
  obtain ⟨e, hlast, -, -⟩ := above_run hown (above_self hfirst) hrun
  -- at `m` there is a cache again, so its top carries its own score too
  obtain ⟨middle, hmiddle⟩ := cache_run cache hrun
  rw [← hmiddle] at hlast
  have howne := middle.ownScore _ e (SortedSet.mem_of_last? hlast)
  rw [hmiddle] at hlast
  obtain ⟨e', hlast', hle, hfrom'⟩ := above_run howne (above_self hlast) hlater
  have htakes := takesFrom_iff.mpr hlast
  have htakes' := takesFrom_iff.mpr hlast'
  refine ⟨e, e', htakes, htakes', hle, fun account haccount => ?_, fun t => ?_⟩
  · rw [getAccountByIdAsync_of_takesFrom htakes']
    rw [getAccountByIdAsync_of_takesFrom htakes] at haccount
    rcases hfrom' with rfl | ⟨t, rfl⟩
    · exact ⟨account, haccount⟩
    · exact ⟨_, accountOfMember_entryOf t⟩
  · rw [takesFrom_iff, last?_saveTrim]
    exact hlast

end Runs

/-- The cache after a start-up over the row of account 1. -/
def seedCache : Cache systemTextJson := Cache.ofRecords seededCache fun key e he => by
  rcases mem_saveInsert systemTextJson Redis.empty _ he with rfl | hmem
  · exact ⟨_, rfl⟩
  · cases hmem

theorem account_reads_never_go_back_two :
    ∃ m s' e e',
      Transition.run (step systemTextJson) (freshSaves seededCache 2) [.save 1] = some m ∧
      Transition.run (step systemTextJson) m [.save 0, .save 0, .save 1] = some s' ∧
        TakesFrom 1 m.redis e ∧ TakesFrom 1 s'.redis e' ∧ e ≤ e' := by
  have hstored : (seedCache.redis (getBankStatementKey 1)).entries ≠ [] := by decide
  obtain ⟨m, hrun⟩ : ∃ m, Transition.run (step systemTextJson) (freshSaves seededCache 2)
      [.save 1] = some m := ⟨_, rfl⟩
  obtain ⟨s', hlater⟩ : ∃ s', Transition.run (step systemTextJson) m
      [.save 0, .save 0, .save 1] = some s' := by
    cases hrun
    exact ⟨_, rfl⟩
  obtain ⟨e, e', htakes, htakes', hle, -⟩ := account_reads_never_go_back systemTextJson 1 seedCache
    hstored _ m s' [.save 1] [.save 0, .save 0, .save 1] hrun hlater
  exact ⟨m, s', e, e', hrun, hlater, htakes, htakes', hle⟩

end MonotonicReads

end Rinha
