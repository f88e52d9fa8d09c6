/-
  Reading one's own write, in sequential runs.

  The account is read from the record of highest rank, and ranks go by score and then by JSON text.
  The score is the tick count as a double, and a double has 53 bits where ticks need 60: readings
  up to 128 ticks (12.8 microseconds) apart can have one score.  Then the texts decide, from the
  digits of `valor` on, and the record just written can rank below the one before it.

  `reads_own_writes_iff` is the exact condition, request by request; `reads_own_writes_of_gap` is
  what it comes to for a clock that moves more than 128 ticks between requests.
-/
import RinhaBackend.SequentialRun

namespace Rinha

namespace ReadYourWrite

open CachedRepository SequentialRun

section Definitions

variable (json : TransactionJson) (k : Int32)

/-- A success on account `k` is read back: right after it the account has the limit and the balance
    of the response. -/
def ReadsOwnWrite (s : Stores) (p : Post) : Prop :=
  p.id = k → ∀ body, (servePost json s p).2 = .ok (.ok body) →
    ∃ account, getAccountByIdAsync json k (servePost json s p).1.redis = .ok (some account) ∧
      account.limite.toInt64 = body.limite ∧ account.saldo.toInt64 = body.saldo

/-- A request that is about to be accepted on account `k` makes a record that ranks above the one
    it reads, by score or by text, or it moves nothing. -/
def Outranks (s : Stores) (p : Post) : Prop :=
  p.id = k → ∀ u, (s.redis (getBankStatementKey k)).last? = some (entryOf json u) →
    TransactionService.Accepted json s k p.request u.account →
      u.realizadaEm.score < p.now.score ∨
        (u.realizadaEm.score = p.now.score ∧
          json.serialize u < json.serialize (u.account.execute p.request p.now).2) ∨
        p.request.valor = 0

end Definitions

/-! ## One request -/

section Steps

variable {json : TransactionJson} {k : Int32} {u t : Transaction} {p : Post} {s : Stores}

/-- A request leaves the balance as it is only if its amount is 0. -/
theorem saldo_eq_iff (h : Makes u p t) : u.saldo = t.saldo ↔ p.request.valor = 0 := by
  rw [h.made]
  by_cases hcredit : p.request.tipo = Transaction.credit
  · rw [Account.execute_saldo_credit _ _ _ hcredit, eq_comm]
    exact Int32.add_eq_left
  · rw [Account.execute_saldo_other _ _ _ hcredit, eq_comm, Int32.sub_eq_iff_eq_add, eq_comm]
    exact Int32.add_eq_left

/-- The rank of the record made against that of the record read. -/
theorem entryOf_lt_iff (h : Makes u p t) : entryOf json u < entryOf json t ↔
    u.realizadaEm.score < p.now.score ∨ (u.realizadaEm.score = p.now.score ∧
      json.serialize u < json.serialize (u.account.execute p.request p.now).2) := by
  rw [← h.made, ← h.realizadaEm]
  exact Prod.Lex.lt_iff

/-- **When a write is read back.**  After an accepted request the top record is the higher of the
    one it read and the one it made. -/
theorem readsOwnWrite_iff (hkeyed : Keyed json s.redis) :
    ReadsOwnWrite json k s p ↔ Outranks json k s p := by
  obtain ⟨-, ⟨hno, -⟩ | ⟨hid, u, t, hlast, -, hmakes, hout, hset⟩⟩ := servePost_cases hkeyed k p
  · -- no success on `k`: neither side says anything
    refine iff_of_true (fun hid body hout => ?_) fun hid u _ haccepted => ?_
    · rw [isAccepted_of_ok hid hout] at hno
      cases hno
    · rw [isAccepted_of_accepted hid haccepted] at hno
      cases hno
  have hlast' : ((servePost json s p).1.redis (getBankStatementKey k)).last?
      = some (max (entryOf json u) (entryOf json t)) := by
    rw [hset, SortedSet.last?_keepTop (by decide)]
    refine SortedSet.last?_add hlast fun hm => ?_
    rw [json.serialize_injective hm, score_entryOf]
  have hread : getAccountByIdAsync json k s.redis = .ok (some u.account) :=
    getAccountByIdAsync_of_last hlast
  have hright : Outranks json k s p ↔ entryOf json u < entryOf json t ∨ p.request.valor = 0 := by
    rw [entryOf_lt_iff hmakes, or_assoc]
    constructor
    · exact fun h => h hid u hlast ⟨hmakes.valid, hread, hmakes.nonempty, hmakes.can⟩
    · intro h _ v hv _
      rw [hlast] at hv
      obtain rfl := entryOf_injective json (Option.some.inj hv)
      exact h
  rw [hright, ReadsOwnWrite, hout]
  by_cases hlt : entryOf json u < entryOf json t
  · rw [max_eq_right hlt.le] at hlast'
    refine iff_of_true (fun _ body hbody => ?_) (Or.inl hlt)
    cases hbody
    exact ⟨_, getAccountByIdAsync_of_last hlast', rfl, rfl⟩
  · -- the record read stays on top, and is read again
    rw [max_eq_left (not_lt.mp hlt)] at hlast'
    rw [getAccountByIdAsync_of_last hlast', ← saldo_eq_iff hmakes]
    constructor
    · intro h
      obtain ⟨account, haccount, -, hsaldo⟩ := h hid _ rfl
      cases haccount
      have hsame := congrArg Int64.toInt hsaldo
      rw [Int32.toInt_toInt64, Int32.toInt_toInt64] at hsame
      exact Or.inr (Int32.toInt_inj.mp hsame)
    · rintro (hlt' | hsaldo) _ body hbody
      · exact absurd hlt' hlt
      · cases hbody
        exact ⟨_, rfl, by rw [hmakes.limite], by rw [hsaldo]⟩

end Steps

/-! ## Runs -/

/-- **When every write is read back.**  In any sequential run from a seeded cache, the account read
    after each success on `k` has the limit and the balance of that response if and only if each
    record ranks above the one it was made from: by score, or with equal scores by JSON text, or
    else its amount is 0. -/
theorem reads_own_writes_iff (json : TransactionJson) (k : Int32) (s : Stores) (posts : List Post)
    (hcache : SeededCache json s.redis) :
    EachRequest json (ReadsOwnWrite json k) s posts ↔
      EachRequest json (Outranks json k) s posts := by
  refine forall_congr' fun n => forall_congr' fun p => imp_congr_right fun _ => ?_
  exact readsOwnWrite_iff (serveAll_keyed hcache.keyed (posts.take n))

section Clocks

variable {json : TransactionJson} {k : Int32} {seed : Transaction}

/-- While scores increase, every record outranks the one it was made from. -/
theorem outranks_of_inOrder (posts : List Post) : ∀ {s : Stores} {ts : List Transaction},
    Keyed json s.redis → Window json k seed ts s.redis →
    InOrder k seed ts (serveAll json s posts).2 →
    EachRequest json (Outranks json k) s posts := by
  induction posts with
  | nil => exact fun _ _ _ n p hp => nomatch hp
  | cons p posts ih =>
    intro s ts hkeyed hwindow hinc
    rw [eachRequest_cons]
    obtain ⟨hkeyed', ⟨hno, hwindow', hinc'⟩ | ⟨-, t, -, -, hlt, hwindow', hinc'⟩⟩ :=
      window_step hkeyed hwindow hinc
    · refine ⟨fun hid u _ haccepted => ?_, ih hkeyed' hwindow' hinc'⟩
      rw [isAccepted_of_accepted hid haccepted] at hno
      cases hno
    · refine ⟨fun _ u hlast _ => Or.inl ?_, ih hkeyed' hwindow' hinc'⟩
      rw [hwindow.last?] at hlast
      rwa [← entryOf_injective json (Option.some.inj hlast)]

/-- **Every write is read back under a clock that moves more than 128 ticks** between the records of
    an account, from the years of which 2^59 and 2^60 ticks are the ends. -/
theorem reads_own_writes_of_gap {s : Stores} (posts : List Post) (hcache : SeededCache json s.redis)
    (hseed : (s.redis (getBankStatementKey k)).entries = [entryOf json seed])
    (hfrom : 2 ^ 59 ≤ seed.realizadaEm.ticks)
    (huntil : ∀ x ∈ accepted k (serveAll json s posts).2, x.post.now.ticks < 2 ^ 60)
    (hgap : (seed.realizadaEm.ticks :: (accepted k (serveAll json s posts).2).map
      fun x => x.post.now.ticks).Pairwise fun a b => a + 128 < b) :
    EachRequest json (ReadsOwnWrite json k) s posts := by
  have hinc : Increasing k seed (serveAll json s posts).2 := by
    obtain ⟨hfirst, hrest⟩ := List.pairwise_cons.mp hgap
    refine List.pairwise_cons.mpr ⟨fun y hy => ?_, ?_⟩
    · obtain ⟨x, hx, rfl⟩ := List.mem_map.mp hy
      exact ticksToDouble_lt_of_gap hfrom (huntil x hx) (hfirst _ (List.mem_map_of_mem hx))
    · rw [List.pairwise_map] at hrest ⊢
      refine hrest.imp_of_mem fun {x y} hx hy hxy => ?_
      have hge := hfirst _ (List.mem_map_of_mem hx)
      exact ticksToDouble_lt_of_gap (by omega) (huntil y hy) hxy
  have hranks := outranks_of_inOrder posts hcache.keyed (window_nil hseed) (inOrder_nil hinc)
  intro n p hp
  exact (readsOwnWrite_iff (serveAll_keyed hcache.keyed (posts.take n))).mpr (hranks n p hp)

end Clocks

theorem reads_own_writes_iff_credits : EachRequest systemTextJson (ReadsOwnWrite systemTextJson 1)
    TransactionService.seededStores (credits 2) :=
  (reads_own_writes_iff systemTextJson 1 TransactionService.seededStores (credits 2)
    (seedTable_seedRow.seededCache systemTextJson)).mpr
    (outranks_of_inOrder (credits 2) (seedTable_seedRow.seededCache systemTextJson).keyed
      (window_nil InitializeRedis.seededCache_entries)
      (by unfold InOrder; decide +kernel))

/-- A seed row of account 1 from the years a `DateTime.Now` is from. -/
def recentRow : Row :=
  ⟨1, none, 'c', 0, 0, 1000, some (.ofTicks 638000000000000000 .unspecified)⟩

/-- The stores after a start-up over that row. -/
def recentStores : Stores :=
  ⟨(InitializeRedis.executeAsync systemTextJson [recentRow] Redis.empty).1, [], 0⟩

/-- A credit of 9, and one tick later a credit of 10. -/
def nineThenTen : List Post :=
  [⟨1, ⟨9, 'c', some ['x']⟩, .ofTicks 638400000000000001 .localTime⟩,
    ⟨1, ⟨10, 'c', some ['x']⟩, .ofTicks 638400000000000002 .localTime⟩]

/-- The two records have one score and the text of the first ranks higher: the second credit is
    answered with balance 19, and the account is read with balance 9. -/
theorem second_write_is_not_read :
    ¬ ∀ (k : Int32) (seed : Transaction) (s : Stores) (posts : List Post),
      SeededCache systemTextJson s.redis →
      (s.redis (getBankStatementKey k)).entries = [entryOf systemTextJson seed] →
      (seed.realizadaEm.ticks :: (accepted k (serveAll systemTextJson s posts).2).map
        fun x => x.post.now.ticks).Pairwise (· < ·) →
      (∀ n ∈ seed.realizadaEm.ticks :: (accepted k (serveAll systemTextJson s posts).2).map
        fun x => x.post.now.ticks, 6 * 10 ^ 17 ≤ n ∧ n < 7 * 10 ^ 17) →
      EachRequest systemTextJson (ReadsOwnWrite systemTextJson k) s posts := by
  intro h
  have htable : SeedTable [recentRow] := ⟨fun _ => List.length_filter_le _ _, by decide⟩
  have hread := h 1 (InitializeRedis.seedTransaction recentRow
      (.ofTicks 638000000000000000 .unspecified)) recentStores nineThenTen
    (htable.seededCache systemTextJson) rfl (by decide +kernel) (by decide +kernel) 1 _ rfl rfl
  have hlast : (fun r : Stores × Except Fault (HttpResult TransactionResponse) =>
      r.2 = .ok (.ok ⟨1000, 19⟩) ∧
        getAccountByIdAsync systemTextJson 1 r.1.redis = .ok (some ⟨1, 1000, 9⟩))
      (servePost systemTextJson (serveAll systemTextJson recentStores (nineThenTen.take 1)).1
        ⟨1, ⟨10, 'c', some ['x']⟩, .ofTicks 638400000000000002 .localTime⟩) := by
    decide +kernel
  obtain ⟨hout, hnine⟩ := hlast
  obtain ⟨account, haccount, -, hsaldo⟩ := hread _ hout
  rw [hnine] at haccount
  cases haccount
  exact absurd hsaldo (by decide)

end ReadYourWrite

end Rinha
