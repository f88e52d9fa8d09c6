/-
  The part of Redis the backend talks to: one sorted set per key, and the three commands
  StackExchange.Redis sends for it (`ZADD`, `ZRANGE`/`ZREVRANGE`, `ZREMRANGEBYRANK`).  Each command
  is atomic, so a database is a function and a command a function on databases.

  Scores are doubles.  The only ones that occur come from converting `DateTime.Ticks`, a
  non-negative `long`, so a score is the integer value of that double: `ticksToDouble` rounds to
  53 significant bits, to nearest, ties to even.
-/
import Mathlib.Data.List.Lex
import Mathlib.Data.Char
import RinhaBackend.Models
import RinhaBackend.Lib.SortedSet

namespace Rinha

/-- The double nearest to a tick count, as an integer (ties to the even mantissa). -/
def ticksToDouble (n : Nat) : Nat :=
  if n < 2 ^ 53 then n
  else
    let e := n.log2 - 52
    let q := n / 2 ^ e
    let r := n % 2 ^ e
    if 2 * r < 2 ^ e then q * 2 ^ e
    else if 2 ^ e < 2 * r then (q + 1) * 2 ^ e
    else if q % 2 = 0 then q * 2 ^ e
    else (q + 1) * 2 ^ e

/-- The double is at most half a step of its binade away. -/
theorem ticksToDouble_error {n e : Nat} (hlow : 2 ^ (52 + e) ≤ n) (hhigh : n < 2 ^ (53 + e)) :
    2 * n ≤ 2 * ticksToDouble n + 2 ^ e ∧ 2 * ticksToDouble n ≤ 2 * n + 2 ^ e := by
  have hpos : 0 < 2 ^ (52 + e) := Nat.two_pow_pos _
  have hlog : n.log2 = 52 + e := (Nat.log2_eq_iff (by omega)).mpr
    ⟨hlow, by rwa [show 52 + e + 1 = 53 + e by omega]⟩
  have hdiv := Nat.div_add_mod' n (2 ^ e)
  have hmod := Nat.mod_lt n (Nat.two_pow_pos e)
  have hnext := Nat.add_one_mul (n / 2 ^ e) (2 ^ e)
  rw [ticksToDouble, hlog, show 52 + e - 52 = e by omega]
  dsimp only
  split
  · omega
  split
  · omega
  split
  · omega
  split <;> omega

/-- From 2^59 to 2^60, where the ticks of this millennium are, readings more than 128 ticks apart
    keep their order. -/
theorem ticksToDouble_lt_of_gap {n m : Nat} (hn : 2 ^ 59 ≤ n) (hm : m < 2 ^ 60)
    (hgap : n + 128 < m) : ticksToDouble n < ticksToDouble m := by
  have herrn := ticksToDouble_error (n := n) (e := 7) hn (by omega)
  have herrm := ticksToDouble_error (n := m) (e := 7) (by omega) hm
  omega

/-- The mantissa of the double, in units of its binade: up from a half on, or from more than a half
    if the mantissa below is even. -/
theorem ticksToDouble_eq {n e : Nat} (hlow : 2 ^ (52 + e) ≤ n) (hhigh : n < 2 ^ (53 + e)) :
    ticksToDouble n = (n / 2 ^ e + if 2 ^ e < 2 * (n % 2 ^ e) ∨
      2 ^ e = 2 * (n % 2 ^ e) ∧ n / 2 ^ e % 2 = 1 then 1 else 0) * 2 ^ e := by
  have hlog : n.log2 = 52 + e := (Nat.log2_eq_iff (by have := Nat.two_pow_pos (52 + e); omega)).mpr
    ⟨hlow, by rwa [show 52 + e + 1 = 53 + e by omega]⟩
  rw [ticksToDouble]
  split
  · next hsmall =>
    -- below 2^53 the unit is 1
    obtain rfl : e = 0 := by
      by_contra hne
      have hpow : 2 ^ 53 ≤ 2 ^ (52 + e) := Nat.pow_le_pow_right (by decide) (by omega)
      omega
    rw [pow_zero, Nat.div_one, Nat.mod_one, if_neg (by omega), mul_one, add_zero]
  · rw [hlog, show 52 + e - 52 = e by omega]
    dsimp only
    split
    · rw [if_neg (by omega), add_zero]
    · split
      · rw [if_pos (by omega)]
      · split
        · rw [if_neg (by omega), add_zero]
        · rw [if_pos (by omega)]

theorem ticksToDouble_bounds {n e : Nat} (hlow : 2 ^ (52 + e) ≤ n) (hhigh : n < 2 ^ (53 + e)) :
    2 ^ (52 + e) ≤ ticksToDouble n ∧ ticksToDouble n ≤ 2 ^ (53 + e) := by
  have hpos := Nat.two_pow_pos e
  have hleft : 2 ^ 52 ≤ n / 2 ^ e := by
    rw [Nat.le_div_iff_mul_le hpos, ← pow_add]
    exact hlow
  have hright : n / 2 ^ e < 2 ^ 53 := by
    rw [Nat.div_lt_iff_lt_mul hpos, ← pow_add]
    exact hhigh
  rw [ticksToDouble_eq hlow hhigh, pow_add, pow_add]
  constructor
  · exact Nat.mul_le_mul_right _ (by omega)
  · refine Nat.mul_le_mul_right _ ?_
    split <;> omega

theorem ticksToDouble_le_of_binade {n m e : Nat} (hlow : 2 ^ (52 + e) ≤ n) (hnm : n ≤ m)
    (hhigh : m < 2 ^ (53 + e)) : ticksToDouble n ≤ ticksToDouble m := by
  rw [ticksToDouble_eq hlow (hnm.trans_lt hhigh), ticksToDouble_eq (hlow.trans hnm) hhigh]
  refine Nat.mul_le_mul_right _ ?_
  rcases (Nat.div_le_div_right hnm : n / 2 ^ e ≤ m / 2 ^ e).eq_or_lt with heq | hlt
  · -- the same mantissa below: what is past it decides
    have hn := Nat.div_add_mod' n (2 ^ e)
    have hm := Nat.div_add_mod' m (2 ^ e)
    rw [← heq] at hm ⊢
    split
    · next hup => rw [if_pos (by omega)]
    · exact Nat.add_le_add_left (Nat.zero_le _) _
  · split <;> omega

theorem exists_binade {n : Nat} (h : 2 ^ 52 ≤ n) : ∃ e, 2 ^ (52 + e) ≤ n ∧ n < 2 ^ (53 + e) := by
  have hne : n ≠ 0 := by omega
  have hlog : 52 ≤ n.log2 := (Nat.le_log2 hne).mpr h
  refine ⟨n.log2 - 52, ?_, ?_⟩
  · rw [Nat.add_sub_cancel' hlog]
    exact Nat.log2_self_le hne
  · rw [show 53 + (n.log2 - 52) = n.log2 + 1 by omega]
    exact Nat.lt_log2_self

/-- **Scores keep the order of times**, if not strictly. -/
theorem ticksToDouble_mono {n m : Nat} (h : n ≤ m) : ticksToDouble n ≤ ticksToDouble m := by
  by_cases hn : n < 2 ^ 52
  · -- below 2^53 every tick is a double
    have hsame : ∀ k < 2 ^ 53, ticksToDouble k = k := fun k hk => if_pos hk
    rw [hsame n (by omega)]
    by_cases hm : m < 2 ^ 53
    · rw [hsame m hm]
      exact h
    · obtain ⟨e, hlow, hhigh⟩ := exists_binade (n := m) (by omega)
      have hpow : 2 ^ 52 ≤ 2 ^ (52 + e) := Nat.pow_le_pow_right (by decide) (by omega)
      have hbound := (ticksToDouble_bounds hlow hhigh).1
      omega
  · obtain ⟨e, hlow, hhigh⟩ := exists_binade (not_lt.mp hn)
    obtain ⟨f, hlow', hhigh'⟩ := exists_binade ((not_lt.mp hn).trans h)
    by_cases hef : e < f
    · have hpow : 2 ^ (53 + e) ≤ 2 ^ (52 + f) := Nat.pow_le_pow_right (by decide) (by omega)
      exact (ticksToDouble_bounds hlow hhigh).2.trans
        (hpow.trans (ticksToDouble_bounds hlow' hhigh').1)
    · have hpow : 2 ^ (53 + f) ≤ 2 ^ (53 + e) := Nat.pow_le_pow_right (by decide) (by omega)
      exact ticksToDouble_le_of_binade hlow h (hhigh'.trans_le hpow)
/-- The score of a record made at `t`. -/
def DateTime.score (t : DateTime) : Nat := ticksToDouble t.ticks

/-- A higher score is a later time. -/
theorem DateTime.ticks_lt_of_score {t u : DateTime} (h : t.score < u.score) : t.ticks < u.ticks :=
  lt_of_not_ge fun hle => not_lt.mpr (ticksToDouble_mono hle) h

/-- A sorted set of JSON texts. -/
abbrev RedisSet := SortedSet Nat Text

/-- A database; an absent key reads as the empty set. -/
abbrev Redis := Text → RedisSet

/-- `StackExchange.Redis.Order`. -/
inductive Order where
  | ascending | descending

namespace Redis

/-- The database with nothing in it. -/
def empty : Redis := fun _ => SortedSet.empty

/-- `SortedSetAddAsync`. -/
def sortedSetAdd (db : Redis) (key member : Text) (score : Nat) : Redis :=
  Function.update db key ((db key).add score member)

/-- `SortedSetRangeByRankAsync`. -/
def sortedSetRangeByRank (db : Redis) (key : Text) (start stop : Int) : Order → List Text
  | .ascending => (db key).rangeAscending start stop
  | .descending => (db key).rangeDescending start stop

/-- `SortedSetRemoveRangeByRankAsync`. -/
def sortedSetRemoveRangeByRank (db : Redis) (key : Text) (start stop : Int) : Redis :=
  Function.update db key ((db key).removeRange start stop)

variable (db : Redis) (key : Text)

@[simp] theorem sortedSetAdd_same (member : Text) (score : Nat) :
    db.sortedSetAdd key member score key = (db key).add score member := Function.update_self ..

/-- A command leaves every other key alone. -/
theorem sortedSetAdd_other {key' : Text} (h : key' ≠ key) (member : Text) (score : Nat) :
    db.sortedSetAdd key member score key' = db key' := Function.update_of_ne h ..

@[simp] theorem sortedSetRemoveRangeByRank_same (start stop : Int) :
    db.sortedSetRemoveRangeByRank key start stop key = (db key).removeRange start stop :=
  Function.update_self ..

theorem sortedSetRemoveRangeByRank_other {key' : Text} (h : key' ≠ key) (start stop : Int) :
    db.sortedSetRemoveRangeByRank key start stop key' = db key' := Function.update_of_ne h ..

end Redis

end Rinha
