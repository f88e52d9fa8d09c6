/-
  Printing and reading of text, piece by piece.

  A reader takes what it recognises from the front of the input and returns the rest.  A printer
  `p` is INVERTED by a reader `q` when `q` takes back what `p` wrote in front of any rest the
  format allows next; formats are sequences of such pieces, so a whole round trip is a chain of
  rewrites with the lemmas of this file.

  Pieces: fixed text, decimal naturals and integers, zero-padded fields of fixed width, and
  fractions written without their trailing zeros.
-/
import Mathlib.Data.List.TakeWhile
import Mathlib.Tactic.Ring

namespace TextFormat

/-- A reader: the value read off the front and what is left, or `none`. -/
abbrev Reader (α : Type) := List Char → Option (α × List Char)

/-- The rest of an input where a run of digits ends. -/
def EndsDigits (rest : List Char) : Prop := ∀ c, rest.head? = some c → c.isDigit = false

theorem endsDigits_cons {c : Char} {rest : List Char} (h : c.isDigit = false) :
    EndsDigits (c :: rest) := by
  intro d hd
  rw [List.head?_cons, Option.some.injEq] at hd
  rwa [← hd]

theorem endsDigits_nil : EndsDigits [] := fun _ h => nomatch h

theorem endsDigits_append {p rest : List Char} {c : Char} (hp : p.head? = some c)
    (hc : c.isDigit = false) : EndsDigits (p ++ rest) := by
  obtain ⟨q, rfl⟩ := List.head?_eq_some_iff.mp hp
  exact endsDigits_cons hc

/-! ## Fixed text -/

/-- Read exactly `p`. -/
def literal (p : List Char) : Reader Unit := fun s =>
  if p.isPrefixOf s then some ((), s.drop p.length) else none

@[simp] theorem literal_append (p rest : List Char) : literal p (p ++ rest) = some ((), rest) := by
  have h : p.isPrefixOf (p ++ rest) = true :=
    List.isPrefixOf_iff_prefix.mpr (List.prefix_append p rest)
  rw [literal, if_pos h, List.drop_left]

/-! ## Runs of digits -/

theorem takeWhile_digits {ds rest : List Char} (hds : ∀ c ∈ ds, c.isDigit = true)
    (hrest : EndsDigits rest) : (ds ++ rest).takeWhile Char.isDigit = ds := by
  rw [List.takeWhile_append_of_pos hds]
  cases rest with
  | nil => rw [List.takeWhile_nil, List.append_nil]
  | cons c rest =>
    rw [List.takeWhile_cons_of_neg (by rw [hrest c rfl]; decide), List.append_nil]

theorem dropWhile_digits {ds rest : List Char} (hds : ∀ c ∈ ds, c.isDigit = true)
    (hrest : EndsDigits rest) : (ds ++ rest).dropWhile Char.isDigit = rest := by
  rw [List.dropWhile_append_of_pos hds]
  cases rest with
  | nil => rfl
  | cons c rest => exact List.dropWhile_cons_of_neg (by rw [hrest c rfl]; decide)

/-- A run of digits as a natural number. -/
def readNat : Reader Nat := fun s =>
  if s.takeWhile Char.isDigit = [] then none
  else some (Nat.ofDigitChars 10 (s.takeWhile Char.isDigit) 0, s.dropWhile Char.isDigit)

theorem readNat_toDigits (n : Nat) {rest : List Char} (hrest : EndsDigits rest) :
    readNat (Nat.toDigits 10 n ++ rest) = some (n, rest) := by
  have hds : ∀ c ∈ Nat.toDigits 10 n, c.isDigit = true :=
    fun c hc => Nat.isDigit_of_mem_toDigits (by decide) (by decide) hc
  rw [readNat, takeWhile_digits hds hrest, dropWhile_digits hds hrest,
    if_neg Nat.toDigits_ne_nil, Nat.ofDigitChars_ten_toDigits]

/-! ## Integers -/

/-- Decimal text, with a leading minus when negative. -/
def printInt (z : Int) : List Char :=
  if z < 0 then '-' :: Nat.toDigits 10 z.natAbs else Nat.toDigits 10 z.natAbs

def readInt : Reader Int
  | '-' :: s => (readNat s).map fun r => (-(r.1 : Int), r.2)
  | s => (readNat s).map fun r => ((r.1 : Int), r.2)

/-- The minus sign is not a digit, so the unsigned branch reads the rest as a natural. -/
theorem readInt_of_digits {s : List Char} (h : s.head? ≠ some '-') :
    readInt s = (readNat s).map fun r => ((r.1 : Int), r.2) := by
  unfold readInt
  split
  · exact absurd rfl h
  · rfl

@[simp] theorem readInt_printInt (z : Int) {rest : List Char} (hrest : EndsDigits rest) :
    readInt (printInt z ++ rest) = some (z, rest) := by
  by_cases hz : z < 0
  · rw [printInt, if_pos hz, List.cons_append]
    show (readNat _).map _ = _
    rw [readNat_toDigits _ hrest, Option.map_some,
      show (-(z.natAbs : Int)) = z by omega]
  · rw [printInt, if_neg hz, readInt_of_digits, readNat_toDigits _ hrest, Option.map_some,
      show ((z.natAbs : Int)) = z by omega]
    intro hhead
    obtain ⟨c, cs, hcs⟩ :=
      List.exists_cons_of_ne_nil (Nat.toDigits_ne_nil (n := z.natAbs) (b := 10))
    rw [hcs, List.cons_append, List.head?_cons, Option.some.injEq] at hhead
    have hdigit : c.isDigit = true :=
      Nat.isDigit_of_mem_toDigits (by decide) (by decide) (hcs ▸ List.mem_cons_self)
    rw [hhead] at hdigit
    exact absurd hdigit (by decide)

theorem printInt_injective : Function.Injective printInt := by
  intro x y h
  have hx := readInt_printInt x endsDigits_nil
  rw [h, readInt_printInt y endsDigits_nil] at hx
  exact (Prod.mk.inj (Option.some.inj hx)).1.symm

/-! ## Fields of fixed width -/

/-- The last `k` decimal digits of `n`, zero-padded. -/
def padded : Nat → Nat → List Char
  | 0, _ => []
  | k + 1, n => padded k (n / 10) ++ [Nat.digitChar (n % 10)]

/-- Read exactly `k` digits. -/
def readPadded (k : Nat) : Reader Nat := fun s =>
  if (s.take k).length = k ∧ (s.take k).all Char.isDigit then
    some (Nat.ofDigitChars 10 (s.take k) 0, s.drop k)
  else none

@[simp] theorem length_padded (k n : Nat) : (padded k n).length = k := by
  induction k generalizing n with
  | zero => rfl
  | succ k ih => rw [padded, List.length_append, ih, List.length_singleton]

theorem padded_isDigit {k n : Nat} : ∀ c ∈ padded k n, c.isDigit = true := by
  induction k generalizing n with
  | zero => exact fun c hc => absurd hc List.not_mem_nil
  | succ k ih =>
    intro c hc
    rcases List.mem_append.mp hc with hc | hc
    · exact ih c hc
    · rw [List.mem_singleton.mp hc, Nat.isDigit_digitChar, decide_eq_true_eq]
      exact Nat.mod_lt _ (by decide)

theorem ofDigitChars_padded {k n : Nat} (h : n < 10 ^ k) :
    Nat.ofDigitChars 10 (padded k n) 0 = n := by
  induction k generalizing n with
  | zero =>
    rw [padded, Nat.ofDigitChars_nil]
    omega
  | succ k ih =>
    rw [padded, Nat.ofDigitChars_append, ih (by rw [Nat.pow_succ] at h; omega),
      Nat.ofDigitChars_cons_digitChar_of_lt_ten (Nat.mod_lt _ (by decide)), Nat.ofDigitChars_nil]
    omega

@[simp] theorem readPadded_padded {k n : Nat} (h : n < 10 ^ k) (rest : List Char) :
    readPadded k (padded k n ++ rest) = some (n, rest) := by
  have htake : (padded k n ++ rest).take k = padded k n := by
    rw [List.take_append_of_le_length (length_padded k n).ge, List.take_of_length_le]
    exact (length_padded k n).le
  have hdrop : (padded k n ++ rest).drop k = rest := List.drop_left' (length_padded k n)
  rw [readPadded, htake, hdrop, if_pos ⟨length_padded k n, List.all_eq_true.mpr padded_isDigit⟩,
    ofDigitChars_padded h]

/-- A field of `k` digits closed by the separator `sep`. -/
def readField (k : Nat) (sep : Char) : Reader Nat := fun s =>
  (readPadded k s).bind fun r => (literal [sep] r.2).map fun r' => (r.1, r'.2)

theorem readField_padded {k n : Nat} (h : n < 10 ^ k) (sep : Char) (rest : List Char) :
    readField k sep (padded k n ++ sep :: rest) = some (n, rest) := by
  rw [readField, readPadded_padded h, Option.bind_some]
  exact congrArg (Option.map _) (literal_append [sep] rest)

/-! ## Fractions without trailing zeros -/

/-- `l` without the zeros it ends in. -/
def trimZeros (l : List Char) : List Char := (l.reverse.dropWhile (· = '0')).reverse

/-- The zeros are all that is trimmed. -/
theorem trimZeros_append (l : List Char) :
    ∃ k, l = trimZeros l ++ List.replicate k '0' := by
  refine ⟨(l.reverse.takeWhile (· = '0')).length, ?_⟩
  have hzeros : l.reverse.takeWhile (· = '0')
      = List.replicate (l.reverse.takeWhile (· = '0')).length '0' := by
    refine List.eq_replicate_iff.mpr ⟨rfl, fun c hc => ?_⟩
    exact of_decide_eq_true (List.mem_takeWhile_imp (p := (· = '0')) hc)
  have hsplit := congrArg List.reverse
    (List.takeWhile_append_dropWhile (p := (· = '0')) (l := l.reverse))
  rw [List.reverse_append, List.reverse_reverse, hzeros, List.reverse_replicate] at hsplit
  rw [trimZeros]
  exact hsplit.symm

/-- `.` and the `k`-digit fraction `n` without trailing zeros; nothing when `n = 0`. -/
def printFraction (k n : Nat) : List Char :=
  if n = 0 then [] else '.' :: trimZeros (padded k n)

/-- Read a fraction back to `k` digits; no point means zero. -/
def readFraction (k : Nat) : Reader Nat
  | '.' :: s =>
    let ds := s.takeWhile Char.isDigit
    if ds.length ≤ k ∧ ds ≠ [] then
      some (Nat.ofDigitChars 10 ds 0 * 10 ^ (k - ds.length), s.dropWhile Char.isDigit)
    else none
  | s => some (0, s)

theorem readFraction_printFraction {k n : Nat} (h : n < 10 ^ k) {rest : List Char}
    (hrest : EndsDigits rest) (hpoint : rest.head? ≠ some '.') :
    readFraction k (printFraction k n ++ rest) = some (n, rest) := by
  by_cases hn : n = 0
  · rw [printFraction, if_pos hn, List.nil_append, hn]
    unfold readFraction
    split
    · exact absurd rfl hpoint
    · rfl
  · obtain ⟨z, hz⟩ := trimZeros_append (padded k n)
    have hds : ∀ c ∈ trimZeros (padded k n), c.isDigit = true := by
      intro c hc
      have hmem := List.mem_append_left (List.replicate z '0') hc
      rw [← hz] at hmem
      exact padded_isDigit c hmem
    have hlen := congrArg List.length hz
    rw [length_padded, List.length_append, List.length_replicate] at hlen
    have hval := ofDigitChars_padded h
    rw [hz, Nat.ofDigitChars_append, Nat.ofDigitChars_replicate_zero] at hval
    have hne : trimZeros (padded k n) ≠ [] := by
      intro hnil
      rw [hnil, Nat.ofDigitChars_nil, Nat.mul_zero] at hval
      exact hn hval.symm
    rw [printFraction, if_neg hn, List.cons_append]
    show (if _ ∧ _ then _ else _) = _
    rw [takeWhile_digits hds hrest, dropWhile_digits hds hrest, if_pos ⟨by omega, hne⟩,
      show k - (trimZeros (padded k n)).length = z by omega, Nat.mul_comm, hval]

end TextFormat
