/-
  The `Transactions` table (`create-tables.sql`) and what its columns take.

  A value is sent as the type the code names for its parameter (`NpgsqlDbType`) and then assigned to
  the column.  Both INSERTs of the backend name the same seven columns, so they differ in the values
  they send (`InsertCommand`) and not in what Postgres does with them (`insertRow`).

  Postgres counts CHARACTERS, which are Unicode scalar values; what is longer than the column is
  refused unless all that goes over is blanks, which it drops; and no text may contain U+0000.
-/
import RinhaBackend.InitializeRedis

namespace Rinha

namespace Table

/-! ## Columns -/

/-- The character no text of Postgres can contain. -/
def nul : Char := Char.ofNat 0

/-- A text put into a `VARCHAR(n)` column; `none` is refused. -/
def varchar (n : Nat) (s : Text) : Option Text :=
  if nul ∈ s then none
  else if (s.drop n).all (· = ' ') then some (s.take n)
  else none

/-- A text put into a `CHAR(1)` column, which pads with blanks. -/
def char (s : Text) : Option Char := (varchar 1 s).map fun t => t.headD ' '

/-- A number put into an `INTEGER` column. -/
def integer (z : Int) : Option Int32 := if InInt32 z then some (Int32.ofInt z) else none

/-- The values an INSERT sends. -/
structure InsertCommand where
  accountId : Int
  limite : Int
  saldo : Int
  realizadaEm : DateTime
  tipo : Text
  valor : Int
  descricao : Text

/-- The row an INSERT adds; `none` is the exception of a column that refuses its value. -/
def insertRow (p : InsertCommand) : Option Row := do
  let accountId ← integer p.accountId
  let descricao ← varchar 10 p.descricao
  let tipo ← char p.tipo
  let valor ← integer p.valor
  let saldo ← integer p.saldo
  let limite ← integer p.limite
  return ⟨accountId, some descricao, tipo, valor, saldo, limite, some p.realizadaEm⟩

/-! ## Times -/

/-- The ticks of a day. -/
def dayTicks : Nat := 864000000000

/-- `NpgsqlDbType.Date`: the calendar date, which the column then takes as its midnight. -/
def date (t : DateTime) : DateTime := .ofTicks (t.ticks / dayTicks * dayTicks) .unspecified

/-- The ticks at 2000-01-01, from which Postgres counts. -/
def epochTicks : Nat := 630822816000000000

/-- `NpgsqlDbType.Timestamp`: whole microseconds, cut off towards 2000.  A time in UTC is refused,
    the column being without a time zone. -/
def timestamp (t : DateTime) : Option DateTime :=
  if t.kind = .utc then none
  else if epochTicks ≤ t.ticks then some (.ofTicks (t.ticks / 10 * 10) .unspecified)
  else some (.ofTicks ((t.ticks + 9) / 10 * 10) .unspecified)

/-! ## What the columns keep -/

/-- A C# `int` fits. -/
@[simp] theorem integer_toInt (x : Int32) : integer x.toInt = some x := by
  rw [integer, if_pos (inInt32_toInt x), Int32.ofInt_toInt]

/-- A text is kept as it is if it is not too long, and refused only for U+0000. -/
theorem varchar_of_length_le {n : Nat} {s : Text} (h : s.length ≤ n) :
    varchar n s = if nul ∈ s then none else some s := by
  rw [varchar, List.drop_of_length_le h, List.take_of_length_le h]
  rfl

/-- What a column has taken is no longer than the column, and is the text itself unless that was
    too long. -/
theorem of_varchar {n : Nat} {s t : Text} (h : varchar n s = some t) :
    t = s.take n ∧ nul ∉ s := by
  rw [varchar] at h
  split at h
  · cases h
  · next hnul =>
    split at h
    · cases h
      exact ⟨rfl, hnul⟩
    · cases h

theorem char_singleton (c : Char) : char [c] = if c = nul then none else some c := by
  rw [char, varchar_of_length_le (by rfl)]
  by_cases hc : c = nul
  · rw [if_pos hc, if_pos (List.mem_singleton.mpr hc.symm), Option.map_none]
  · rw [if_neg hc, if_neg fun hmem => hc (List.mem_singleton.mp hmem).symm]
    rfl

theorem date_ticks (t : DateTime) : (date t).ticks = t.ticks / dayTicks * dayTicks :=
  Nat.min_eq_left ((Nat.div_mul_le_self _ _).trans t.ticks_le)

end Table

end Rinha
