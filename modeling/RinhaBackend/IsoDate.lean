/-
  The ISO 8601 text `System.Text.Json` writes for a `DateTime`, and its reader.

  `yyyy-MM-ddTHH:mm:ss`, then the seven digits of the ticks below one second without trailing
  zeros, then the kind: nothing for `Unspecified`, `Z` for `Utc`, and the offset for `Local`,
  which in the deployed containers (time zone UTC) is `+00:00`.

  `readDateTime_printDateTime` is the round trip.  Its content is calendar arithmetic: the days
  since 0001-01-01 are split into 400-, 100-, 4- and 1-year cycles (`yearAndDay`) and then into
  months, and `daysBeforeYear` undoes the split.
-/
import RinhaBackend.Models
import RinhaBackend.Lib.TextFormat

namespace Rinha.IsoDate

open TextFormat

/-! ## The calendar -/

def isLeapYear (y : Nat) : Bool := y % 4 = 0 ∧ (y % 100 ≠ 0 ∨ y % 400 = 0)

/-- Days from 0001-01-01 to the first day of year `y`. -/
def daysBeforeYear (y : Nat) : Nat := 365 * (y - 1) + (y - 1) / 4 - (y - 1) / 100 + (y - 1) / 400

/-- The year of a day, and the position of the day in it, from 0. -/
def yearAndDay (days : Nat) : Nat × Nat :=
  let r400 := days % 146097
  -- the last day of a cycle would count as a fifth century, or a fifth year: hence each `min`
  let n100 := min (r400 / 36524) 3
  let r100 := r400 - n100 * 36524
  let r4 := r100 % 1461
  let n1 := min (r4 / 365) 3
  (400 * (days / 146097) + 100 * n100 + 4 * (r100 / 1461) + n1 + 1, r4 - n1 * 365)

def daysInYear (y : Nat) : Nat := if isLeapYear y then 366 else 365

/-- The cycle lengths add up: `yearAndDay` splits the days without loss, inside the year. -/
theorem yearAndDay_spec (days : Nat) :
    daysBeforeYear (yearAndDay days).1 + (yearAndDay days).2 = days ∧
      (yearAndDay days).2 < daysInYear (yearAndDay days).1 := by
  obtain ⟨a, ha⟩ : ∃ a, a = days / 146097 := ⟨_, rfl⟩
  obtain ⟨r, hr⟩ : ∃ r, r = days % 146097 := ⟨_, rfl⟩
  obtain ⟨b, hb⟩ : ∃ b, b = min (r / 36524) 3 := ⟨_, rfl⟩
  obtain ⟨c, hc⟩ : ∃ c, c = (r - b * 36524) / 1461 := ⟨_, rfl⟩
  obtain ⟨q, hq⟩ : ∃ q, q = (r - b * 36524) % 1461 := ⟨_, rfl⟩
  obtain ⟨d, hd⟩ : ∃ d, d = min (q / 365) 3 := ⟨_, rfl⟩
  have hsplit : yearAndDay days = (400 * a + 100 * b + 4 * c + d + 1, q - d * 365) := by
    rw [yearAndDay, ← ha, ← hr, ← hb, ← hc, ← hq, ← hd]
  have hdays : days = 146097 * a + r := by omega
  have hrb : r < 146097 := by omega
  have hr4 : r = b * 36524 + c * 1461 + q := by omega
  have hc24 : c ≤ 24 := by omega
  have hb3 : b ≤ 3 := by omega
  have hd3 : d ≤ 3 := by omega
  have hq1 : q < 1461 := by omega
  rw [hsplit]
  constructor
  · have h4 : (400 * a + 100 * b + 4 * c + d) / 4 = 100 * a + 25 * b + c := by omega
    have h100 : (400 * a + 100 * b + 4 * c + d) / 100 = 4 * a + b := by omega
    have h400 : (400 * a + 100 * b + 4 * c + d) / 400 = a := by omega
    rw [daysBeforeYear, show 400 * a + 100 * b + 4 * c + d + 1 - 1 = 400 * a + 100 * b + 4 * c + d
      by omega, h4, h100, h400]
    omega
  · -- only the last year of a 4-year cycle can have 366 days
    rw [daysInYear, isLeapYear]
    by_cases hleap : d = 3 ∧ (c ≠ 24 ∨ b = 3)
    · rw [if_pos (by rw [decide_eq_true_eq]; omega)]
      omega
    · rw [if_neg (by rw [decide_eq_true_eq]; omega)]
      omega

/-- The years of the `DateTime` range have four digits. -/
theorem yearAndDay_lt {days : Nat} (h : days ≤ 3652058) : (yearAndDay days).1 < 10000 := by
  rw [yearAndDay]
  dsimp only
  omega

def monthLengths (leap : Bool) : List Nat :=
  [31, if leap then 29 else 28, 31, 30, 31, 30, 31, 31, 30, 31, 30, 31]

/-- Month (counted from `m`) and day of the month of the day at position `d`. -/
def monthAndDay (m : Nat) : List Nat → Nat → Nat × Nat
  | [], d => (m, d + 1)
  | len :: ls, d => if d < len then (m, d + 1) else monthAndDay (m + 1) ls (d - len)

/-- Month and day sit inside the given months and determine the position. -/
theorem monthAndDay_spec : ∀ (ls : List Nat) (m d : Nat), d < ls.sum →
    m ≤ (monthAndDay m ls d).1 ∧ (monthAndDay m ls d).1 < m + ls.length ∧
      1 ≤ (monthAndDay m ls d).2 ∧
      (∃ len, ls[(monthAndDay m ls d).1 - m]? = some len ∧ (monthAndDay m ls d).2 ≤ len) ∧
      (ls.take ((monthAndDay m ls d).1 - m)).sum + ((monthAndDay m ls d).2 - 1) = d
  | [], _, d, h => absurd h (Nat.not_lt_zero d)
  | len :: ls, m, d, h => by
    rw [monthAndDay]
    by_cases hd : d < len
    · rw [if_pos hd]
      exact ⟨Nat.le_refl m, by rw [List.length_cons]; omega, by omega,
        ⟨len, by rw [Nat.sub_self, List.getElem?_cons_zero], hd⟩, by simp⟩
    · rw [if_neg hd]
      rw [List.sum_cons] at h
      obtain ⟨h1, h2, h3, ⟨k, hk, hle⟩, h5⟩ := monthAndDay_spec ls (m + 1) (d - len) (by omega)
      have hidx : (monthAndDay (m + 1) ls (d - len)).1 - m
          = (monthAndDay (m + 1) ls (d - len)).1 - (m + 1) + 1 := by omega
      refine ⟨by omega, by rw [List.length_cons]; omega, h3, ⟨k, ?_, hle⟩, ?_⟩
      · rw [hidx, List.getElem?_cons_succ, hk]
      · rw [hidx, List.take_succ_cons, List.sum_cons]
        omega

theorem monthLengths_sum (y : Nat) : (monthLengths (isLeapYear y)).sum = daysInYear y := by
  rw [daysInYear]
  cases isLeapYear y <;> rfl

theorem monthLengths_le {leap : Bool} {i len : Nat} (h : (monthLengths leap)[i]? = some len) :
    len ≤ 31 := by
  have hmem := List.mem_of_getElem? h
  cases leap
  · exact (show ∀ x ∈ monthLengths false, x ≤ 31 by decide) len hmem
  · exact (show ∀ x ∈ monthLengths true, x ≤ 31 by decide) len hmem

/-! ## The text -/

def ticksPerDay : Nat := 864000000000

/-- The suffix that shows the kind. -/
def printKind : DateTimeKind → List Char
  | .unspecified => []
  | .utc => ['Z']
  | .localTime => "+00:00".toList

/-- The calendar fields of a moment. -/
structure Fields where
  year : Nat
  month : Nat
  day : Nat
  hour : Nat
  minute : Nat
  second : Nat
  fraction : Nat
  kind : DateTimeKind

/-- The fields of a `DateTime`. -/
def fieldsOf (t : DateTime) : Fields :=
  let day := yearAndDay (t.ticks / ticksPerDay)
  let date := monthAndDay 1 (monthLengths (isLeapYear day.1)) day.2
  let time := t.ticks % ticksPerDay
  ⟨day.1, date.1, date.2, time / 36000000000, time / 600000000 % 60, time / 10000000 % 60,
    time % 10000000, t.kind⟩

def printFields (f : Fields) : List Char :=
  padded 4 f.year ++ ('-' :: (padded 2 f.month ++ ('-' :: (padded 2 f.day ++ ('T' ::
    (padded 2 f.hour ++ (':' :: (padded 2 f.minute ++ (':' :: (padded 2 f.second ++
    (printFraction 7 f.fraction ++ printKind f.kind)))))))))))

/-- `Utf8JsonWriter.WriteStringValue(DateTime)`, without the quotes. -/
def printDateTime (t : DateTime) : List Char := printFields (fieldsOf t)

/-- The kind, up to the closing quote. -/
def readKind : Reader DateTimeKind
  | 'Z' :: s => some (.utc, s)
  | '+' :: s => (literal "00:00".toList s).map fun r => (.localTime, r.2)
  | s => some (.unspecified, s)

/-- The moment some fields name, if they name one. -/
def ofFields (f : Fields) : Option DateTime :=
  match (monthLengths (isLeapYear f.year))[f.month - 1]? with
  | none => none
  | some len =>
    let ticks := (daysBeforeYear f.year
      + ((monthLengths (isLeapYear f.year)).take (f.month - 1)).sum + (f.day - 1)) * ticksPerDay
      + (f.hour * 36000000000 + f.minute * 600000000 + f.second * 10000000 + f.fraction)
    if h : (1 ≤ f.year ∧ 1 ≤ f.month ∧ 1 ≤ f.day ∧ f.day ≤ len ∧ f.hour < 24 ∧ f.minute < 60
        ∧ f.second < 60) ∧ ticks ≤ maxTicks then
      some ⟨ticks, f.kind, h.2⟩
    else none

def readFields : Reader Fields := fun s => do
  let (year, s) ← readField 4 '-' s
  let (month, s) ← readField 2 '-' s
  let (day, s) ← readField 2 'T' s
  let (hour, s) ← readField 2 ':' s
  let (minute, s) ← readField 2 ':' s
  let (second, s) ← readPadded 2 s
  let (fraction, s) ← readFraction 7 s
  let (kind, s) ← readKind s
  some (⟨year, month, day, hour, minute, second, fraction, kind⟩, s)

/-- `Utf8JsonReader.GetDateTime`, without the quotes. -/
def readDateTime : Reader DateTime := fun s => do
  let (fields, s) ← readFields s
  let t ← ofFields fields
  some (t, s)

/-! ## The round trip -/

theorem readKind_printKind (k : DateTimeKind) (rest : List Char) :
    readKind (printKind k ++ '"' :: rest) = some (k, '"' :: rest) := by
  cases k with
  | unspecified => rfl
  | utc => rfl
  | localTime => rfl

theorem printKind_endsDigits (k : DateTimeKind) (rest : List Char) :
    EndsDigits (printKind k ++ '"' :: rest) := by
  cases k with
  | unspecified => exact endsDigits_cons (by decide)
  | utc => exact endsDigits_cons (by decide)
  | localTime => exact endsDigits_cons (by decide)

theorem printKind_ne_point (k : DateTimeKind) (rest : List Char) :
    (printKind k ++ '"' :: rest).head? ≠ some '.' := by
  cases k with
  | unspecified => exact fun h => absurd (Option.some.inj h) (by decide)
  | utc => exact fun h => absurd (Option.some.inj h) (by decide)
  | localTime => exact fun h => absurd (Option.some.inj h) (by decide)

/-- Fields that fit their columns are read back. -/
theorem readFields_printFields (f : Fields) (hyear : f.year < 10 ^ 4) (hmonth : f.month < 10 ^ 2)
    (hday : f.day < 10 ^ 2) (hhour : f.hour < 10 ^ 2) (hminute : f.minute < 10 ^ 2)
    (hsecond : f.second < 10 ^ 2) (hfraction : f.fraction < 10 ^ 7) (rest : List Char) :
    readFields (printFields f ++ '"' :: rest) = some (f, '"' :: rest) := by
  have hfrac := readFraction_printFraction hfraction (printKind_endsDigits f.kind rest)
    (printKind_ne_point f.kind rest)
  simp only [readFields, printFields, List.append_assoc, List.cons_append,
    readField_padded hyear, readField_padded hmonth, readField_padded hday,
    readField_padded hhour, readField_padded hminute, readPadded_padded hsecond, hfrac,
    readKind_printKind, Option.bind_eq_bind, Option.bind_some]

/-- Year, month and day of a moment, with what the split says about them. -/
theorem fieldsOf_date (t : DateTime) :
    1 ≤ (fieldsOf t).year ∧ (fieldsOf t).year < 10 ^ 4 ∧ 1 ≤ (fieldsOf t).month ∧
      (fieldsOf t).month ≤ 12 ∧ 1 ≤ (fieldsOf t).day ∧
      (∃ len, (monthLengths (isLeapYear (fieldsOf t).year))[(fieldsOf t).month - 1]? = some len ∧
        (fieldsOf t).day ≤ len) ∧
      daysBeforeYear (fieldsOf t).year
        + ((monthLengths (isLeapYear (fieldsOf t).year)).take ((fieldsOf t).month - 1)).sum
        + ((fieldsOf t).day - 1) = t.ticks / ticksPerDay := by
  have hdays : t.ticks / ticksPerDay ≤ 3652058 := by
    have := t.ticks_le
    rw [maxTicks] at this
    rw [ticksPerDay]
    omega
  obtain ⟨hsum, hlt⟩ := yearAndDay_spec (t.ticks / ticksPerDay)
  rw [← monthLengths_sum] at hlt
  obtain ⟨hm1, hm12, hd1, hlen, hpos⟩ := monthAndDay_spec _ 1 _ hlt
  have hcount : (monthLengths (isLeapYear (yearAndDay (t.ticks / ticksPerDay)).1)).length = 12 :=
    rfl
  refine ⟨Nat.succ_pos _, yearAndDay_lt hdays, hm1, ?_, hd1, hlen, ?_⟩
  · show (monthAndDay 1 _ _).1 ≤ 12
    omega
  · rw [Nat.add_assoc]
    exact (congrArg _ hpos).trans hsum

/-- **The fields name the moment they were taken from.** -/
theorem ofFields_fieldsOf (t : DateTime) : ofFields (fieldsOf t) = some t := by
  obtain ⟨hyear, -, hm1, -, hd1, ⟨len, hlen, hdlen⟩, hdays⟩ := fieldsOf_date t
  have htime : t.ticks % ticksPerDay < 864000000000 := Nat.mod_lt _ (by decide)
  have hsum : (fieldsOf t).hour * 36000000000 + (fieldsOf t).minute * 600000000
      + (fieldsOf t).second * 10000000 + (fieldsOf t).fraction = t.ticks % ticksPerDay := by
    simp only [fieldsOf]
    omega
  have hticks : t.ticks / ticksPerDay * ticksPerDay + t.ticks % ticksPerDay = t.ticks :=
    Nat.div_add_mod' t.ticks ticksPerDay
  have hhour : (fieldsOf t).hour < 24 := by
    simp only [fieldsOf]
    omega
  have hminute : (fieldsOf t).minute < 60 := Nat.mod_lt _ (by decide)
  have hsecond : (fieldsOf t).second < 60 := Nat.mod_lt _ (by decide)
  simp only [ofFields, hlen, hdays, hsum, hticks]
  exact dif_pos ⟨⟨hyear, hm1, hd1, hdlen, hhour, hminute, hsecond⟩, t.ticks_le⟩

/-- **Round trip of a `DateTime`**, in front of the closing quote. -/
theorem readDateTime_printDateTime (t : DateTime) (rest : List Char) :
    readDateTime (printDateTime t ++ '"' :: rest) = some (t, '"' :: rest) := by
  obtain ⟨-, hyear, -, hmonth, -, ⟨len, hlen, hdlen⟩, -⟩ := fieldsOf_date t
  have hlen31 := monthLengths_le hlen
  have htime : t.ticks % ticksPerDay < 864000000000 := Nat.mod_lt _ (by decide)
  have hhour : (fieldsOf t).hour < 10 ^ 2 := by
    simp only [fieldsOf]
    omega
  have hminute : (fieldsOf t).minute < 60 := Nat.mod_lt _ (by decide)
  have hsecond : (fieldsOf t).second < 60 := Nat.mod_lt _ (by decide)
  have hfraction : (fieldsOf t).fraction < 10 ^ 7 := Nat.mod_lt _ (by decide)
  rw [readDateTime, printDateTime, readFields_printFields _ hyear (by omega) (by omega) hhour
    (by omega) (by omega) hfraction, Option.bind_eq_bind, Option.bind_some]
  dsimp only
  rw [ofFields_fieldsOf]
  rfl

end Rinha.IsoDate
