/-
  `System.Text.Json` as the backend uses it: `JsonSerializer.Serialize` of a `Transaction` and
  `Deserialize` to `Transaction` and to `BankStatementTransaction`.

  The results about the cache hold for EVERY serializer that reads back what it wrote, and are
  stated over `TransactionJson`, which packages exactly that.  `systemTextJson` is the concrete
  one: the text the default options produce (declared property names in declared order, the
  default JavaScript encoder, ISO dates), with a reader for texts of that shape.  It is what a
  stored member really looks like, and what the concrete runs of the later files compute with.
-/
import RinhaBackend.IsoDate

namespace Rinha

/-- A serializer of transactions: the text, and the two ways the cache reads a text back
    (`none` is the exception a text of another shape raises). -/
structure TransactionJson where
  serialize : Transaction → Text
  deserialize : Text → Option Transaction
  deserializeListed : Text → Option BankStatementTransaction
  /-- Round trip. -/
  deserialize_serialize : ∀ t, deserialize (serialize t) = some t
  /-- The narrower record reads its own four properties and skips the others. -/
  deserializeListed_serialize : ∀ t, deserializeListed (serialize t) = some t.listed
  /-- The text of an object is never empty. -/
  serialize_ne_nil : ∀ t, serialize t ≠ []

/-- Different transactions have different texts. -/
theorem TransactionJson.serialize_injective (json : TransactionJson) :
    Function.Injective json.serialize := by
  intro t u h
  have ht := json.deserialize_serialize t
  rw [h, json.deserialize_serialize u] at ht
  exact (Option.some.inj ht).symm

namespace SystemTextJson

open TextFormat IsoDate

/-! ## Strings: UTF-16 units, escaped -/

/-- The UTF-16 units of a scalar. -/
def units (c : Char) : List Nat :=
  if c.toNat < 0x10000 then [c.toNat]
  else [0xD800 + (c.toNat - 0x10000) / 0x400, 0xDC00 + (c.toNat - 0x10000) % 0x400]

/-- Units back to scalars; a lone surrogate is refused. -/
def ofUnits : List Nat → Option Text
  | [] => some []
  | u :: us =>
    if 0xD800 ≤ u ∧ u < 0xDC00 then
      match us with
      | [] => none
      | v :: vs =>
        if 0xDC00 ≤ v ∧ v < 0xE000 then
          (ofUnits vs).map (Char.ofNat (0x10000 + (u - 0xD800) * 0x400 + (v - 0xDC00)) :: ·)
        else none
    else if 0xDC00 ≤ u ∧ u < 0xE000 then none
    else (ofUnits us).map (Char.ofNat u :: ·)

theorem char_valid (c : Char) : c.toNat < 0xD800 ∨ 0xDFFF < c.toNat ∧ c.toNat < 0x110000 := c.valid

/-- Decoding undoes encoding, scalar by scalar. -/
theorem ofUnits_units (c : Char) (us : List Nat) :
    ofUnits (units c ++ us) = (ofUnits us).map (c :: ·) := by
  have hvalid := char_valid c
  rw [units]
  by_cases hbmp : c.toNat < 0x10000
  · rw [if_pos hbmp, List.singleton_append, ofUnits.eq_def]
    dsimp only
    rw [if_neg (by omega), if_neg (by omega), Char.ofNat_toNat]
  · rw [if_neg hbmp, List.cons_append, List.singleton_append, ofUnits.eq_def]
    dsimp only
    -- the two surrogates carry ten bits each
    have hpair : 0x10000 + (0xD800 + (c.toNat - 0x10000) / 0x400 - 0xD800) * 0x400
        + (0xDC00 + (c.toNat - 0x10000) % 0x400 - 0xDC00) = c.toNat := by omega
    rw [if_pos (by omega), if_pos (by omega), hpair, Char.ofNat_toNat]

theorem ofUnits_flatMap (s : Text) : ofUnits (s.flatMap units) = some s := by
  induction s with
  | nil => rfl
  | cons c s ih => rw [List.flatMap_cons, ofUnits_units, ih, Option.map_some]

/-- Every unit fits sixteen bits. -/
theorem units_lt (c : Char) : ∀ u ∈ units c, u < 0x10000 := by
  have hvalid := char_valid c
  rw [units]
  split
  · intro u hu
    rw [List.mem_singleton.mp hu]
    assumption
  · intro u hu
    rcases List.mem_cons.mp hu with rfl | hu
    · omega
    · rw [List.mem_singleton.mp hu]
      omega

/-- Upper-case hexadecimal digit. -/
def hexDigit (n : Nat) : Char := if n < 10 then Char.ofNat (48 + n) else Char.ofNat (55 + n)

def hexValue (c : Char) : Option Nat :=
  if '0' ≤ c ∧ c ≤ '9' then some (c.toNat - 48)
  else if 'A' ≤ c ∧ c ≤ 'F' then some (c.toNat - 55)
  else if 'a' ≤ c ∧ c ≤ 'f' then some (c.toNat - 87)
  else none

theorem hexValue_hexDigit {n : Nat} (h : n < 16) : hexValue (hexDigit n) = some n :=
  (show ∀ n < 16, hexValue (hexDigit n) = some n by decide) n h

/-- What the default encoder leaves as it is: printable ASCII except quotes, `&`, `+`, `<`, `>`,
    the backslash and the grave accent. -/
def isPlain (u : Nat) : Bool :=
  0x20 ≤ u ∧ u < 0x7F ∧ u ∉ [0x22, 0x26, 0x27, 0x2B, 0x3C, 0x3E, 0x5C, 0x60]

/-- One unit, as the default encoder writes it. -/
def escapeUnit (u : Nat) : List Char :=
  if isPlain u then [Char.ofNat u]
  else if u = 0x08 then ['\\', 'b']
  else if u = 0x09 then ['\\', 't']
  else if u = 0x0A then ['\\', 'n']
  else if u = 0x0C then ['\\', 'f']
  else if u = 0x0D then ['\\', 'r']
  else if u = 0x5C then ['\\', '\\']
  else ['\\', 'u', hexDigit (u / 4096), hexDigit (u / 256 % 16), hexDigit (u / 16 % 16),
    hexDigit (u % 16)]

/-- The short escapes of JSON. -/
def shortEscape : Char → Option Nat
  | 'b' => some 0x08
  | 't' => some 0x09
  | 'n' => some 0x0A
  | 'f' => some 0x0C
  | 'r' => some 0x0D
  | '\\' => some 0x5C
  | '"' => some 0x22
  | '/' => some 0x2F
  | _ => none

/-- The units up to the closing quote, and the rest behind it. -/
def readUnits : List Char → Option (List Nat × List Char)
  | [] => none
  | '"' :: s => some ([], s)
  | '\\' :: 'u' :: a :: b :: c :: d :: s => do
    let a ← hexValue a
    let b ← hexValue b
    let c ← hexValue c
    let d ← hexValue d
    (readUnits s).map fun r => ((a * 4096 + b * 256 + c * 16 + d) :: r.1, r.2)
  | '\\' :: e :: s => do
    let u ← shortEscape e
    (readUnits s).map fun r => (u :: r.1, r.2)
  | c :: s => (readUnits s).map fun r => (units c ++ r.1, r.2)

theorem readUnits_plain {c : Char} (hquote : c ≠ '"') (hslash : c ≠ '\\') (s : List Char) :
    readUnits (c :: s) = (readUnits s).map fun r => (units c ++ r.1, r.2) := by
  rw [readUnits.eq_def]
  split
  · contradiction
  · next h => exact absurd (List.cons.inj h).1 hquote
  · next h => exact absurd (List.cons.inj h).1 hslash
  · next h => exact absurd (List.cons.inj h).1 hslash
  · next h =>
    obtain ⟨rfl, rfl⟩ := List.cons.inj h
    rfl

/-- Every escape is read back to its unit. -/
theorem readUnits_escapeUnit {u : Nat} (h : u < 0x10000) (s : List Char) :
    readUnits (escapeUnit u ++ s) = (readUnits s).map fun r => (u :: r.1, r.2) := by
  rw [escapeUnit]
  by_cases hplain : isPlain u = true
  · have hrange := of_decide_eq_true hplain
    have hnat : (Char.ofNat u).toNat = u := by
      rw [Char.ofNat, dif_pos (Or.inl (by omega))]
      rfl
    have hquote : Char.ofNat u ≠ '"' := by
      intro hc
      have h22 : u = 0x22 := by rw [← hnat, hc]; rfl
      exact hrange.2.2 (by rw [h22]; decide)
    have hslash : Char.ofNat u ≠ '\\' := by
      intro hc
      have h5C : u = 0x5C := by rw [← hnat, hc]; rfl
      exact hrange.2.2 (by rw [h5C]; decide)
    rw [if_pos hplain, List.singleton_append, readUnits_plain hquote hslash, units, hnat, if_pos h]
    rfl
  · rw [if_neg hplain]
    by_cases h8 : u = 0x08
    · rw [if_pos h8, h8]; rfl
    · rw [if_neg h8]
      by_cases h9 : u = 0x09
      · rw [if_pos h9, h9]; rfl
      · rw [if_neg h9]
        by_cases hA : u = 0x0A
        · rw [if_pos hA, hA]; rfl
        · rw [if_neg hA]
          by_cases hC : u = 0x0C
          · rw [if_pos hC, hC]; rfl
          · rw [if_neg hC]
            by_cases hD : u = 0x0D
            · rw [if_pos hD, hD]; rfl
            · rw [if_neg hD]
              by_cases h5C : u = 0x5C
              · rw [if_pos h5C, h5C]; rfl
              · rw [if_neg h5C]
                -- four hexadecimal digits, highest first
                have hdigits : u / 4096 * 4096 + u / 256 % 16 * 256 + u / 16 % 16 * 16 + u % 16
                    = u := by omega
                show (hexValue _).bind _ = _
                rw [hexValue_hexDigit (by omega), Option.bind_some]
                show (hexValue _).bind _ = _
                rw [hexValue_hexDigit (by omega), Option.bind_some]
                show (hexValue _).bind _ = _
                rw [hexValue_hexDigit (by omega), Option.bind_some]
                show (hexValue _).bind _ = _
                rw [hexValue_hexDigit (by omega), Option.bind_some, hdigits]
                rfl

theorem readUnits_escaped {us : List Nat} (h : ∀ u ∈ us, u < 0x10000) (s : List Char) :
    readUnits (us.flatMap escapeUnit ++ '"' :: s) = some (us, s) := by
  induction us with
  | nil => rfl
  | cons u us ih =>
    rw [List.flatMap_cons, List.append_assoc, readUnits_escapeUnit (h u List.mem_cons_self),
      ih fun v hv => h v (List.mem_cons_of_mem u hv), Option.map_some]

/-- A string value, quotes included. -/
def printString (s : Text) : List Char := '"' :: ((s.flatMap units).flatMap escapeUnit ++ ['"'])

def readString : Reader Text
  | '"' :: s => (readUnits s).bind fun r => (ofUnits r.1).map fun t => (t, r.2)
  | _ => none

theorem readString_printString (s : Text) (rest : List Char) :
    readString (printString s ++ rest) = some (s, rest) := by
  have hlt : ∀ u ∈ s.flatMap units, u < 0x10000 := by
    intro u hu
    obtain ⟨c, -, hc⟩ := List.mem_flatMap.mp hu
    exact units_lt c u hc
  rw [printString, List.cons_append, List.append_assoc, List.singleton_append]
  show (readUnits _).bind _ = _
  rw [readUnits_escaped hlt, Option.bind_some, ofUnits_flatMap, Option.map_some]

/-- A string or `null`. -/
def printNullable : Option Text → List Char
  | none => "null".toList
  | some s => printString s

def readNullable : Reader (Option Text)
  | 'n' :: s => (literal "ull".toList s).map fun r => (none, r.2)
  | s => (readString s).map fun r => (some r.1, r.2)

theorem readNullable_printNullable (s : Option Text) (rest : List Char) :
    readNullable (printNullable s ++ rest) = some (s, rest) := by
  cases s with
  | none => rfl
  | some s =>
    show (readString (printString s ++ rest)).map _ = _
    rw [readString_printString, Option.map_some]

/-! ## Numbers, characters, dates -/

/-- An `int`: an integer in range. -/
def readInt32 : Reader Int32 := fun s =>
  (readInt s).bind fun r =>
    if -2 ^ 31 ≤ r.1 ∧ r.1 < 2 ^ 31 then some (Int32.ofInt r.1, r.2) else none

theorem readInt32_printInt (x : Int32) {rest : List Char} (hrest : EndsDigits rest) :
    readInt32 (printInt x.toInt ++ rest) = some (x, rest) := by
  rw [readInt32, readInt_printInt _ hrest, Option.bind_some,
    if_pos ⟨Int32.le_toInt x, Int32.toInt_lt x⟩, Int32.ofInt_toInt]

/-- A `char`: a string of one character. -/
def readChar : Reader Char := fun s =>
  (readString s).bind fun r => match r.1 with
    | [c] => some (c, r.2)
    | _ => none

theorem readChar_printString (c : Char) (rest : List Char) :
    readChar (printString [c] ++ rest) = some (c, rest) := by
  rw [readChar, readString_printString]
  rfl

/-- A `DateTime`, quotes included. -/
def printDate (t : DateTime) : List Char := '"' :: (printDateTime t ++ ['"'])

def readDate : Reader DateTime
  | '"' :: s => (readDateTime s).bind fun r => (literal ['"'] r.2).map fun r' => (r.1, r'.2)
  | _ => none

theorem readDate_printDate (t : DateTime) (rest : List Char) :
    readDate (printDate t ++ rest) = some (t, rest) := by
  rw [printDate, List.cons_append, List.append_assoc, List.singleton_append]
  show (readDateTime _).bind _ = _
  rw [readDateTime_printDateTime, Option.bind_some]
  exact congrArg (Option.map _) (literal_append ['"'] rest)

/-! ## The object -/

/-- `JsonSerializer.Serialize(transaction, options)`. -/
def serialize (t : Transaction) : Text :=
  "\x7b\"Valor\":".toList ++ (printInt t.valor.toInt ++ (",\"Tipo\":".toList ++
  (printString [t.tipo] ++ (",\"Descricao\":".toList ++ (printNullable t.descricao ++
  (",\"AccountId\":".toList ++ (printInt t.accountId.toInt ++ (",\"Limite\":".toList ++
  (printInt t.limite.toInt ++ (",\"Saldo\":".toList ++ (printInt t.saldo.toInt ++
  (",\"realizada_em\":".toList ++ (printDate t.realizadaEm ++ ['}'])))))))))))))

/-- A property: its name with the punctuation in front, then its value. -/
def readProperty {α : Type} (name : List Char) (value : Reader α) : Reader α := fun s =>
  (literal name s).bind fun r => value r.2

theorem readProperty_append {α : Type} {name : List Char} {value : Reader α} {s : List Char}
    {r : Option (α × List Char)} (h : value s = r) : readProperty name value (name ++ s) = r := by
  rw [readProperty, literal_append, Option.bind_some]
  exact h

/-- `JsonSerializer.Deserialize<Transaction>`. -/
def deserialize (s : Text) : Option Transaction := do
  let (valor, s) ← readProperty "\x7b\"Valor\":".toList readInt32 s
  let (tipo, s) ← readProperty ",\"Tipo\":".toList readChar s
  let (descricao, s) ← readProperty ",\"Descricao\":".toList readNullable s
  let (accountId, s) ← readProperty ",\"AccountId\":".toList readInt32 s
  let (limite, s) ← readProperty ",\"Limite\":".toList readInt32 s
  let (saldo, s) ← readProperty ",\"Saldo\":".toList readInt32 s
  let (realizadaEm, s) ← readProperty ",\"realizada_em\":".toList readDate s
  if s = ['}'] then some ⟨valor, tipo, descricao, accountId, limite, saldo, realizadaEm⟩ else none

/-- **Round trip of the object.** -/
theorem deserialize_serialize (t : Transaction) : deserialize (serialize t) = some t := by
  unfold deserialize serialize
  rw [readProperty_append (readInt32_printInt t.valor (endsDigits_append (c := ',') rfl rfl))]
  simp only [Option.bind_eq_bind, Option.bind_some]
  rw [readProperty_append (readChar_printString t.tipo _)]
  simp only [Option.bind_some]
  rw [readProperty_append (readNullable_printNullable t.descricao _)]
  simp only [Option.bind_some]
  rw [readProperty_append (readInt32_printInt t.accountId (endsDigits_append (c := ',') rfl rfl))]
  simp only [Option.bind_some]
  rw [readProperty_append (readInt32_printInt t.limite (endsDigits_append (c := ',') rfl rfl))]
  simp only [Option.bind_some]
  rw [readProperty_append (readInt32_printInt t.saldo (endsDigits_append (c := ',') rfl rfl))]
  simp only [Option.bind_some]
  rw [readProperty_append (readDate_printDate t.realizadaEm _)]
  rfl

end SystemTextJson

/-- The serializer of the deployment. -/
def systemTextJson : TransactionJson where
  serialize := SystemTextJson.serialize
  deserialize := SystemTextJson.deserialize
  deserializeListed s := (SystemTextJson.deserialize s).map Transaction.listed
  deserialize_serialize := SystemTextJson.deserialize_serialize
  deserializeListed_serialize t := by rw [SystemTextJson.deserialize_serialize, Option.map_some]
  serialize_ne_nil t := List.cons_ne_nil _ _

end Rinha
