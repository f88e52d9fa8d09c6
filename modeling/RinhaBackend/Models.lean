/-
  The domain model: the records of `Models/`, with the two decisions the whole backend rests on,
  `TransactionRequest.IsInvalid` and `Account.CanExecute` / `Account.Execute`.

  Every C# `int` is an `Int32` and every sum is the wrapping one, as C# computes outside a
  `checked` context.  A string is the list of its Unicode scalar values (`Text`) and `Length`
  counts its UTF-16 units, as .NET does; JSON bodies cannot carry half a surrogate pair, so no
  other string reaches a request.  A `DateTime` is its tick count with its `Kind`: the kind plays
  no part in comparisons but it is visible in the JSON text.

  The last section is the arithmetic of the limit check.  `execute_debt_exact` is the fact every
  debit-safety result uses: with a non-negative limit and amount, a debit that passes the check
  never wraps, even when `Limite + Saldo` itself does.
-/
import Mathlib.Algebra.Order.Group.Int

namespace Rinha

/-- A string: its Unicode scalar values. -/
abbrev Text := List Char

/-- `string.Length`: UTF-16 units, two for a scalar outside the basic plane. -/
def Text.length16 (s : Text) : Nat := s.length + s.countP fun c => 0x10000 ≤ c.toNat

/-- There are never more characters than UTF-16 units. -/
theorem Text.length_le_length16 (s : Text) : s.length ≤ s.length16 := Nat.le_add_right _ _

/-! ## `DateTime` -/

/-- `DateTimeKind`. -/
inductive DateTimeKind where
  | unspecified | utc | localTime
  deriving DecidableEq, Repr

/-- `DateTime.MaxValue.Ticks`. -/
def maxTicks : Nat := 3155378975999999999

/-- A `DateTime`: 100 ns ticks since 0001-01-01, with the kind. -/
structure DateTime where
  ticks : Nat
  kind : DateTimeKind
  ticks_le : ticks ≤ maxTicks
  deriving DecidableEq, Repr

/-- The `DateTime` of a tick count; past the end of the calendar, the last one. -/
def DateTime.ofTicks (ticks : Nat) (kind : DateTimeKind) : DateTime :=
  ⟨min ticks maxTicks, kind, Nat.min_le_right ticks maxTicks⟩

/-! ## The records -/

/-- `Transaction`: a movement with the balance and limit it leaves behind. -/
structure Transaction where
  valor : Int32
  tipo : Char
  descricao : Option Text
  accountId : Int32
  limite : Int32
  saldo : Int32
  realizadaEm : DateTime
  deriving DecidableEq, Repr

/-- `Transaction.Credit`. -/
def Transaction.credit : Char := 'c'

/-- `Transaction.Debt`. -/
def Transaction.debt : Char := 'd'

/-- `TransactionRequest`, the body of a POST. -/
structure TransactionRequest where
  valor : Int32
  tipo : Char
  descricao : Option Text
  deriving DecidableEq, Repr

/-- `TransactionRequest.IsInvalid`. -/
def TransactionRequest.isInvalid (r : TransactionRequest) : Bool :=
  if r.tipo ≠ Transaction.credit ∧ r.tipo ≠ Transaction.debt then true
  else if (match r.descricao with
      | none => true
      | some d => d.length16 = 0 ∨ 10 < d.length16 : Bool) then true
  else if r.valor < 0 then true
  else false

/-- `Account`. -/
structure Account where
  id : Int32
  limite : Int32
  saldo : Int32
  deriving DecidableEq, Repr

namespace Account

/-- `Account.IsEmpty`. -/
def isEmpty (a : Account) : Bool := a.id = 0 ∧ a.saldo = 0 ∧ a.limite = 0

/-- `Account.GetRemainingLimit`. -/
def getRemainingLimit (a : Account) : Int32 := a.limite + a.saldo

/-- `Account.CanExecuteDebt`. -/
def canExecuteDebt (a : Account) (value : Int32) : Bool := value ≤ a.getRemainingLimit

/-- `Account.CanExecute`. -/
def canExecute (a : Account) (transaction : TransactionRequest) : Bool :=
  if transaction.tipo = Transaction.debt then a.canExecuteDebt transaction.valor else true

/-- `Account.Execute`: the account with its new balance, and the transaction created from it. -/
def execute (a : Account) (transaction : TransactionRequest) (now : DateTime) :
    Account × Transaction :=
  let a' :=
    if transaction.tipo = Transaction.credit then { a with saldo := a.saldo + transaction.valor }
    else { a with saldo := a.saldo - transaction.valor }
  (a', ⟨transaction.valor, transaction.tipo, transaction.descricao, a'.id, a'.limite, a'.saldo,
    now⟩)

end Account

/-- `Balance`; `DataExtrato` is the clock reading of its construction. -/
structure Balance where
  total : Int32
  limite : Int32
  dataExtrato : DateTime
  deriving DecidableEq, Repr

/-- `Balance.IsEmpty`. -/
def Balance.isEmpty (b : Balance) : Bool := b.total = 0 ∧ b.limite = 0

/-- `BankStatementTransaction`: the part of a transaction a statement lists. -/
structure BankStatementTransaction where
  valor : Int32
  tipo : Char
  descricao : Option Text
  realizadaEm : DateTime
  deriving DecidableEq, Repr

/-- A transaction, as a statement lists it. -/
def Transaction.listed (t : Transaction) : BankStatementTransaction :=
  ⟨t.valor, t.tipo, t.descricao, t.realizadaEm⟩

/-- `BankStatement`. -/
structure BankStatement where
  saldo : Balance
  ultimasTransacoes : List BankStatementTransaction
  deriving DecidableEq, Repr

/-- The parameterless `BankStatement()`: an all-zero balance and no entries. -/
def BankStatement.default (now : DateTime) : BankStatement := ⟨⟨0, 0, now⟩, []⟩

/-- `BankStatement.IsEmpty`. -/
def BankStatement.isEmpty (s : BankStatement) : Bool := s.saldo.isEmpty

/-- The account a record is read as. -/
def Transaction.account (t : Transaction) : Account := ⟨t.accountId, t.limite, t.saldo⟩

/-- `TransactionExecutionError`. -/
inductive TransactionExecutionError where
  | accountNotFound | exceedLimitError
  deriving DecidableEq, Repr

/-- `ExecuteTransactionResponse`. -/
structure ExecuteTransactionResponse where
  isSuccess : Bool
  limite : Int32
  saldo : Int32
  error : Option TransactionExecutionError
  deriving DecidableEq, Repr

/-- `TransactionResponse`, the body of a 200. -/
structure TransactionResponse where
  limite : Int64
  saldo : Int64
  deriving DecidableEq, Repr

/-! ## What validation and execution leave true -/

namespace TransactionRequest

/-- A request that passes validation is a credit or a debit of a non-negative amount. -/
theorem valid_iff (r : TransactionRequest) :
    r.isInvalid = false ↔ (r.tipo = Transaction.credit ∨ r.tipo = Transaction.debt) ∧
      (∃ d, r.descricao = some d ∧ 0 < d.length16 ∧ d.length16 ≤ 10) ∧ 0 ≤ r.valor := by
  unfold isInvalid
  by_cases htipo : r.tipo ≠ Transaction.credit ∧ r.tipo ≠ Transaction.debt
  · rw [if_pos htipo]
    refine iff_of_false (by decide) ?_
    rintro ⟨h | h, -⟩
    · exact htipo.1 h
    · exact htipo.2 h
  · rw [if_neg htipo]
    have htipo' : r.tipo = Transaction.credit ∨ r.tipo = Transaction.debt := by
      by_contra hc
      exact htipo (not_or.mp hc)
    rcases hd : r.descricao with _ | d
    · simp
    · by_cases hlen : d.length16 = 0 ∨ 10 < d.length16
      · simp only [hlen, decide_true, if_true, Bool.true_eq_false, false_iff]
        rintro ⟨-, ⟨d', hd', hpos, hle⟩, -⟩
        obtain rfl := Option.some.inj hd'
        omega
      · simp only [hlen, decide_false, Bool.false_eq_true, if_false]
        by_cases hval : r.valor < 0
        · rw [if_pos hval]
          refine iff_of_false (by decide) ?_
          rintro ⟨-, -, hpos⟩
          exact absurd hval (Int32.not_lt.mpr hpos)
        · rw [if_neg hval]
          refine iff_of_true rfl ⟨htipo', ⟨d, rfl, by omega, by omega⟩, Int32.not_lt.mp hval⟩

end TransactionRequest

namespace Account

variable (a : Account) (r : TransactionRequest) (now : DateTime)

/-- What a statement lists of a transaction is what the request and the clock gave. -/
@[simp] theorem execute_listed :
    (a.execute r now).2.listed = ⟨r.valor, r.tipo, r.descricao, now⟩ := rfl

@[simp] theorem execute_realizadaEm : (a.execute r now).2.realizadaEm = now := rfl

@[simp] theorem execute_tipo : (a.execute r now).2.tipo = r.tipo := rfl

/-- `Execute` copies the id of the account. -/
@[simp] theorem execute_accountId : (a.execute r now).2.accountId = a.id := by
  rw [execute]
  split <;> rfl

/-- `Execute` copies the limit of the account. -/
@[simp] theorem execute_limite : (a.execute r now).2.limite = a.limite := by
  rw [execute]
  split <;> rfl

/-- A credit adds. -/
theorem execute_saldo_credit (h : r.tipo = Transaction.credit) :
    (a.execute r now).2.saldo = a.saldo + r.valor := by
  rw [execute, if_pos h]

/-- Everything that is not a credit subtracts. -/
theorem execute_saldo_other (h : r.tipo ≠ Transaction.credit) :
    (a.execute r now).2.saldo = a.saldo - r.valor := by
  rw [execute, if_neg h]

/-- A record determines everything it was made of: the account, the request and the time. -/
theorem execute_injective {a b : Account} {r q : TransactionRequest} {now later : DateTime}
    (h : (a.execute r now).2 = (b.execute q later).2) : a = b ∧ r = q ∧ now = later := by
  have hlisted := congrArg Transaction.listed h
  rw [execute_listed, execute_listed, BankStatementTransaction.mk.injEq] at hlisted
  obtain ⟨hvalor, htipo, hdescricao, hnow⟩ := hlisted
  have hrequest : r = q := by
    cases r
    cases q
    simp only [TransactionRequest.mk.injEq]
    exact ⟨hvalor, htipo, hdescricao⟩
  subst hrequest
  have hid := congrArg Transaction.accountId h
  have hlimite := congrArg Transaction.limite h
  have hsaldo := congrArg Transaction.saldo h
  rw [execute_accountId, execute_accountId] at hid
  rw [execute_limite, execute_limite] at hlimite
  have hbalance : a.saldo = b.saldo := by
    by_cases hcredit : r.tipo = Transaction.credit
    · rw [execute_saldo_credit _ _ _ hcredit, execute_saldo_credit _ _ _ hcredit] at hsaldo
      exact (Int32.add_left_inj r.valor).mp hsaldo
    · rw [execute_saldo_other _ _ _ hcredit, execute_saldo_other _ _ _ hcredit] at hsaldo
      exact (Int32.sub_left_inj r.valor).mp hsaldo
  refine ⟨?_, rfl, hnow⟩
  cases a
  cases b
  simp only [Account.mk.injEq]
  exact ⟨hid, hlimite, hbalance⟩

theorem debt_ne_credit {c : Char} (h : c = Transaction.debt) : c ≠ Transaction.credit := by
  rw [h]
  decide

/-- `CanExecute` on a debit is the limit check. -/
theorem canExecute_debt (h : r.tipo = Transaction.debt) :
    a.canExecute r = true ↔ r.valor ≤ a.limite + a.saldo := by
  rw [canExecute, if_pos h, canExecuteDebt, decide_eq_true_eq, getRemainingLimit]

/-- `CanExecute` refuses debits over the remaining limit, and nothing else. -/
theorem canExecute_eq_false_iff :
    a.canExecute r = false ↔ r.tipo = Transaction.debt ∧ a.limite + a.saldo < r.valor := by
  by_cases hd : r.tipo = Transaction.debt
  · rw [← Bool.not_eq_true, a.canExecute_debt r hd, Int32.not_le]
    exact (and_iff_right hd).symm
  · rw [canExecute, if_neg hd]
    exact iff_of_false (by decide) fun h => hd h.1

/-- **When the domain check stands in for the validator.**  An invalid request is refused, and
    whatever `Execute` would subtract has passed the limit check, if and only if the request is
    valid or is a debit over the remaining limit: `CanExecute` knows no `Tipo` but the debit's and
    looks at neither the description nor the sign of the amount. -/
theorem refuses_invalid_iff :
    ((r.isInvalid = true → a.canExecute r = false) ∧
      (r.tipo ≠ Transaction.credit → a.canExecute r = true → r.valor ≤ a.limite + a.saldo))
      ↔ r.isInvalid = false ∨ (r.tipo = Transaction.debt ∧ a.limite + a.saldo < r.valor) := by
  rw [← a.canExecute_eq_false_iff r]
  constructor
  · rintro ⟨hrefuses, -⟩
    by_cases hinvalid : r.isInvalid = true
    · exact Or.inr (hrefuses hinvalid)
    · exact Or.inl (Bool.eq_false_iff.mpr hinvalid)
  · rintro (hvalid | hrefused)
    · refine ⟨fun hinvalid => absurd hinvalid (by rw [hvalid]; decide), fun hother hcan => ?_⟩
      have hdebt : r.tipo = Transaction.debt := ((r.valid_iff).mp hvalid).1.resolve_left hother
      exact (a.canExecute_debt r hdebt).mp hcan
    · exact ⟨fun _ => hrefused, fun _ hcan => absurd hcan (by rw [hrefused]; decide)⟩

/-- With 2 left of the limit, 3 are taken under a `Tipo` that does not exist. -/
theorem unknown_tipo_is_executed :
    ¬ ∀ (a : Account) (r : TransactionRequest), r.isInvalid = true → a.canExecute r = false := by
  intro h
  have hrefused := h ⟨1, 10000, -9998⟩ ⟨3, 'e', some ['D', 'e', 'b', 't', 'o']⟩ (by decide)
  exact absurd hrefused (by decide)

end Account

/-! ## Wrapping 32-bit sums -/

/-- The exact integers a C# `int` holds. -/
def InInt32 (z : Int) : Prop := -2 ^ 31 ≤ z ∧ z < 2 ^ 31

instance (z : Int) : Decidable (InInt32 z) := inferInstanceAs (Decidable (_ ∧ _))

theorem inInt32_toInt (x : Int32) : InInt32 x.toInt := ⟨Int32.le_toInt x, Int32.toInt_lt x⟩

theorem toInt_add_of_inInt32 {x y : Int32} (h : InInt32 (x.toInt + y.toInt)) :
    (x + y).toInt = x.toInt + y.toInt := by
  rw [Int32.toInt_add]
  exact Int.bmod_eq_of_le (by have := h.1; omega) (by have := h.2; omega)

theorem toInt_sub_of_inInt32 {x y : Int32} (h : InInt32 (x.toInt - y.toInt)) :
    (x - y).toInt = x.toInt - y.toInt := by
  rw [Int32.toInt_sub]
  exact Int.bmod_eq_of_le (by have := h.1; omega) (by have := h.2; omega)

/-- Past the top, the sum of two `int`s comes back negative. -/
theorem toInt_add_of_overflow {x y : Int32} (h : 2 ^ 31 ≤ x.toInt + y.toInt) :
    (x + y).toInt = x.toInt + y.toInt - 2 ^ 32 := by
  have hx := Int32.toInt_lt x
  have hy := Int32.toInt_lt y
  rw [Int32.toInt_add, Int.bmod_def]
  omega

/-- **A debit that passes the limit check is exact and within the limit.**  When `Limite + Saldo`
    overflows, the wrapped sum is negative and the check refuses every non-negative amount. -/
theorem Account.execute_debt_exact (a : Account) (r : TransactionRequest) (now : DateTime)
    (hd : r.tipo = Transaction.debt) (hL : 0 ≤ a.limite) (hv : 0 ≤ r.valor)
    (hcan : a.canExecute r = true) :
    (a.execute r now).2.saldo.toInt = a.saldo.toInt - r.valor.toInt ∧
      -a.limite.toInt ≤ (a.execute r now).2.saldo.toInt := by
  have hcheck := Int32.le_iff_toInt_le.mp ((a.canExecute_debt r hd).mp hcan)
  have hL' : 0 ≤ a.limite.toInt := Int32.le_iff_toInt_le.mp hL
  have hv' : 0 ≤ r.valor.toInt := Int32.le_iff_toInt_le.mp hv
  have hLlt := Int32.toInt_lt a.limite
  have hSlt := Int32.toInt_lt a.saldo
  have hSge := Int32.le_toInt a.saldo
  rw [a.execute_saldo_other r now (debt_ne_credit hd)]
  -- an overflowing sum would make the check `0 ≤ valor ≤ negative`
  by_cases hover : 2 ^ 31 ≤ a.limite.toInt + a.saldo.toInt
  · rw [toInt_add_of_overflow hover] at hcheck
    omega
  · rw [toInt_add_of_inInt32 ⟨by omega, by omega⟩] at hcheck
    have hexact := toInt_sub_of_inInt32 (x := a.saldo) (y := r.valor) ⟨by omega, by omega⟩
    rw [hexact]
    exact ⟨rfl, by omega⟩

/-- **The check and the exact limit.**  A debit the limit allows in exact integers passes the check
    if and only if `Limite + Saldo` does not overflow: an overflowing sum comes back negative and
    refuses every amount. -/
theorem Account.canExecute_iff_of_allowed (a : Account) (r : TransactionRequest)
    (hd : r.tipo = Transaction.debt) (hL : 0 ≤ a.limite) (hv : 0 ≤ r.valor)
    (hallowed : -a.limite.toInt ≤ a.saldo.toInt - r.valor.toInt) :
    a.canExecute r = true ↔ a.limite.toInt + a.saldo.toInt < 2 ^ 31 := by
  have hL' : 0 ≤ a.limite.toInt := Int32.le_iff_toInt_le.mp hL
  have hv' : 0 ≤ r.valor.toInt := Int32.le_iff_toInt_le.mp hv
  have hLlt := Int32.toInt_lt a.limite
  have hSlt := Int32.toInt_lt a.saldo
  rw [a.canExecute_debt r hd, Int32.le_iff_toInt_le]
  by_cases hover : 2 ^ 31 ≤ a.limite.toInt + a.saldo.toInt
  · rw [toInt_add_of_overflow hover]
    omega
  · rw [toInt_add_of_inInt32 ⟨by omega, by omega⟩]
    omega

end Rinha
