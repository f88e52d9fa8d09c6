/-
  `TransactionService` and the endpoints over it, as ONE call after another.

  A call reads the account, checks and executes on the private copy, and then has three awaited
  effects on two stores: `SortedSetAdd`, `SortedSetRemoveRangeByRank` (both inside `Save`) and
  `PublishAsync`.  Any of them can throw, and one that throws may or may not have reached its
  store; an `Interruption` says which one throws and how, and the stores are returned together
  with the exception.

  `tryExecuteTransactionAsync_interrupted` is the exact state each failure leaves.  Nothing
  compensates: once the record is added, a failure before the publish leaves it in the cache and
  off the bus.
-/
import RinhaBackend.InitializeRedis

namespace Rinha

open CachedRepository

/-! ## The stores and their failures -/

/-- What a call writes to: Redis, the subject `natsDestinationQueue` (the messages published on it,
    in order) and the wake-up channel of the instance (the items written to it). -/
structure Stores where
  redis : Redis
  bus : List Transaction
  channel : Nat

/-- The awaited effects of a call. -/
inductive AwaitedStep where
  | sortedSetAdd | sortedSetRemoveRangeByRank | publish
  deriving DecidableEq, Repr

/-- One awaited effect throws; `applied` says whether it reached its store all the same. -/
structure Interruption where
  step : AwaitedStep
  fault : Fault
  applied : Bool
  deriving DecidableEq, Repr

/-- Await one effect. -/
def awaitEffect (interruption : Option Interruption) (step : AwaitedStep)
    (effect : Stores → Stores) (s : Stores) : Stores × Option Fault :=
  match interruption with
  | none => (effect s, none)
  | some i =>
    if i.step = step then (if i.applied then effect s else s, some i.fault) else (effect s, none)

/-- Go on with `next` unless the effect before it threw. -/
def andThen {α : Type} (r : Stores × Option Fault) (next : Stores → Stores × Except Fault α) :
    Stores × Except Fault α :=
  match r with
  | (s, some e) => (s, .error e)
  | (s, none) => next s

namespace TransactionService

section Definitions

variable (json : TransactionJson) (interruption : Option Interruption)

/-- `TryExecuteTransactionAsync`. -/
def tryExecuteTransactionAsync (accountId : Int32) (transaction : TransactionRequest)
    (now : DateTime) (s : Stores) : Stores × Except Fault ExecuteTransactionResponse :=
  match getAccountByIdAsync json accountId s.redis with
  | .error e => (s, .error e)
  | .ok none => (s, .ok ⟨false, -1, -1, some .accountNotFound⟩)
  | .ok (some account) =>
    if account.isEmpty then (s, .ok ⟨false, -1, -1, some .accountNotFound⟩)
    else if account.canExecute transaction = false then
      (s, .ok ⟨false, -1, -1, some .exceedLimitError⟩)
    else
      let createdTransaction := (account.execute transaction now).2
      -- the two commands of `Save`
      andThen (awaitEffect interruption .sortedSetAdd
        (fun s => { s with redis := saveInsert json s.redis createdTransaction }) s) fun s =>
      andThen (awaitEffect interruption .sortedSetRemoveRangeByRank
        (fun s => { s with redis := saveTrim s.redis createdTransaction }) s) fun s =>
      andThen (awaitEffect interruption .publish
        (fun s => { s with bus := s.bus ++ [createdTransaction] }) s) fun s =>
      ({ s with channel := s.channel + 1 },
        .ok ⟨true, createdTransaction.limite, createdTransaction.saldo, none⟩)

/-- `GetBankStatementAsync` of the service. -/
def getBankStatementAsync (id : Int32) (now : DateTime) (s : Stores) : Except Fault BankStatement :=
  CachedRepository.getBankStatementAsync json id now s.redis

end Definitions

/-! ## What one call does -/

/-- The request passes validation and the account read can execute it. -/
structure Accepted (json : TransactionJson) (s : Stores) (accountId : Int32)
    (request : TransactionRequest) (account : Account) : Prop where
  valid : request.isInvalid = false
  read : getAccountByIdAsync json accountId s.redis = .ok (some account)
  nonempty : account.isEmpty = false
  can : account.canExecute request = true

section Outcomes

variable {json : TransactionJson} {s : Stores} {accountId : Int32} {request : TransactionRequest}
  {account : Account} (now : DateTime)

/-- A refused call answers and changes nothing. -/
theorem tryExecuteTransactionAsync_of_refused (interruption : Option Interruption)
    (hread : getAccountByIdAsync json accountId s.redis = .ok (some account))
    (hne : account.isEmpty = false) (hcan : account.canExecute request = false) :
    tryExecuteTransactionAsync json interruption accountId request now s
      = (s, .ok ⟨false, -1, -1, some .exceedLimitError⟩) := by
  rw [tryExecuteTransactionAsync, hread]
  dsimp only
  rw [if_neg (by rw [hne]; decide), if_pos hcan]

/-- **An accepted call**: the record is saved and published, the channel is written to. -/
theorem tryExecuteTransactionAsync_of_accepted (h : Accepted json s accountId request account) :
    tryExecuteTransactionAsync json none accountId request now s
      = (⟨save json s.redis (account.execute request now).2,
          s.bus ++ [(account.execute request now).2], s.channel + 1⟩,
        .ok ⟨true, account.limite, (account.execute request now).2.saldo, none⟩) := by
  rw [tryExecuteTransactionAsync, h.read]
  dsimp only
  rw [if_neg (by rw [h.nonempty]; decide), if_neg (by rw [h.can]; decide),
    Account.execute_limite]
  rfl

/-- A call that passes the check is not refused for want of limit, whatever fails after it. -/
theorem tryExecuteTransactionAsync_of_canExecute (interruption : Option Interruption)
    (hread : getAccountByIdAsync json accountId s.redis = .ok (some account))
    (hcan : account.canExecute request = true) :
    (tryExecuteTransactionAsync json interruption accountId request now s).2
      ≠ .ok ⟨false, -1, -1, some .exceedLimitError⟩ := by
  rw [tryExecuteTransactionAsync, hread]
  dsimp only
  by_cases hempty : account.isEmpty = true
  · rw [if_pos hempty]
    exact nofun
  · rw [if_neg hempty, if_neg (by rw [hcan]; decide)]
    rcases interruption with _ | ⟨step, fault, applied⟩
    · exact nofun
    · cases step with
      | sortedSetAdd => exact nofun
      | sortedSetRemoveRangeByRank => exact nofun
      | publish => exact nofun

/-- **No allowed debit is refused, unless `Limite + Saldo` overflows.**  Of a debit that leaves the
    exact balance at `-Limite` or more, `CanExecute` is true and no call over that account answers
    `ExceedLimitError`, if and only if the sum of limit and balance fits an `int`. -/
theorem allowed_debit_passes_iff (a : Account) (r : TransactionRequest)
    (hd : r.tipo = Transaction.debt) (hL : 0 ≤ a.limite) (hv : 0 ≤ r.valor)
    (hallowed : -a.limite.toInt ≤ a.saldo.toInt - r.valor.toInt) :
    (a.canExecute r = true ∧
      ∀ (json : TransactionJson) (interruption : Option Interruption) (accountId : Int32)
        (now : DateTime) (s : Stores),
        getAccountByIdAsync json accountId s.redis = .ok (some a) →
          (tryExecuteTransactionAsync json interruption accountId r now s).2
            ≠ .ok ⟨false, -1, -1, some .exceedLimitError⟩)
      ↔ a.limite.toInt + a.saldo.toInt < 2 ^ 31 := by
  rw [← a.canExecute_iff_of_allowed r hd hL hv hallowed]
  constructor
  · exact And.left
  · intro hcan
    refine ⟨hcan, fun json interruption accountId now s hread => ?_⟩
    exact tryExecuteTransactionAsync_of_canExecute now interruption hread hcan

theorem allowed_debit_passes_iff_full : (Account.mk 1 1000 0).canExecute ⟨1000, 'd', some ['x']⟩ :=
  ((allowed_debit_passes_iff ⟨1, 1000, 0⟩ ⟨1000, 'd', some ['x']⟩ rfl (by decide) (by decide)
    (by decide)).mpr (by decide)).1

/-- With limit 1 and the highest balance an `int` holds, a debit of 1 is refused. -/
theorem allowed_debit_is_refused :
    ¬ ∀ (a : Account) (r : TransactionRequest), 0 ≤ a.limite → -a.limite.toInt ≤ a.saldo.toInt →
      r.tipo = Transaction.debt → 0 ≤ r.valor →
      -a.limite.toInt ≤ a.saldo.toInt - r.valor.toInt → a.canExecute r = true := by
  intro h
  exact absurd (h ⟨1, 1, 2147483647⟩ ⟨1, 'd', some ['x']⟩ (by decide) (by decide) rfl (by decide)
    (by decide)) (by decide)

/-- **What each failure leaves.**  The call ends with the exception.  When the add throws without
    taking effect, nothing has changed; when the trim or the publish throws, the record has been
    added, and the bus is as before unless the failing publish itself got through. -/
theorem tryExecuteTransactionAsync_interrupted (json : TransactionJson) (s s' : Stores)
    (accountId : Int32) (request : TransactionRequest) (account : Account) (now : DateTime)
    (i : Interruption) (h : Accepted json s accountId request account)
    (outcome : Except Fault ExecuteTransactionResponse)
    (hcall : tryExecuteTransactionAsync json (some i) accountId request now s = (s', outcome)) :
    outcome = .error i.fault ∧
      (i.step = .sortedSetAdd → s'.bus = s.bus ∧ s'.redis =
        if i.applied then saveInsert json s.redis (account.execute request now).2 else s.redis) ∧
      (i.step = .sortedSetRemoveRangeByRank → s'.bus = s.bus ∧ s'.redis =
        if i.applied then save json s.redis (account.execute request now).2
        else saveInsert json s.redis (account.execute request now).2) ∧
      (i.step = .publish →
        s'.redis = save json s.redis (account.execute request now).2 ∧ s'.bus =
          if i.applied then s.bus ++ [(account.execute request now).2] else s.bus) := by
  rw [tryExecuteTransactionAsync, h.read] at hcall
  dsimp only at hcall
  rw [if_neg (by rw [h.nonempty]; decide), if_neg (by rw [h.can]; decide)] at hcall
  obtain ⟨step, fault, applied⟩ := i
  cases step with
  | sortedSetAdd =>
    cases applied <;>
    · cases hcall
      exact ⟨rfl, fun _ => ⟨rfl, rfl⟩, AwaitedStep.noConfusion, AwaitedStep.noConfusion⟩
  | sortedSetRemoveRangeByRank =>
    cases applied <;>
    · cases hcall
      exact ⟨rfl, AwaitedStep.noConfusion, fun _ => ⟨rfl, rfl⟩, AwaitedStep.noConfusion⟩
  | publish =>
    cases applied <;>
    · cases hcall
      exact ⟨rfl, AwaitedStep.noConfusion, AwaitedStep.noConfusion, fun _ => ⟨rfl, rfl⟩⟩

end Outcomes

/-- Account 1 seeded with limit 1000 and balance 0, and nothing published. -/
def seededStores : Stores := ⟨InitializeRedis.seededCache, [], 0⟩

/-- A credit of 10. -/
def creditOfTen : TransactionRequest := ⟨10, 'c', some ['x']⟩

theorem seededStores_read :
    getAccountByIdAsync systemTextJson 1 seededStores.redis = .ok (some ⟨1, 1000, 0⟩) :=
  getAccountByIdAsync_of_last (t := InitializeRedis.seedRecord) rfl

theorem seededStores_accepts :
    Accepted systemTextJson seededStores 1 creditOfTen ⟨1, 1000, 0⟩ :=
  ⟨by decide, seededStores_read, by decide, by decide⟩

theorem tryExecuteTransactionAsync_interrupted_publish :
    (tryExecuteTransactionAsync systemTextJson
        (some ⟨.publish, .operationCanceledException, false⟩) 1 creditOfTen
        (.ofTicks 5 .localTime) seededStores).1.bus = [] :=
  (tryExecuteTransactionAsync_interrupted systemTextJson seededStores _ 1 creditOfTen _
    (.ofTicks 5 .localTime) ⟨.publish, .operationCanceledException, false⟩
    seededStores_accepts _ rfl).2.2.2 rfl |>.2

/-- A cancelled publish leaves the record in the cache and off the bus. -/
theorem interrupted_call_is_not_all_or_nothing :
    ¬ ∀ (s s' : Stores) (accountId : Int32) (request : TransactionRequest) (account : Account)
        (now : DateTime) (i : Interruption) (outcome : Except Fault ExecuteTransactionResponse),
      Accepted systemTextJson s accountId request account →
      tryExecuteTransactionAsync systemTextJson (some i) accountId request now s = (s', outcome) →
      (s'.redis (getBankStatementKey accountId) = s.redis (getBankStatementKey accountId) ∧
          s'.bus = s.bus) ∨
        (entryOf systemTextJson (account.execute request now).2
            ∈ (s'.redis (getBankStatementKey accountId)).entries ∧
          s'.bus = s.bus ++ [(account.execute request now).2]) := by
  intro h
  rcases h seededStores _ 1 creditOfTen _ (.ofTicks 5 .localTime)
    ⟨.publish, .operationCanceledException, false⟩ _ seededStores_accepts rfl with
    ⟨hset, -⟩ | ⟨-, hbus⟩
  · exact absurd (congrArg (fun set => set.entries.length) hset) (by decide)
  · cases hbus

end TransactionService

end Rinha
