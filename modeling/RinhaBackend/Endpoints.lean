/-
  The two endpoints, what one POST changes (`makeTransactionAsync_effects`), and the refinement they
  satisfy when requests come one after another: the cached service IS a bank ledger.

  The reference ledger (`Ledger`) knows nothing of caches: a limit and a balance, both exact
  integers, and postings that move the balance in 32-bit wrap-around arithmetic.  The service
  keeps the balance only in the top record of a set it trims to ten, and reads it through two
  different rank ranges; `Refines` is what survives inserting, trimming and refusing, and
  `serve_refines_ledger` is the lockstep over runs of any length.
-/
import Mathlib.Data.List.Basic
import RinhaBackend.TransactionService

namespace Rinha

open CachedRepository

/-- The results the endpoints return. -/
inductive HttpResult (β : Type) where
  | ok (body : β) | notFound | unprocessableEntity
  deriving DecidableEq, Repr

namespace Endpoints

/-- The end of `MakeTransactionAsync`: from the response of the service to the HTTP result. -/
def toResult (response : ExecuteTransactionResponse) :
    Except Fault (HttpResult TransactionResponse) :=
  if response.isSuccess = false then
    match response.error with
    | some .accountNotFound => .ok .notFound
    | some .exceedLimitError => .ok .unprocessableEntity
    | none => .error .invalidOperationException
  else .ok (.ok ⟨response.limite.toInt64, response.saldo.toInt64⟩)

/-- `MakeTransactionAsync`. -/
def makeTransactionAsync (json : TransactionJson) (interruption : Option Interruption) (id : Int32)
    (request : TransactionRequest) (now : DateTime) (s : Stores) :
    Stores × Except Fault (HttpResult TransactionResponse) :=
  if request.isInvalid then (s, .ok .unprocessableEntity)
  else
    match TransactionService.tryExecuteTransactionAsync json interruption id request now s with
    | (s, .error e) => (s, .error e)
    | (s, .ok response) => (s, toResult response)

/-- `GetBankStatementAsync`. -/
def getBankStatementAsync (json : TransactionJson) (id : Int32) (now : DateTime) (s : Stores) :
    Except Fault (HttpResult BankStatement) :=
  match TransactionService.getBankStatementAsync json id now s with
  | .error e => .error e
  | .ok bankStatement => if bankStatement.isEmpty then .ok .notFound else .ok (.ok bankStatement)

section Outcomes

variable {json : TransactionJson} {id : Int32} {request : TransactionRequest} {account : Account}
  {s : Stores} (now : DateTime)

/-- An accepted request: the record is saved and published, and answered. -/
theorem makeTransactionAsync_of_accepted
    (h : TransactionService.Accepted json s id request account) :
    makeTransactionAsync json none id request now s
      = (⟨save json s.redis (account.execute request now).2,
          s.bus ++ [(account.execute request now).2], s.channel + 1⟩,
        .ok (.ok ⟨account.limite.toInt64, (account.execute request now).2.saldo.toInt64⟩)) := by
  rw [makeTransactionAsync, if_neg (by rw [h.valid]; decide),
    TransactionService.tryExecuteTransactionAsync_of_accepted now h]
  rfl

/-- A request refused for want of limit: 422, and nothing changes. -/
theorem makeTransactionAsync_of_refused (hvalid : request.isInvalid = false)
    (hread : getAccountByIdAsync json id s.redis = .ok (some account))
    (hne : account.isEmpty = false) (hcan : account.canExecute request = false) :
    makeTransactionAsync json none id request now s = (s, .ok .unprocessableEntity) := by
  rw [makeTransactionAsync, if_neg (by rw [hvalid]; decide),
    TransactionService.tryExecuteTransactionAsync_of_refused now none hread hne hcan]
  rfl

/-- **What one request does.**  It is accepted, and then saved, published and answered; or nothing
    changes, and it is answered with a refusal or an exception. -/
theorem makeTransactionAsync_cases (json : TransactionJson) (id : Int32)
    (request : TransactionRequest) (s : Stores) :
    (∃ account, TransactionService.Accepted json s id request account ∧
      makeTransactionAsync json none id request now s
        = (⟨save json s.redis (account.execute request now).2,
            s.bus ++ [(account.execute request now).2], s.channel + 1⟩,
          .ok (.ok ⟨account.limite.toInt64, (account.execute request now).2.saldo.toInt64⟩))) ∨
      ((makeTransactionAsync json none id request now s).1 = s ∧
        ∀ body, (makeTransactionAsync json none id request now s).2 ≠ .ok (.ok body)) := by
  by_cases hinvalid : request.isInvalid = true
  · refine Or.inr ?_
    rw [makeTransactionAsync, if_pos hinvalid]
    exact ⟨rfl, fun _ hc => by cases hc⟩
  have hvalid : request.isInvalid = false := Bool.eq_false_iff.mpr hinvalid
  rcases hread : getAccountByIdAsync json id s.redis with e | _ | account
  · refine Or.inr ?_
    rw [makeTransactionAsync, if_neg hinvalid, TransactionService.tryExecuteTransactionAsync, hread]
    exact ⟨rfl, fun _ hc => by cases hc⟩
  · refine Or.inr ?_
    rw [makeTransactionAsync, if_neg hinvalid, TransactionService.tryExecuteTransactionAsync, hread]
    exact ⟨rfl, fun _ hc => by cases hc⟩
  by_cases hempty : account.isEmpty = true
  · refine Or.inr ?_
    rw [makeTransactionAsync, if_neg hinvalid, TransactionService.tryExecuteTransactionAsync, hread]
    dsimp only
    rw [if_pos hempty]
    exact ⟨rfl, fun _ hc => by cases hc⟩
  have hne : account.isEmpty = false := Bool.eq_false_iff.mpr hempty
  by_cases hcan : account.canExecute request = true
  · have haccepted : TransactionService.Accepted json s id request account :=
      ⟨hvalid, hread, hne, hcan⟩
    exact Or.inl ⟨account, haccepted, makeTransactionAsync_of_accepted now haccepted⟩
  · refine Or.inr ?_
    rw [makeTransactionAsync_of_refused now hvalid hread hne (Bool.eq_false_iff.mpr hcan)]
    exact ⟨rfl, fun _ hc => by cases hc⟩

/-- Alone, and with reads that do not throw, a call ends in a result: what `toResult` makes an
    exception of, the service never returns. -/
theorem makeTransactionAsync_returns
    (hread : request.isInvalid = false →
      ∀ fault, getAccountByIdAsync json id s.redis ≠ .error fault) :
    ∃ result, (makeTransactionAsync json none id request now s).2 = .ok result := by
  by_cases hinvalid : request.isInvalid = true
  · rw [makeTransactionAsync, if_pos hinvalid]
    exact ⟨_, rfl⟩
  have hvalid : request.isInvalid = false := Bool.eq_false_iff.mpr hinvalid
  rw [makeTransactionAsync, if_neg hinvalid, TransactionService.tryExecuteTransactionAsync]
  rcases haccount : getAccountByIdAsync json id s.redis with fault | _ | account
  · exact absurd haccount (hread hvalid fault)
  · exact ⟨_, rfl⟩
  · dsimp only
    by_cases hempty : account.isEmpty = true
    · rw [if_pos hempty]
      exact ⟨_, rfl⟩
    · rw [if_neg hempty]
      by_cases hcan : account.canExecute request = false
      · rw [if_pos hcan]
        exact ⟨_, rfl⟩
      · rw [if_neg hcan]
        exact ⟨_, rfl⟩

end Outcomes

/-- What a 200 leaves of the transaction `t`: added to the set of its account, published once, and
    answered; no other set has changed. -/
structure Posted (json : TransactionJson) (s s' : Stores) (t : Transaction)
    (body : TransactionResponse) : Prop where
  set : s'.redis (getBankStatementKey t.accountId)
    = ((s.redis (getBankStatementKey t.accountId)).add t.realizadaEm.score
        (json.serialize t)).keepTop 10
  others : ∀ k, k ≠ t.accountId →
    s'.redis (getBankStatementKey k) = s.redis (getBankStatementKey k)
  bus : s'.bus = s.bus ++ [t]
  limite : body.limite.toInt = t.limite.toInt
  saldo : body.saldo.toInt = t.saldo.toInt

/-- **The effects of one POST.**  Run alone and with no external step throwing, a call ends in 422,
    404 or 200.  A refusal leaves the sets and the bus as they were; a 200 adds one record to the
    set of the account read, publishes that record and answers with its balance.  It is a 200
    exactly for a valid request whose account exists and can execute it. -/
theorem makeTransactionAsync_effects (json : TransactionJson) (id : Int32)
    (request : TransactionRequest) (now : DateTime) (s s' : Stores)
    (outcome : Except Fault (HttpResult TransactionResponse))
    (hread : request.isInvalid = false →
      ∀ fault, getAccountByIdAsync json id s.redis ≠ .error fault)
    (hcall : makeTransactionAsync json none id request now s = (s', outcome)) :
    (outcome = .ok .unprocessableEntity ∨ outcome = .ok .notFound ∨
        ∃ body, outcome = .ok (.ok body)) ∧
      (outcome = .ok .unprocessableEntity ∨ outcome = .ok .notFound →
        s'.redis = s.redis ∧ s'.bus = s.bus) ∧
      (∀ body, outcome = .ok (.ok body) → ∃ account t,
        getAccountByIdAsync json id s.redis = .ok (some account) ∧
          t = (account.execute request now).2 ∧ t.accountId = account.id ∧
          Posted json s s' t body) ∧
      ((∃ body, outcome = .ok (.ok body)) ↔ request.isInvalid = false ∧ ∃ account,
        getAccountByIdAsync json id s.redis = .ok (some account) ∧ account.isEmpty = false ∧
          account.canExecute request = true) := by
  obtain ⟨result, hresult⟩ := makeTransactionAsync_returns (s := s) now hread
  rw [hcall] at hresult
  obtain rfl : outcome = .ok result := hresult
  have hwhich : (Except.ok result : Except Fault _) = .ok .unprocessableEntity ∨
      (Except.ok result : Except Fault _) = .ok .notFound ∨
        ∃ body, (Except.ok result : Except Fault _) = .ok (.ok body) := by
    cases result with
    | ok body => exact Or.inr (Or.inr ⟨body, rfl⟩)
    | notFound => exact Or.inr (Or.inl rfl)
    | unprocessableEntity => exact Or.inl rfl
  refine ⟨hwhich, ?_⟩
  rcases makeTransactionAsync_cases now json id request s with
    ⟨account, haccepted, hposted⟩ | ⟨hsame, hnot⟩
  · obtain ⟨rfl, houtcome⟩ := Prod.mk.inj (hcall.symm.trans hposted)
    obtain rfl := Except.ok.inj houtcome
    refine ⟨?_, fun body hbody => ?_, ?_⟩
    · rintro (hc | hc)
      · cases hc
      · cases hc
    · obtain rfl := HttpResult.ok.inj (Except.ok.inj hbody)
      refine ⟨account, _, haccepted.read, rfl, account.execute_accountId request now, ?_, ?_, rfl,
        ?_, Int32.toInt_toInt64 _⟩
      · exact save_of_eq json s.redis _ rfl
      · exact fun k hk => save_of_ne json s.redis _ hk.symm
      · rw [Account.execute_limite]
        exact Int32.toInt_toInt64 _
    · exact iff_of_true ⟨_, rfl⟩
        ⟨haccepted.valid, account, haccepted.read, haccepted.nonempty, haccepted.can⟩
  · rw [hcall] at hsame hnot
    obtain rfl : s' = s := hsame
    refine ⟨fun _ => ⟨rfl, rfl⟩, fun body hbody => absurd hbody (hnot body), ?_⟩
    refine iff_of_false (fun ⟨body, hbody⟩ => hnot body hbody) ?_
    rintro ⟨hvalid, account, haccount, hne, hcan⟩
    have hposted := makeTransactionAsync_of_accepted now
      (⟨hvalid, haccount, hne, hcan⟩ : TransactionService.Accepted json s' id request account)
    exact hnot _ (Prod.mk.inj (hcall.symm.trans hposted)).2

theorem makeTransactionAsync_effects_credit : ∃ body,
    (makeTransactionAsync systemTextJson none 1 TransactionService.creditOfTen
      (.ofTicks 5 .localTime) TransactionService.seededStores).2 = .ok (.ok body) :=
  (makeTransactionAsync_effects systemTextJson 1 TransactionService.creditOfTen
    (.ofTicks 5 .localTime) TransactionService.seededStores _ _
    (fun _ fault hc => by rw [TransactionService.seededStores_read] at hc; cases hc)
    rfl).2.2.2.mpr ⟨by decide, _, TransactionService.seededStores_read, by decide, by decide⟩

end Endpoints

/-! ## The reference ledger -/

namespace Ledger

/-- What a request asks of a ledger. -/
inductive Posting where
  | invalid | credit (v : Int) | debit (v : Int)
  deriving DecidableEq, Repr

/-- What a ledger answers: the limit and the new balance, or a refusal. -/
inductive Answer where
  | posted (limite saldo : Int) | refused
  deriving DecidableEq, Repr

/-- 32-bit wrap-around. -/
def wrap32 (z : Int) : Int := z.bmod (2 ^ 32)

/-- One posting on a ledger with limit `limite` and balance `b`. -/
def post (limite b : Int) : Posting → Int × Answer
  | .invalid => (b, .refused)
  | .credit v => (wrap32 (b + v), .posted limite (wrap32 (b + v)))
  | .debit v =>
    if v ≤ wrap32 (limite + b) then (wrap32 (b - v), .posted limite (wrap32 (b - v)))
    else (b, .refused)

/-- Postings one after another: the final balance and the answers. -/
def postAll (limite : Int) : Int → List Posting → Int × List Answer
  | b, [] => (b, [])
  | b, p :: ps =>
    ((postAll limite (post limite b p).1 ps).1,
      (post limite b p).2 :: (postAll limite (post limite b p).1 ps).2)

end Ledger

/-! ## The service as a ledger -/

open Ledger Endpoints

/-- The posting a request is. -/
def TransactionRequest.posting (r : TransactionRequest) : Posting :=
  if r.isInvalid then .invalid
  else if r.tipo = Transaction.credit then .credit r.valor.toInt
  else .debit r.valor.toInt

section Decisions

variable {r : TransactionRequest} {account : Account}

/-- What `CanExecute` lets through, the ledger posts, with the balance `Execute` computes. -/
theorem post_of_canExecute (now : DateTime) (hvalid : r.isInvalid = false)
    (hcan : account.canExecute r = true) :
    post account.limite.toInt account.saldo.toInt r.posting
      = ((account.execute r now).2.saldo.toInt,
        .posted account.limite.toInt (account.execute r now).2.saldo.toInt) := by
  have hposting : ¬ r.isInvalid = true := by rw [hvalid]; decide
  rw [TransactionRequest.posting, if_neg hposting]
  by_cases hcredit : r.tipo = Transaction.credit
  · rw [if_pos hcredit, post, account.execute_saldo_credit r now hcredit, Int32.toInt_add, wrap32]
  · have hdebt : r.tipo = Transaction.debt := ((r.valid_iff).mp hvalid).1.resolve_left hcredit
    have hle : r.valor.toInt ≤ wrap32 (account.limite.toInt + account.saldo.toInt) := by
      have hcheck := Int32.le_iff_toInt_le.mp ((account.canExecute_debt r hdebt).mp hcan)
      rwa [Int32.toInt_add] at hcheck
    rw [if_neg hcredit, post, if_pos hle, account.execute_saldo_other r now hcredit,
      Int32.toInt_sub, wrap32]

/-- What `CanExecute` refuses, the ledger refuses: a debit past the limit. -/
theorem post_of_refused (hvalid : r.isInvalid = false) (hcan : account.canExecute r = false) :
    post account.limite.toInt account.saldo.toInt r.posting = (account.saldo.toInt, .refused) := by
  have hposting : ¬ r.isInvalid = true := by rw [hvalid]; decide
  obtain ⟨hdebt, hover⟩ := (account.canExecute_eq_false_iff r).mp hcan
  have hgt : ¬ r.valor.toInt ≤ wrap32 (account.limite.toInt + account.saldo.toInt) := by
    rw [wrap32, ← Int32.toInt_add, not_le]
    exact Int32.lt_iff_toInt_lt.mp hover
  rw [TransactionRequest.posting, if_neg hposting, if_neg (Account.debt_ne_credit hdebt), post,
    if_neg hgt]

end Decisions

/-- The answer an HTTP outcome is; a 404 or an exception is none. -/
def answerOf : Except Fault (HttpResult TransactionResponse) → Option Answer
  | .ok (.ok body) => some (.posted body.limite.toInt body.saldo.toInt)
  | .ok .unprocessableEntity => some .refused
  | .ok .notFound => none
  | .error _ => none

section Serving

variable (json : TransactionJson) (k : Int32)

/-- POST requests of account `k` served one after another, each with its clock reading: the stores
    at the end and the outcomes. -/
def serve : Stores → List (TransactionRequest × DateTime) →
    Stores × List (Except Fault (HttpResult TransactionResponse))
  | s, [] => (s, [])
  | s, (r, now) :: rest =>
    let (s', outcome) := makeTransactionAsync json none k r now s
    ((serve s' rest).1, outcome :: (serve s' rest).2)

/-- A clock that only advances: each accepted request is scored above everything stored for `k`. -/
def Advancing : Stores → List (TransactionRequest × DateTime) → Prop
  | _, [] => True
  | s, (r, now) :: rest =>
    ((∃ body, (makeTransactionAsync json none k r now s).2 = .ok (.ok body)) →
      ∀ e ∈ (s.redis (getBankStatementKey k)).entries, SortedSet.score e < now.score) ∧
    Advancing (makeTransactionAsync json none k r now s).1 rest

/-- The set of account `k` carries the balance `b` under the limit `L`, in its top record. -/
structure Refines (L : Int32) (b : Int) (s : Stores) : Prop where
  recorded : Recorded json (s.redis (getBankStatementKey k))
  length_le : (s.redis (getBankStatementKey k)).entries.length ≤ 10
  top : ∃ t, (s.redis (getBankStatementKey k)).last? = some (entryOf json t) ∧
    t.accountId = k ∧ t.limite = L ∧ t.saldo.toInt = b

variable {json k} {L : Int32}

/-- Both reads of a refining state show the balance. -/
theorem Refines.reads {b : Int} {s : Stores} (h : Refines json k L b s) (now : DateTime) :
    (∃ account, getAccountByIdAsync json k s.redis = .ok (some account) ∧
        account.id = k ∧ account.limite = L ∧ account.saldo.toInt = b) ∧
      ∃ statement, CachedRepository.getBankStatementAsync json k now s.redis = .ok statement ∧
        statement.saldo.total.toInt = b ∧ statement.saldo.limite = L := by
  obtain ⟨t, hlast, hid, hlimite, hsaldo⟩ := h.top
  have hreadable : Readable json k s.redis :=
    ⟨h.recorded, List.ne_nil_of_mem (SortedSet.mem_of_last? hlast),
      h.length_le.trans (by decide)⟩
  obtain ⟨u, hu, haccount, statement, hstatement, htotal, hlim⟩ := hreadable.readsAgree now
  rw [hlast, Option.some.injEq] at hu
  obtain rfl := entryOf_injective json hu
  exact ⟨⟨_, haccount, hid, hlimite, hsaldo⟩, statement, hstatement, by rw [htotal, hsaldo],
    by rw [hlim, hlimite]⟩

/-- The balance of `k` is read in the set of `k` only. -/
theorem Refines.congr {b : Int} {s s' : Stores} (h : Refines json k L b s)
    (hset : s'.redis (getBankStatementKey k) = s.redis (getBankStatementKey k)) :
    Refines json k L b s' := by
  obtain ⟨hrecorded, hlength, htop⟩ := h
  exact ⟨by rwa [hset], by rwa [hset], by rwa [hset]⟩

/-- What a statement is read from, where the set carries the balance `b` under the limit `L`. -/
theorem Refines.exists_shown {b : Int} {s : Stores} (h : Refines json k L b s) :
    ∃ t, ((s.redis (getBankStatementKey k)).entries.take 11).getLast? = some (entryOf json t) ∧
      t.limite = L ∧ t.saldo.toInt = b := by
  obtain ⟨t, hlast, -, hlimite, hsaldo⟩ := h.top
  have hlength := h.length_le
  refine ⟨t, ?_, hlimite, hsaldo⟩
  rw [List.take_of_length_le (by omega)]
  exact hlast

/-- A saved record scored above everything stored is the new top. -/
theorem Refines.save {b : Int} {s s' : Stores} (h : Refines json k L b s) {t : Transaction}
    (hs' : s'.redis = save json s.redis t) (hid : t.accountId = k) (hlimite : t.limite = L)
    (hscore : ∀ e ∈ (s.redis (getBankStatementKey k)).entries,
      SortedSet.score e < t.realizadaEm.score) : Refines json k L t.saldo.toInt s' := by
  have hset : s'.redis (getBankStatementKey k) = ((s.redis (getBankStatementKey k)).add
      t.realizadaEm.score (json.serialize t)).keepTop 10 := by
    rw [hs', save_of_eq json s.redis t hid]
  refine ⟨?_, ?_, t, ?_, hid, hlimite, rfl⟩
  · rw [hset]
    exact (h.recorded.add t).removeRange 0 _
  · rw [hset, SortedSet.length_keepTop]
    omega
  · rw [hset, SortedSet.last?_keepTop (by decide)]
    exact SortedSet.last?_add_of_forall_lt hscore

/-- **One request is one posting**: same answer, and the stores refine the new balance. -/
theorem makeTransactionAsync_refines_post (hk : k ≠ 0) {b : Int} {s : Stores}
    (h : Refines json k L b s) (r : TransactionRequest) (now : DateTime)
    (hclock : (∃ body, (makeTransactionAsync json none k r now s).2 = .ok (.ok body)) →
      ∀ e ∈ (s.redis (getBankStatementKey k)).entries, SortedSet.score e < now.score) :
    answerOf (makeTransactionAsync json none k r now s).2 = some (post L.toInt b r.posting).2 ∧
      Refines json k L (post L.toInt b r.posting).1
        (makeTransactionAsync json none k r now s).1 := by
  obtain ⟨⟨account, hread, hid, rfl, rfl⟩, -⟩ := h.reads now
  have hne : account.isEmpty = false := decide_eq_false fun hz => hk (hid ▸ hz.1)
  by_cases hinvalid : r.isInvalid = true
  · -- 422 before anything is read
    have hmake : makeTransactionAsync json none k r now s = (s, .ok .unprocessableEntity) :=
      if_pos hinvalid
    rw [hmake, TransactionRequest.posting, if_pos hinvalid]
    exact ⟨rfl, h⟩
  have hvalid : r.isInvalid = false := Bool.eq_false_iff.mpr hinvalid
  by_cases hcan : account.canExecute r = true
  · -- accepted: the record saved carries the balance of the posting
    rw [makeTransactionAsync_of_accepted now ⟨hvalid, hread, hne, hcan⟩] at hclock ⊢
    rw [post_of_canExecute now hvalid hcan]
    refine ⟨?_, h.save rfl ?_ (account.execute_limite r now) (hclock ⟨_, rfl⟩)⟩
    · show some (Answer.posted account.limite.toInt64.toInt _) = _
      rw [Int32.toInt_toInt64, Int32.toInt_toInt64]
    · rw [Account.execute_accountId, hid]
  · -- refused: only a debit can be, and only for want of limit
    have hrefused : account.canExecute r = false := Bool.eq_false_iff.mpr hcan
    rw [makeTransactionAsync_of_refused now hvalid hread hne hrefused,
      post_of_refused hvalid hrefused]
    exact ⟨rfl, h⟩

/-- Runs refine runs. -/
theorem serve_refines_postAll (hk : k ≠ 0) (reqs : List (TransactionRequest × DateTime)) :
    ∀ {b : Int} {s : Stores}, Refines json k L b s → Advancing json k s reqs →
      (serve json k s reqs).2.map answerOf
          = (postAll L.toInt b (reqs.map fun q => q.1.posting)).2.map some ∧
        Refines json k L (postAll L.toInt b (reqs.map fun q => q.1.posting)).1
          (serve json k s reqs).1 := by
  induction reqs with
  | nil =>
    intro b s h _
    exact ⟨rfl, h⟩
  | cons q rest ih =>
    intro b s h hadv
    obtain ⟨r, now⟩ := q
    obtain ⟨hclock, hrest⟩ := hadv
    obtain ⟨hanswer, hrefines⟩ := makeTransactionAsync_refines_post hk h r now hclock
    obtain ⟨hanswers, hfinal⟩ := ih hrefines hrest
    refine ⟨?_, hfinal⟩
    rw [serve, List.map_cons, List.map_cons, postAll, List.map_cons, hanswer, hanswers]

/-- A clock that advances over a run advances over its beginning. -/
theorem Advancing.take {reqs : List (TransactionRequest × DateTime)} :
    ∀ {s : Stores}, Advancing json k s reqs → ∀ n, Advancing json k s (reqs.take n) := by
  induction reqs with
  | nil =>
    intro s h n
    rwa [List.take_nil]
  | cons q rest ih =>
    intro s h n
    cases n with
    | zero => exact trivial
    | succ n => exact ⟨h.1, ih h.2 n⟩

/-- A seed alone carries its own balance and limit. -/
theorem refines_of_seed {seed : Transaction} {s : Stores}
    (hseed : (s.redis (getBankStatementKey k)).entries = [entryOf json seed])
    (hid : seed.accountId = k) : Refines json k seed.limite seed.saldo.toInt s := by
  refine ⟨recorded_of_singleton hseed, ?_, seed, ?_, hid, rfl, rfl⟩
  · rw [hseed, List.length_singleton]
    omega
  · rw [SortedSet.last?, hseed, List.getLast?_singleton]

/-- **The cached service refines the reference ledger.**  From a seeded account, whatever POST
    requests are served one after another, the outcomes are the ledger's answers, and after every
    step both reads carry the ledger's balance and limit, however much has been trimmed away. -/
theorem serve_refines_ledger (json : TransactionJson) (k : Int32) (seed : Transaction)
    (s : Stores) (hk : k ≠ 0) (hid : seed.accountId = k)
    (hseed : (s.redis (getBankStatementKey k)).entries = [entryOf json seed])
    (reqs : List (TransactionRequest × DateTime)) (hadv : Advancing json k s reqs) :
    (serve json k s reqs).2.map answerOf
        = (postAll seed.limite.toInt seed.saldo.toInt (reqs.map fun q => q.1.posting)).2.map some ∧
      ∀ (n : Nat) (now : DateTime),
        (∃ account,
          getAccountByIdAsync json k (serve json k s (reqs.take n)).1.redis = .ok (some account) ∧
          account.id = k ∧ account.limite = seed.limite ∧ account.saldo.toInt
            = (postAll seed.limite.toInt seed.saldo.toInt
                ((reqs.take n).map fun q => q.1.posting)).1) ∧
        ∃ statement,
          CachedRepository.getBankStatementAsync json k now
              (serve json k s (reqs.take n)).1.redis = .ok statement ∧
          statement.saldo.total.toInt
            = (postAll seed.limite.toInt seed.saldo.toInt
                ((reqs.take n).map fun q => q.1.posting)).1 ∧
          statement.saldo.limite = seed.limite := by
  have hstart := refines_of_seed hseed hid
  refine ⟨(serve_refines_postAll hk reqs hstart hadv).1, fun n now => ?_⟩
  exact (serve_refines_postAll hk (reqs.take n) hstart (hadv.take n)).2.reads now

/-- A credit of 10 and a debit of 2000, under a limit of 1000. -/
def creditThenDebit : List (TransactionRequest × DateTime) :=
  [(⟨10, 'c', some ['x']⟩, (.ofTicks 5 .localTime)),
    (⟨2000, 'd', some ['y']⟩, (.ofTicks 6 .localTime))]

theorem serve_refines_ledger_creditThenDebit :
    (serve systemTextJson 1 TransactionService.seededStores creditThenDebit).2.map answerOf
      = [some (.posted 1000 10), some .refused] := by
  have hadv : Advancing systemTextJson 1 TransactionService.seededStores creditThenDebit := by
    refine ⟨fun _ => by decide, fun _ e he => ?_, trivial⟩
    rcases mem_saveInsert _ _ _ (mem_saveTrim _ _ he) with rfl | hmem
    · decide
    · obtain rfl := List.mem_singleton.mp hmem
      decide
  refine (serve_refines_ledger systemTextJson 1 InitializeRedis.seedRecord
    TransactionService.seededStores (by decide) rfl InitializeRedis.seededCache_entries
    creditThenDebit hadv).1.trans ?_
  decide

end Serving

end Rinha
