/-
  Debit safety under every interleaving.

  Calls read stale balances and overwrite one another, and every sum wraps modulo 2^32; still a
  debit that goes through is within the limit.  Two facts carry this.  The limit of every stored
  record is non-negative, because `Execute` copies it from the account it read (`Safe`).  And a
  debit that passes the check against a non-negative limit does not wrap, even when
  `Limite + Saldo` does (`Account.execute_debt_exact`).
-/
import RinhaBackend.RequestRun

namespace Rinha

namespace DebitSafety

open CachedRepository Endpoints RequestRun

/-- The account a call holds. -/
def accountOf : Phase → Option Account
  | .read account => some account
  | phase => phase.executed.map Prod.fst

/-- A stored record: its limit is non-negative, and if it is a debit, some call made it. -/
def Backed (calls : List Call) (t : Transaction) : Prop :=
  0 ≤ t.limite ∧ (t.tipo = Transaction.debt →
    ∃ c ∈ calls, ∃ account, c.phase.added = some (account, t))

/-- The invariant of all runs. -/
structure Safe (json : TransactionJson) (s : State) : Prop where
  sound : AllSound s
  limits : ∀ c ∈ s.calls, ∀ account, accountOf c.phase = some account → 0 ≤ account.limite
  stored : ∀ key, ∀ e ∈ (s.redis key).entries, ∃ t, e = entryOf json t ∧ Backed s.calls t

/-- The cache before any request: every member is the record of a credit under a non-negative
    limit, as the start-up service stores one for each account. -/
def SeededWithCredits (json : TransactionJson) (db : Redis) : Prop :=
  ∀ key, ∀ e ∈ (db key).entries,
    ∃ seed, e = entryOf json seed ∧ seed.tipo = Transaction.credit ∧ 0 ≤ seed.limite

variable {json : TransactionJson}

theorem safe_of_seeded {s : State} (hseed : SeededWithCredits json s.redis) (hfresh : Fresh s) :
    Safe json s := by
  refine ⟨hfresh.allSound, ?_, ?_⟩
  · intro c hc account haccount
    rw [hfresh c hc] at haccount
    cases haccount
  · intro key e he
    obtain ⟨seed, rfl, htipo, hlimite⟩ := hseed key e he
    refine ⟨seed, rfl, hlimite, fun hdebt => ?_⟩
    rw [htipo] at hdebt
    exact absurd hdebt (by decide)

/-- An account read from a safe state has a non-negative limit. -/
theorem Safe.limite_of_read {s : State} (h : Safe json s) {id : Int32} {account : Account}
    (hread : getAccountByIdAsync json id s.redis = .ok (some account)) : 0 ≤ account.limite := by
  have hrecords : Records json (fun _ t => Backed s.calls t) s.redis := fun id => h.stored _
  obtain ⟨t, -, ⟨hlimite, -⟩, rfl⟩ := hrecords.read hread
  exact hlimite

/-- The limit of the account a call holds, after a move. -/
theorem Safe.limits_of_moves {s : State} (h : Safe json s) {call : Call} (hcall : call ∈ s.calls)
    {now : DateTime} {stores : Stores} {phase : Phase}
    (hmove : Moves json call now (s.storesOf call.host) call.phase stores phase)
    {account : Account} (haccount : accountOf phase = some account) : 0 ≤ account.limite := by
  have hold : ∀ a, accountOf call.phase = some a → 0 ≤ a.limite := h.limits call hcall
  generalize hp : call.phase = before at hmove hold
  cases hmove with
  | refuse _ | validate _ | notFound _ _ | exceed _ _ => cases haccount
  -- the one move that takes an account from the cache; the others pass theirs on
  | read _ hread _ =>
    cases haccount
    exact h.limite_of_read hread
  | execute _ _ | add _ _ | trim _ _ | publish _ _ | respond _ _ =>
    cases haccount
    exact hold _ rfl

/-- What is stored after a move was stored before, or is the record of the call that moved. -/
theorem mem_of_moves {call : Call} {now : DateTime} {stores stores' : Stores}
    {phase phase' : Phase} (h : Moves json call now stores phase stores' phase') {key : Text}
    {e : Nat ×ₗ Text} (he : e ∈ (stores'.redis key).entries) :
    e ∈ (stores.redis key).entries ∨ ∃ account t, e = entryOf json t ∧
      phase = .adding account t ∧ phase' = .trimming account t := by
  rcases h.effect with ⟨account, t, hbefore, hafter, hredis⟩ | ⟨-, hredis⟩
  · rw [hredis] at he
    rcases mem_saveInsert json _ t he with rfl | hmem
    · exact Or.inr ⟨account, t, rfl, hbefore, hafter⟩
    · exact Or.inl hmem
  · exact Or.inl (mem_of_trimmed hredis he)

theorem safe_step {s s' : State} {a : Action} (hI : Safe json s) (h : step json s a = some s') :
    Safe json s' := by
  refine ⟨allSound_step hI.sound h, ?_, ?_⟩
  · obtain ⟨call, stores, phase, hcall, hmove, rfl⟩ := step_moves h
    intro c hc account haccount
    rcases mem_put hc with hc | rfl
    · exact hI.limits c hc account haccount
    · exact hI.limits_of_moves (List.mem_of_getElem? hcall) hmove haccount
  · have hbacked : ∀ t, Backed s.calls t → Backed s'.calls t := by
      rintro t ⟨hlimite, hdebt⟩
      refine ⟨hlimite, fun htipo => ?_⟩
      obtain ⟨c, hc, account, hadded⟩ := hdebt htipo
      obtain ⟨c', hc', -, hadded'⟩ := exists_added_step h hc hadded
      exact ⟨c', hc', account, hadded'⟩
    obtain ⟨call, stores, phase, hcall, hmove, rfl⟩ := step_moves h
    intro key e he
    rcases mem_of_moves hmove he with hmem | ⟨account, t, rfl, hbefore, rfl⟩
    · obtain ⟨t, rfl, ht⟩ := hI.stored key e hmem
      exact ⟨t, rfl, hbacked t ht⟩
    · -- the record just added: its limit is that of the account the call read
      have hcmem : call ∈ s.calls := List.mem_of_getElem? hcall
      have hex : Executed call.request account t :=
        (hI.sound call hcmem).executed (by rw [hbefore]; rfl)
      obtain ⟨when, rfl⟩ := hex.made
      refine ⟨_, rfl, ?_, fun _ => ⟨_, Parties.moved_mem hcall _, account, rfl⟩⟩
      rw [Account.execute_limite]
      exact hI.limits call hcmem account (by rw [hbefore]; rfl)

/-- A debit a call executed is exact and within the limit. -/
theorem Safe.debit_exact {s : State} (h : Safe json s) {c : Call} (hc : c ∈ s.calls)
    {account : Account} {t : Transaction} (hex : c.phase.executed = some (account, t))
    (htipo : t.tipo = Transaction.debt) :
    t.saldo.toInt = account.saldo.toInt - c.request.valor.toInt ∧
      -t.limite.toInt ≤ t.saldo.toInt := by
  obtain ⟨hvalid, hcan, now, rfl⟩ := (h.sound c hc).executed hex
  have hL : 0 ≤ account.limite := by
    refine h.limits c hc account ?_
    rw [accountOf]
    · rw [hex]
      rfl
    · rintro a hread
      rw [hread] at hex
      cases hex
  rw [Account.execute_limite]
  exact account.execute_debt_exact c.request now htipo hL ((c.request.valid_iff).mp hvalid).2.2 hcan

/-- **Debits stay within the limit.**  In every reachable state each stored record of a debit,
    and each success answered to a debit, has a balance of at least minus the limit, and that
    balance is the exact difference of the balance the call read and the amount. -/
theorem debits_within_limit (json : TransactionJson) (s s' : State)
    (hseed : SeededWithCredits json s.redis) (hfresh : Fresh s) (actions : List Action)
    (hrun : Transition.run (step json) s actions = some s') :
    (∀ key, ∀ e ∈ (s'.redis key).entries, ∃ t, e = entryOf json t ∧
      (t.tipo = Transaction.debt → -t.limite.toInt ≤ t.saldo.toInt ∧
        ∃ c ∈ s'.calls, ∃ account, c.phase.added = some (account, t) ∧
          t.saldo.toInt = account.saldo.toInt - c.request.valor.toInt)) ∧
      ∀ c ∈ s'.calls, c.request.tipo = Transaction.debt → ∀ executed body,
        c.phase = .returned executed (.ok (.ok body)) →
          -body.limite.toInt ≤ body.saldo.toInt ∧ ∃ account t, executed = some (account, t) ∧
            body.saldo.toInt = account.saldo.toInt - c.request.valor.toInt := by
  have hsafe : Safe json s' := Transition.run_invariant (step json) (fun _ _ _ => safe_step)
    (safe_of_seeded hseed hfresh) hrun
  constructor
  · intro key e he
    obtain ⟨t, rfl, -, hdebt⟩ := hsafe.stored key e he
    refine ⟨t, rfl, fun htipo => ?_⟩
    obtain ⟨c, hc, account, hadded⟩ := hdebt htipo
    obtain ⟨hexact, hlimit⟩ := hsafe.debit_exact hc (executed_of_added hadded) htipo
    exact ⟨hlimit, c, hc, account, hadded, hexact⟩
  · intro c hc htipo executed body hphase
    have hsound := hsafe.sound c hc
    rw [hphase] at hsound
    obtain ⟨account, t, rfl, hex, rfl⟩ := hsound.success
    obtain ⟨now, hmade⟩ := hex.made
    have htdebt : t.tipo = Transaction.debt := by rw [hmade, Account.execute_tipo, htipo]
    have hexecuted : c.phase.executed = some (account, t) := by
      rw [hphase]
      rfl
    obtain ⟨hexact, hlimit⟩ := hsafe.debit_exact hc hexecuted htdebt
    dsimp only
    rw [Int32.toInt_toInt64, Int32.toInt_toInt64]
    exact ⟨hlimit, account, t, rfl, hexact⟩

theorem seededCache_seededWithCredits :
    SeededWithCredits systemTextJson InitializeRedis.seededCache := by
  intro key e he
  rcases mem_saveInsert systemTextJson Redis.empty _ he with rfl | hmem
  · exact ⟨_, rfl, rfl, by decide⟩
  · cases hmem

/-- Two debits of 600 on account 1, whose limit is 1000, on two instances. -/
def twoDebits : State :=
  ⟨InitializeRedis.seededCache, [], fun _ => 0,
    [⟨0, 1, ⟨600, 'd', some ['x']⟩, .received⟩, ⟨1, 1, ⟨600, 'd', some ['y']⟩, .received⟩]⟩

/-- Both read the seed, one after the other goes on to its end: the second on a stale read. -/
def staleDebit : List Action :=
  List.replicate 2 ⟨0, .ofTicks 5 .localTime⟩ ++ List.replicate 2 ⟨1, .ofTicks 5 .localTime⟩
    ++ List.replicate 5 ⟨0, .ofTicks 6 .localTime⟩ ++ List.replicate 5 ⟨1, .ofTicks 7 .localTime⟩

theorem debits_within_limit_staleDebit :
    ∃ s', Transition.run (step systemTextJson) twoDebits staleDebit = some s' ∧
      (s'.redis (getBankStatementKey 1)).entries.length = 3 ∧
      ∀ key, ∀ e ∈ (s'.redis key).entries, ∃ t, e = entryOf systemTextJson t ∧
        (t.tipo = Transaction.debt → -t.limite.toInt ≤ t.saldo.toInt ∧
          ∃ c ∈ s'.calls, ∃ account, c.phase.added = some (account, t) ∧
            t.saldo.toInt = account.saldo.toInt - c.request.valor.toInt) := by
  have hdone : (Transition.run (step systemTextJson) twoDebits staleDebit).any (fun s' =>
      (s'.redis (getBankStatementKey 1)).entries.length = 3) = true := by decide +kernel
  obtain ⟨s', hrun, hthree⟩ := (Option.any_eq_true _ _).mp hdone
  refine ⟨s', hrun, of_decide_eq_true hthree, ?_⟩
  refine (debits_within_limit systemTextJson twoDebits s' seededCache_seededWithCredits
    (fun c hc => ?_) staleDebit hrun).1
  rcases List.mem_pair.mp hc with rfl | rfl <;> rfl

end DebitSafety

end Rinha
