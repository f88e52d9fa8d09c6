/-
  `CachedRepository`: balances and statements over Redis.

  One sorted set per account holds its last records, scored by their time.  The balance of an
  account is the `Saldo` of its highest-ranked record (`GetAccountByIdAsync`, descending ranks
  `0 .. 1`); a statement is read with the descending ranks `-11 .. -1` (`GetLastTransactionsAsync`);
  `Save` adds a record and then cuts the set to its ten highest (`0 .. -11`, ascending).  The two
  commands of `Save` are separate, and other instances may run theirs in between, so they are
  defined apart (`saveInsert`, `saveTrim`) and `save` is their composition.

  Reading fails only on a text the serializer does not read back; sets whose entries are all
  records of transactions (`Recorded`) never do, and every command keeps them so.
-/
import RinhaBackend.Json
import RinhaBackend.Redis

namespace Rinha

/-- The exceptions a call can end in. -/
inductive Fault where
  | jsonException | redisException | natsException | npgsqlException
  | operationCanceledException | invalidOperationException
  deriving DecidableEq, Repr

namespace CachedRepository

variable (json : TransactionJson)

/-- `BankStatementPrefix`. -/
def bankStatementPrefix : Text := "BankStatement:".toList

/-- `GetBankStatementKey`. -/
def getBankStatementKey (id : Int32) : Text := bankStatementPrefix ++ TextFormat.printInt id.toInt

/-- `GetAccountByIdCore`; `none` is the null account. -/
def getAccountByIdCore (id : Int32) (db : Redis) : Except Fault (Option Account) :=
  let transactions := db.sortedSetRangeByRank (getBankStatementKey id) 0 1 .descending
  match transactions.head? with
  | none => .ok none
  | some lastTransaction =>
    if lastTransaction.isEmpty then .ok none
    else match json.deserialize lastTransaction with
      | none => .error .jsonException
      | some t => .ok (some ⟨t.accountId, t.limite, t.saldo⟩)

/-- `GetAccountByIdAsync`. -/
def getAccountByIdAsync (id : Int32) (db : Redis) : Except Fault (Option Account) :=
  getAccountByIdCore json id db

/-- The loop of `GetLastTransactionsAsync`: the balance comes from index 0, and a record with no
    description is skipped there and only there. -/
def readTransactions (now : DateTime) : Nat → List Text → Option Balance →
    List BankStatementTransaction → Except Fault (Option Balance × List BankStatementTransaction)
  | _, [], balance, transactions => .ok (balance, transactions)
  | index, x :: xs, balance, transactions =>
    if index = 0 then
      -- the one record that is read as a whole: it carries the balance
      match json.deserialize x with
      | none => .error .jsonException
      | some b =>
        let balance := some ⟨b.saldo, b.limite, now⟩
        -- the `continue`: a seed is not listed
        if b.descricao = none ∨ b.descricao = some [] then
          readTransactions now (index + 1) xs balance transactions
        else match json.deserializeListed x with
          | none => .error .jsonException
          | some t => readTransactions now (index + 1) xs balance (transactions ++ [t])
    else match json.deserializeListed x with
      | none => .error .jsonException
      | some t => readTransactions now (index + 1) xs balance (transactions ++ [t])

/-- `GetLastTransactionsAsync`; `none` is the null balance. -/
def getLastTransactionsAsync (id : Int32) (now : DateTime) (db : Redis) :
    Except Fault (Option Balance × List BankStatementTransaction) :=
  let jsonValues := db.sortedSetRangeByRank (getBankStatementKey id) (-11) (-1) .descending
  readTransactions json now 0 jsonValues none []

/-- `GetBankStatementAsync`. -/
def getBankStatementAsync (id : Int32) (now : DateTime) (db : Redis) :
    Except Fault BankStatement :=
  match getLastTransactionsAsync json id now db with
  | .error e => .error e
  | .ok (none, _) => .ok (BankStatement.default now)
  | .ok (some balance, transactions) =>
    if balance.isEmpty then .ok (BankStatement.default now) else .ok ⟨balance, transactions⟩

/-- `InsertTransactionAsync`. -/
def insertTransactionAsync (db : Redis) (key : Text) (transaction : Transaction) : Redis :=
  db.sortedSetAdd key (json.serialize transaction) transaction.realizadaEm.score

/-- The first command of `Save`. -/
def saveInsert (db : Redis) (transaction : Transaction) : Redis :=
  insertTransactionAsync json db (getBankStatementKey transaction.accountId) transaction

/-- The second command of `Save`. -/
def saveTrim (db : Redis) (transaction : Transaction) : Redis :=
  db.sortedSetRemoveRangeByRank (getBankStatementKey transaction.accountId) 0 (-11)

/-- `Save`, with nothing else running. -/
def save (db : Redis) (transaction : Transaction) : Redis :=
  saveTrim (saveInsert json db transaction) transaction

/-! ## Keys -/

/-- Different accounts have different keys. -/
theorem getBankStatementKey_injective : Function.Injective getBankStatementKey := by
  intro i j h
  have hprint := TextFormat.printInt_injective (List.append_cancel_left h)
  exact Int32.toInt_inj.mp hprint

/-! ## Records -/

/-- The entry a transaction is stored as. -/
def entryOf (t : Transaction) : Nat ×ₗ Text := toLex (t.realizadaEm.score, json.serialize t)

@[simp] theorem member_entryOf (t : Transaction) :
    SortedSet.member (entryOf json t) = json.serialize t := rfl

@[simp] theorem score_entryOf (t : Transaction) :
    SortedSet.score (entryOf json t) = t.realizadaEm.score := rfl

theorem entryOf_injective : Function.Injective (entryOf json) := fun _ _ h =>
  json.serialize_injective (congrArg SortedSet.member h)

/-- Every entry is the record of a transaction. -/
def Recorded (set : RedisSet) : Prop := ∀ e ∈ set.entries, ∃ t, e = entryOf json t

variable {json}

theorem recorded_of_singleton {set : RedisSet} {t : Transaction}
    (h : set.entries = [entryOf json t]) : Recorded json set := by
  intro e he
  rw [h, List.mem_singleton] at he
  exact ⟨t, he⟩

/-- In a recorded set a record is stored under its own score only. -/
theorem Recorded.score_eq {set : RedisSet} (h : Recorded json set) {t : Transaction}
    {e : Nat ×ₗ Text} (he : e ∈ set.entries) (hm : SortedSet.member e = json.serialize t) :
    SortedSet.score e = t.realizadaEm.score := by
  obtain ⟨u, rfl⟩ := h e he
  rw [json.serialize_injective hm, score_entryOf]

theorem Recorded.add {set : RedisSet} (h : Recorded json set) (t : Transaction) :
    Recorded json (set.add t.realizadaEm.score (json.serialize t)) := by
  intro e he
  rcases SortedSet.of_mem_add he with rfl | hmem
  · exact ⟨t, rfl⟩
  · exact h e hmem

theorem Recorded.removeRange {set : RedisSet} (h : Recorded json set) (start stop : Int) :
    Recorded json (set.removeRange start stop) :=
  fun e he => h e (SortedSet.mem_of_mem_removeRange he)

/-- A record made after everything stored goes to the end. -/
theorem Recorded.entries_add_of_forall_lt {set : RedisSet} (h : Recorded json set)
    {t : Transaction} (hlt : ∀ e ∈ set.entries, SortedSet.score e < t.realizadaEm.score) :
    (set.add t.realizadaEm.score (json.serialize t)).entries = set.entries ++ [entryOf json t] :=
  SortedSet.entries_add_of_forall_lt
    (fun e he hm => absurd (h.score_eq he hm) (ne_of_lt (hlt e he))) hlt

/-- Records made one after another, all after everything stored, end up in that order. -/
theorem Recorded.entries_foldl_add {ts : List Transaction} :
    ∀ {set : RedisSet}, Recorded json set →
      (∀ e ∈ set.entries, ∀ t ∈ ts, SortedSet.score e < t.realizadaEm.score) →
      ts.Pairwise (fun t u => t.realizadaEm.score < u.realizadaEm.score) →
      (ts.foldl (fun set t => set.add t.realizadaEm.score (json.serialize t)) set).entries
        = set.entries ++ ts.map (entryOf json) := by
  induction ts with
  | nil =>
    intro set _ _ _
    rw [List.foldl_nil, List.map_nil, List.append_nil]
  | cons t ts ih =>
    intro set h hlt hasc
    obtain ⟨hfirst, hrest⟩ := List.pairwise_cons.mp hasc
    have hadd := h.entries_add_of_forall_lt fun e he => hlt e he t List.mem_cons_self
    have hlt' : ∀ e ∈ (set.add t.realizadaEm.score (json.serialize t)).entries, ∀ u ∈ ts,
        SortedSet.score e < u.realizadaEm.score := by
      intro e he u hu
      rcases SortedSet.of_mem_add he with rfl | hmem
      · exact hfirst u hu
      · exact hlt e hmem u (List.mem_cons_of_mem t hu)
    rw [List.foldl_cons, ih (h.add t) hlt' hrest, hadd, List.map_cons, List.append_assoc,
      List.singleton_append]

/-- The records of a set, lowest rank first. -/
theorem Recorded.exists_records {set : RedisSet} (h : Recorded json set) :
    ∃ ts : List Transaction, set.entries = ts.map (entryOf json) := by
  have hall : ∀ l : List (Nat ×ₗ Text), (∀ e ∈ l, ∃ t, e = entryOf json t) →
      ∃ ts : List Transaction, l = ts.map (entryOf json) := by
    intro l
    induction l with
    | nil => exact fun _ => ⟨[], rfl⟩
    | cons e l ih =>
      intro hl
      obtain ⟨t, ht⟩ := hl e List.mem_cons_self
      obtain ⟨ts, hts⟩ := ih fun x hx => hl x (List.mem_cons_of_mem e hx)
      exact ⟨t :: ts, by rw [ht, hts, List.map_cons]⟩
  exact hall set.entries h

/-- Records in rank order have the last of them on top. -/
theorem getLast?_of_records {l : List (Nat ×ₗ Text)} {low : List Transaction} {t : Transaction}
    (h : l = (low ++ [t]).map (entryOf json)) : l.getLast? = some (entryOf json t) := by
  rw [h, List.map_append, List.map_singleton, List.getLast?_concat]

theorem last?_of_records {set : RedisSet} {low : List Transaction} {t : Transaction}
    (h : set.entries = (low ++ [t]).map (entryOf json)) : set.last? = some (entryOf json t) :=
  getLast?_of_records h

/-- The records of a set that is not empty, with the top one apart. -/
theorem Recorded.exists_top {set : RedisSet} (h : Recorded json set) (hne : set.entries ≠ []) :
    ∃ low t, set.entries = (low ++ [t]).map (entryOf json) := by
  obtain ⟨ts, hts⟩ := h.exists_records
  rcases List.eq_nil_or_concat' ts with rfl | ⟨low, t, rfl⟩
  · exact absurd hts hne
  · exact ⟨low, t, hts⟩

/-- The records a statement reads, the eleven lowest, with the highest of them apart. -/
theorem Recorded.exists_shown {set : RedisSet} (h : Recorded json set) (hne : set.entries ≠ []) :
    ∃ low t, set.entries.take 11 = (low ++ [t]).map (entryOf json) := by
  obtain ⟨ts, hts⟩ := h.exists_records
  have htake : set.entries.take 11 = (ts.take 11).map (entryOf json) := by
    rw [hts, List.map_take]
  rcases List.eq_nil_or_concat' (ts.take 11) with hnil | ⟨low, t, hconcat⟩
  · rw [List.take_eq_nil_iff, or_iff_right (by decide)] at hnil
    rw [hnil] at hts
    exact absurd hts hne
  · rw [hconcat] at htake
    exact ⟨low, t, htake⟩

variable (json)

/-! ## What the commands of `Save` do to the set of an account -/

section SaveSteps

variable (db : Redis) (t : Transaction)

theorem saveInsert_same : saveInsert json db t (getBankStatementKey t.accountId)
    = (db (getBankStatementKey t.accountId)).add t.realizadaEm.score (json.serialize t) :=
  Redis.sortedSetAdd_same ..

theorem saveInsert_other {key : Text} (h : key ≠ getBankStatementKey t.accountId) :
    saveInsert json db t key = db key := Redis.sortedSetAdd_other db _ h ..

theorem saveTrim_same : saveTrim db t (getBankStatementKey t.accountId)
    = (db (getBankStatementKey t.accountId)).keepTop 10 := Redis.sortedSetRemoveRangeByRank_same ..

theorem saveTrim_other {key : Text} (h : key ≠ getBankStatementKey t.accountId) :
    saveTrim db t key = db key := Redis.sortedSetRemoveRangeByRank_other db _ h ..

section OneAccount

variable {k : Int32}

/-- `Save` writes to the set of the record's account, and to no other. -/
theorem saveInsert_of_eq (hk : t.accountId = k) : saveInsert json db t (getBankStatementKey k)
    = (db (getBankStatementKey k)).add t.realizadaEm.score (json.serialize t) := by
  rw [← hk, saveInsert_same]

theorem saveInsert_of_ne (hk : t.accountId ≠ k) :
    saveInsert json db t (getBankStatementKey k) = db (getBankStatementKey k) :=
  saveInsert_other json db t fun hkey => hk (getBankStatementKey_injective hkey).symm

theorem saveTrim_of_eq (hk : t.accountId = k) :
    saveTrim db t (getBankStatementKey k) = (db (getBankStatementKey k)).keepTop 10 := by
  rw [← hk, saveTrim_same]

theorem saveTrim_of_ne (hk : t.accountId ≠ k) :
    saveTrim db t (getBankStatementKey k) = db (getBankStatementKey k) :=
  saveTrim_other db t fun hkey => hk (getBankStatementKey_injective hkey).symm

theorem save_of_eq (hk : t.accountId = k) : save json db t (getBankStatementKey k)
    = ((db (getBankStatementKey k)).add t.realizadaEm.score (json.serialize t)).keepTop 10 := by
  rw [save, saveTrim_of_eq _ t hk, saveInsert_of_eq json db t hk]

theorem save_of_ne (hk : t.accountId ≠ k) :
    save json db t (getBankStatementKey k) = db (getBankStatementKey k) := by
  rw [save, saveTrim_of_ne _ t hk, saveInsert_of_ne json db t hk]

end OneAccount

/-- Whatever key is looked at, an insertion leaves it or adds the record to it. -/
theorem mem_saveInsert {key : Text} {e : Nat ×ₗ Text}
    (h : e ∈ (saveInsert json db t key).entries) : e = entryOf json t ∨ e ∈ (db key).entries := by
  by_cases hkey : key = getBankStatementKey t.accountId
  · rw [hkey, saveInsert_same] at h
    rw [hkey]
    exact SortedSet.of_mem_add h
  · rw [saveInsert_other json db t hkey] at h
    exact Or.inr h

theorem mem_saveTrim {key : Text} {e : Nat ×ₗ Text} (h : e ∈ (saveTrim db t key).entries) :
    e ∈ (db key).entries := by
  by_cases hkey : key = getBankStatementKey t.accountId
  · rw [hkey, saveTrim_same] at h
    rw [hkey]
    exact SortedSet.mem_of_mem_removeRange h
  · rwa [saveTrim_other db t hkey] at h

variable {json} in
/-- Both commands leave records. -/
theorem Recorded.saveInsert {key : Text} (h : Recorded json (db key)) :
    Recorded json (saveInsert json db t key) := by
  intro e he
  rcases mem_saveInsert json db t he with rfl | hmem
  · exact ⟨t, rfl⟩
  · exact h e hmem

variable {json} in
theorem Recorded.saveTrim {key : Text} (h : Recorded json (db key)) :
    Recorded json (saveTrim db t key) := fun e he => h e (mem_saveTrim db t he)

/-- The trim of `Save` never changes the highest-ranked record of any key. -/
theorem last?_saveTrim (key : Text) : (saveTrim db t key).last? = (db key).last? := by
  by_cases hkey : key = getBankStatementKey t.accountId
  · rw [hkey, saveTrim_same, SortedSet.last?_keepTop (by decide)]
  · rw [saveTrim_other db t hkey]

variable {db t} {db' : Redis}

/-- What was trimmed, if anything, was there before. -/
theorem mem_of_trimmed (h : db' = db ∨ ∃ t, db' = saveTrim db t) {key : Text} {e : Nat ×ₗ Text}
    (he : e ∈ (db' key).entries) : e ∈ (db key).entries := by
  rcases h with rfl | ⟨t, rfl⟩
  · exact he
  · exact mem_saveTrim db t he

theorem last?_of_trimmed (h : db' = db ∨ ∃ t, db' = saveTrim db t) (key : Text) :
    (db' key).last? = (db key).last? := by
  rcases h with rfl | ⟨t, rfl⟩
  · rfl
  · exact last?_saveTrim db t key

end SaveSteps

/-! ## What the reads return -/

variable {json} {db : Redis} {id : Int32}

/-- An account with no record is null. -/
theorem getAccountByIdAsync_of_empty (h : (db (getBankStatementKey id)).last? = none) :
    getAccountByIdAsync json id db = .ok none := by
  rw [getAccountByIdAsync, getAccountByIdCore, Redis.sortedSetRangeByRank,
    SortedSet.head?_rangeDescending, h]
  rfl

/-- **The account read is the highest-ranked record.** -/
theorem getAccountByIdAsync_of_last {t : Transaction}
    (h : (db (getBankStatementKey id)).last? = some (entryOf json t)) :
    getAccountByIdAsync json id db = .ok (some ⟨t.accountId, t.limite, t.saldo⟩) := by
  rw [getAccountByIdAsync, getAccountByIdCore, Redis.sortedSetRangeByRank,
    SortedSet.head?_rangeDescending, h, Option.map_some, member_entryOf]
  dsimp only
  rw [if_neg (by rw [List.isEmpty_iff]; exact json.serialize_ne_nil t),
    json.deserialize_serialize]

/-- A recorded set is read without an exception: null when empty, else its top record. -/
theorem getAccountByIdAsync_of_recorded (h : Recorded json (db (getBankStatementKey id))) :
    (db (getBankStatementKey id)).entries = [] ∧ getAccountByIdAsync json id db = .ok none ∨
      ∃ t, (db (getBankStatementKey id)).last? = some (entryOf json t) ∧
        getAccountByIdAsync json id db = .ok (some ⟨t.accountId, t.limite, t.saldo⟩) := by
  rcases hlast : (db (getBankStatementKey id)).last? with _ | e
  · exact Or.inl ⟨List.getLast?_eq_none_iff.mp hlast, getAccountByIdAsync_of_empty hlast⟩
  · obtain ⟨t, rfl⟩ := h e (SortedSet.mem_of_last? hlast)
    exact Or.inr ⟨t, rfl, getAccountByIdAsync_of_last hlast⟩

/-- The entry a statement shows for a record read at index 0. -/
def listedFirst (t : Transaction) : List BankStatementTransaction :=
  if t.descricao = none ∨ t.descricao = some [] then [] else [t.listed]

/-- Past index 0 every record is listed. -/
theorem readTransactions_tail (now : DateTime) (ts : List Transaction) : ∀ (index : Nat)
    (balance : Option Balance) (acc : List BankStatementTransaction), index ≠ 0 →
    readTransactions json now index (ts.map json.serialize) balance acc
      = .ok (balance, acc ++ ts.map Transaction.listed) := by
  induction ts with
  | nil =>
    intro index balance acc _
    rw [List.map_nil, List.map_nil, List.append_nil]
    rfl
  | cons t ts ih =>
    intro index balance acc hindex
    rw [List.map_cons, readTransactions, if_neg hindex, json.deserializeListed_serialize]
    dsimp only
    rw [ih (index + 1) balance _ (by omega), List.append_assoc, List.map_cons,
      List.singleton_append]

/-- The loop on a non-empty list of records. -/
theorem readTransactions_cons (now : DateTime) (t : Transaction) (ts : List Transaction) :
    readTransactions json now 0 ((t :: ts).map json.serialize) none []
      = .ok (some ⟨t.saldo, t.limite, now⟩, listedFirst t ++ ts.map Transaction.listed) := by
  rw [List.map_cons, readTransactions, if_pos rfl, json.deserialize_serialize]
  dsimp only
  rw [listedFirst]
  by_cases hdesc : t.descricao = none ∨ t.descricao = some []
  · rw [if_pos hdesc, if_pos hdesc, readTransactions_tail now ts _ _ _ (by decide)]
  · rw [if_neg hdesc, if_neg hdesc, json.deserializeListed_serialize]
    dsimp only
    rw [readTransactions_tail now ts _ _ _ (by decide)]
    rfl

/-- **What a statement reads**: of the eleven LOWEST records, the highest gives the balance, and
    they are listed from it downwards. -/
theorem getLastTransactionsAsync_of_records (now : DateTime) {low : List Transaction}
    {t : Transaction}
    (h : (db (getBankStatementKey id)).entries.take 11 = (low ++ [t]).map (entryOf json)) :
    getLastTransactionsAsync json id now db
      = .ok (some ⟨t.saldo, t.limite, now⟩,
          listedFirst t ++ low.reverse.map Transaction.listed) := by
  have hread : db.sortedSetRangeByRank (getBankStatementKey id) (-11) (-1) .descending
      = (t :: low.reverse).map json.serialize := by
    -- negative ranks count from the end of the descending order, the low end of the set
    show (db _).rangeDescending (-((11 : Nat) : Int)) (-1) = _
    rw [SortedSet.rangeDescending_last _ 11 (by decide), h, List.map_map,
      show SortedSet.member ∘ entryOf json = json.serialize from rfl, ← List.map_reverse,
      List.reverse_append, List.reverse_singleton, List.singleton_append]
  rw [getLastTransactionsAsync, hread]
  exact readTransactions_cons now t low.reverse

/-- The statement carries the balance it read; an all-zero one is replaced by an equal default. -/
theorem getBankStatementAsync_of_last (now : DateTime) {balance : Balance}
    {listed : List BankStatementTransaction}
    (h : getLastTransactionsAsync json id now db = .ok (some balance, listed)) :
    ∃ statement, getBankStatementAsync json id now db = .ok statement ∧
      statement.saldo.total = balance.total ∧ statement.saldo.limite = balance.limite := by
  rw [getBankStatementAsync, h]
  dsimp only
  by_cases hempty : balance.isEmpty = true
  · obtain ⟨htotal, hlimite⟩ := of_decide_eq_true hempty
    exact ⟨_, if_pos hempty, htotal.symm, hlimite.symm⟩
  · exact ⟨_, if_neg hempty, rfl, rfl⟩

/-- **The statement of an account**: the balance of the highest record read, and the records read
    from it downwards; an account with no limit and no balance gets the empty statement. -/
theorem getBankStatementAsync_of_records (now : DateTime) {low : List Transaction}
    {t : Transaction}
    (h : (db (getBankStatementKey id)).entries.take 11 = (low ++ [t]).map (entryOf json)) :
    getBankStatementAsync json id now db
      = .ok (if t.saldo = 0 ∧ t.limite = 0 then BankStatement.default now else
          ⟨⟨t.saldo, t.limite, now⟩, listedFirst t ++ low.reverse.map Transaction.listed⟩) := by
  rw [getBankStatementAsync, getLastTransactionsAsync_of_records now h]
  dsimp only
  rw [Balance.isEmpty]
  by_cases hempty : t.saldo = 0 ∧ t.limite = 0
  · rw [if_pos hempty, if_pos (decide_eq_true hempty)]
  · rw [if_neg hempty, if_neg (fun hc => hempty (of_decide_eq_true hc))]

/-- The statement of an account with no record. -/
theorem getBankStatementAsync_of_empty (now : DateTime)
    (h : (db (getBankStatementKey id)).entries = []) :
    getBankStatementAsync json id now db = .ok (BankStatement.default now) := by
  have hread : db.sortedSetRangeByRank (getBankStatementKey id) (-11) (-1) .descending = [] := by
    show (db _).rangeDescending (-((11 : Nat) : Int)) (-1) = _
    rw [SortedSet.rangeDescending_last _ 11 (by decide), h]
    rfl
  rw [getBankStatementAsync, getLastTransactionsAsync, hread]
  rfl

/-! ## Both reads are reads of one key -/

section OneKey

variable {db' : Redis} (h : db (getBankStatementKey id) = db' (getBankStatementKey id))

include h

theorem getAccountByIdAsync_congr (json : TransactionJson) :
    getAccountByIdAsync json id db = getAccountByIdAsync json id db' := by
  rw [getAccountByIdAsync, getAccountByIdAsync, getAccountByIdCore, getAccountByIdCore,
    Redis.sortedSetRangeByRank, Redis.sortedSetRangeByRank, h]

theorem getBankStatementAsync_congr (json : TransactionJson) (now : DateTime) :
    getBankStatementAsync json id now db = getBankStatementAsync json id now db' := by
  rw [getBankStatementAsync, getBankStatementAsync, getLastTransactionsAsync,
    getLastTransactionsAsync, Redis.sortedSetRangeByRank, Redis.sortedSetRangeByRank, h]

/-- What a command leaves under a key depends on that key alone. -/
theorem saveInsert_congr (json : TransactionJson) (t : Transaction) :
    saveInsert json db t (getBankStatementKey id)
      = saveInsert json db' t (getBankStatementKey id) := by
  by_cases hid : t.accountId = id
  · rw [saveInsert_of_eq json db t hid, saveInsert_of_eq json db' t hid, h]
  · rw [saveInsert_of_ne json db t hid, saveInsert_of_ne json db' t hid, h]

theorem saveTrim_congr (t : Transaction) :
    saveTrim db t (getBankStatementKey id) = saveTrim db' t (getBankStatementKey id) := by
  by_cases hid : t.accountId = id
  · rw [saveTrim_of_eq db t hid, saveTrim_of_eq db' t hid, h]
  · rw [saveTrim_of_ne db t hid, saveTrim_of_ne db' t hid, h]

end OneKey

/-! ## Records by account -/

/-- Under the key of every account stand records with the property `R` of that account. -/
def Records (json : TransactionJson) (R : Int32 → Transaction → Prop) (db : Redis) : Prop :=
  ∀ id, ∀ e ∈ (db (getBankStatementKey id)).entries, ∃ t, e = entryOf json t ∧ R id t

/-- Every record stands under the key of its own account. -/
abbrev Keyed (json : TransactionJson) (db : Redis) : Prop :=
  Records json (fun id t => t.accountId = id) db

section ByAccount

variable {R : Int32 → Transaction → Prop}

theorem Records.recorded (h : Records json R db) (id : Int32) :
    Recorded json (db (getBankStatementKey id)) := by
  intro e he
  obtain ⟨t, rfl, -⟩ := h id e he
  exact ⟨t, rfl⟩

/-- An account read is that of a record with the property. -/
theorem Records.read (h : Records json R db) {account : Account}
    (hread : getAccountByIdAsync json id db = .ok (some account)) :
    ∃ t, (db (getBankStatementKey id)).last? = some (entryOf json t) ∧ R id t ∧
      account = t.account := by
  rcases getAccountByIdAsync_of_recorded (h.recorded id) with ⟨-, hnone⟩ | ⟨t, hlast, hsome⟩
  · rw [hnone] at hread
    cases hread
  · obtain ⟨u, hu, hR⟩ := h id _ (SortedSet.mem_of_last? hlast)
    obtain rfl := entryOf_injective json hu
    rw [hsome] at hread
    cases hread
    exact ⟨t, hlast, hR, rfl⟩

theorem Records.saveInsert (h : Records json R db) {t : Transaction} (ht : R t.accountId t) :
    Records json R (saveInsert json db t) := by
  intro id e he
  by_cases hid : t.accountId = id
  · rw [saveInsert_of_eq json db t hid] at he
    rcases SortedSet.of_mem_add he with rfl | hmem
    · exact ⟨t, rfl, hid ▸ ht⟩
    · exact h id e hmem
  · rw [saveInsert_of_ne json db t hid] at he
    exact h id e he

theorem Records.saveTrim (h : Records json R db) (t : Transaction) :
    Records json R (saveTrim db t) := fun id e he => h id e (mem_saveTrim db t he)

end ByAccount

/-! ## When the two reads agree -/

section Agreement

variable (json) (k : Int32)

/-- Both reads of account `k` see its highest-ranked record. -/
def ReadsAgree (now : DateTime) (db : Redis) : Prop :=
  ∃ t, (db (getBankStatementKey k)).last? = some (entryOf json t) ∧
    getAccountByIdAsync json k db = .ok (some ⟨t.accountId, t.limite, t.saldo⟩) ∧
    ∃ statement, getBankStatementAsync json k now db = .ok statement ∧
      statement.saldo.total = t.saldo ∧ statement.saldo.limite = t.limite

/-- The set of account `k` holds records, at least one and at most as many as a statement reads. -/
structure Readable (db : Redis) : Prop where
  recorded : Recorded json (db (getBankStatementKey k))
  stored : (db (getBankStatementKey k)).entries ≠ []
  length_le : (db (getBankStatementKey k)).entries.length ≤ 11

/-- The account is seeded: its set holds one record. -/
def Seeded (db : Redis) : Prop :=
  ∃ seed, (db (getBankStatementKey k)).entries = [entryOf json seed]

variable {json k}

/-- With at most eleven members the range `-11 .. -1` starts at the top. -/
theorem Readable.readsAgree (h : Readable json k db) (now : DateTime) :
    ReadsAgree json k now db := by
  obtain ⟨low, t, hts⟩ := h.recorded.exists_top h.stored
  have hlast := last?_of_records hts
  have htake : (db (getBankStatementKey k)).entries.take 11 = (low ++ [t]).map (entryOf json) := by
    rw [List.take_of_length_le h.length_le, hts]
  exact ⟨t, hlast, getAccountByIdAsync_of_last hlast,
    getBankStatementAsync_of_last now (getLastTransactionsAsync_of_records now htake)⟩

/-- Adding a record keeps the set readable if it is stored already or at most ten are. -/
theorem Readable.saveInsert (h : Readable json k db) (t : Transaction)
    (hroom : t.accountId = k → entryOf json t ∈ (db (getBankStatementKey k)).entries ∨
      (db (getBankStatementKey k)).entries.length ≤ 10) :
    Readable json k (saveInsert json db t) := by
  have hrecorded := h.recorded.saveInsert db t
  by_cases hk : t.accountId = k
  · have hsame := saveInsert_of_eq json db t hk
    refine ⟨hrecorded, ?_, ?_⟩
    · rw [hsame]
      exact List.ne_nil_of_mem (SortedSet.self_mem_add _ _ _)
    · rw [hsame]
      rcases hroom hk with hmem | hlen
      · rw [SortedSet.add_of_mem hmem]
        exact h.length_le
      · exact (SortedSet.length_add_le _ _ _).trans (Nat.succ_le_succ hlen)
  · have hother := saveInsert_of_ne json db t hk
    exact ⟨hrecorded, by rw [hother]; exact h.stored, by rw [hother]; exact h.length_le⟩

/-- Trimming keeps the set readable: it never removes the top record. -/
theorem Readable.saveTrim (h : Readable json k db) (t : Transaction) :
    Readable json k (saveTrim db t) := by
  have hrecorded := h.recorded.saveTrim db t
  by_cases hk : t.accountId = k
  · have hsame := saveTrim_of_eq db t hk
    have hpos := List.length_pos_of_ne_nil h.stored
    refine ⟨hrecorded, ?_, ?_⟩
    · rw [hsame]
      refine List.ne_nil_of_length_pos ?_
      rw [SortedSet.length_keepTop]
      omega
    · rw [hsame, SortedSet.length_keepTop]
      omega
  · have hother := saveTrim_of_ne db t hk
    exact ⟨hrecorded, by rw [hother]; exact h.stored, by rw [hother]; exact h.length_le⟩

theorem Seeded.readable (h : Seeded json k db) : Readable json k db := by
  obtain ⟨seed, hseed⟩ := h
  refine ⟨recorded_of_singleton hseed, by rw [hseed]; exact List.cons_ne_nil _ _, ?_⟩
  rw [hseed, List.length_singleton]
  omega

end Agreement

end CachedRepository

end Rinha
