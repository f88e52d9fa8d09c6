/-
  `Repository.Save`, and what its own statement shows afterwards.

  `Save` sends `RealizadaEm` as a `Date`, and the column it goes to is a `TIMESTAMP`: the row keeps
  the midnight of the day.  Saved rows of one day therefore come back in any order, a row of the
  day of the seed comes before the seed, and every entry of a statement shows midnight.
  `statement_after_saves_iff` is the exact condition under which none of this shows: the last ten
  transactions were made at midnight.

  A description that is too long by blanks is cut off and not refused, so the condition asks for ten
  characters too.
-/
import RinhaBackend.Repository

namespace Rinha

namespace Repository

open Table

/-! ## Saving -/

/-- The parameters of `Save`; a null description cannot be sent. -/
def saveCommand (transaction : Transaction) : Option InsertCommand :=
  transaction.descricao.map fun descricao =>
    ⟨transaction.accountId.toInt, transaction.limite.toInt, transaction.saldo.toInt,
      date transaction.realizadaEm, [transaction.tipo], transaction.valor.toInt, descricao⟩

/-- `Save`. -/
def save (transaction : Transaction) (table : List Row) : Except Fault (List Row) :=
  match saveCommand transaction with
  | none => .error .invalidOperationException
  | some command =>
    match insertRow command with
    | none => .error .npgsqlException
    | some row => .ok (table ++ [row])

/-- `Save`s one after another, up to the first that throws. -/
def saveAll : List Transaction → List Row → Except Fault (List Row)
  | [], table => .ok table
  | t :: ts, table =>
    match save t table with
    | .error e => .error e
    | .ok table => saveAll ts table

/-- The row of a transaction that has been saved. -/
def savedRow (t : Transaction) : Row :=
  ⟨t.accountId, t.descricao.map (List.take 10), t.tipo, t.valor, t.saldo, t.limite,
    some (date t.realizadaEm)⟩

theorem save_ok {t : Transaction} {table table' : List Row} (h : save t table = .ok table') :
    t.descricao ≠ none ∧ table' = table ++ [savedRow t] := by
  rw [save, saveCommand] at h
  rcases hdesc : t.descricao with _ | d
  · rw [hdesc] at h
    cases h
  · rw [hdesc, Option.map_some] at h
    dsimp only at h
    rcases hrow : insertRow _ with _ | row
    · rw [hrow] at h
      cases h
    · rw [hrow] at h
      cases h
      refine ⟨Option.some_ne_none d, ?_⟩
      -- every `int` goes in, so what has gone in is the description and the type
      simp only [insertRow, integer_toInt, char_singleton, Option.bind_eq_bind, Option.bind_some,
        Option.bind_eq_some_iff, Option.pure_def, Option.some.injEq] at hrow
      obtain ⟨d', hd', tipo, htipo, rfl⟩ := hrow
      obtain ⟨rfl, -⟩ := of_varchar hd'
      split at htipo
      · cases htipo
      · cases htipo
        rw [savedRow, hdesc, Option.map_some]

theorem saveAll_ok (ts : List Transaction) : ∀ {table table' : List Row},
    saveAll ts table = .ok table' →
      (∀ t ∈ ts, t.descricao ≠ none) ∧ table' = table ++ ts.map savedRow := by
  induction ts with
  | nil =>
    intro table table' h
    cases h
    exact ⟨nofun, (List.append_nil table).symm⟩
  | cons t ts ih =>
    intro table table' h
    rw [saveAll] at h
    rcases hsave : save t table with e | table₁
    · rw [hsave] at h
      cases h
    · rw [hsave] at h
      obtain ⟨hdesc, rfl⟩ := save_ok hsave
      obtain ⟨hrest, rfl⟩ := ih h
      refine ⟨fun u hu => ?_, by rw [List.map_cons, List.append_assoc, List.singleton_append]⟩
      rcases List.mem_cons.mp hu with rfl | hu
      · exact hdesc
      · exact hrest u hu

/-! ## The statement after some saves -/

/-- What is compared of an entry: the column keeps no `Kind`. -/
def compared (x : BankStatementTransaction) : Int32 × Char × Option Text × Nat :=
  (x.valor, x.tipo, x.descricao, x.realizadaEm.ticks)

/-- The statement has the balance of the last transaction saved, and lists the last ten as they
    were given to `Save`, newest first. -/
def ShowsSaved (pg : Postgres) (k : Int32) (now : DateTime) (table : List Row)
    (ts : List Transaction) (last : Transaction) : Prop :=
  ∃ statement, getBankStatementAsync pg k now table = some statement ∧
    statement.saldo.total = last.saldo ∧ statement.saldo.limite = last.limite ∧
    statement.ultimasTransacoes.map compared
      = ((ts.reverse.take 10).map Transaction.listed).map compared

/-- The row of a transaction made at midnight with at most ten characters shows all of it. -/
def ShownWhole (t : Transaction) : Prop :=
  dayTicks ∣ t.realizadaEm.ticks ∧ ∀ d, t.descricao = some d → d.length ≤ 10

theorem key_savedRow (t : Transaction) : realizadaEmKey (savedRow t)
    = ((t.realizadaEm.ticks / dayTicks * dayTicks : Nat) : WithTop Nat) := by
  rw [← date_ticks]
  rfl

/-- An entry made of a saved row shows what `ShownWhole` says. -/
theorem shownWhole_of_listed {t u : Transaction} {x : BankStatementTransaction}
    (hx : getTransaction (savedRow u) = some x) (hsame : compared x = compared t.listed) :
    ShownWhole t := by
  rw [getTransaction, savedRow] at hx
  dsimp only at hx
  rcases hdesc : u.descricao with _ | d
  · rw [hdesc] at hx
    cases hx
  · rw [hdesc, Option.map_some] at hx
    dsimp only at hx
    split at hx
    · cases hx
    · cases hx
      have hticks : (date u.realizadaEm).ticks = t.realizadaEm.ticks :=
        congrArg (fun c => c.2.2.2) hsame
      have hshown : some (d.take 10) = t.descricao := congrArg (fun c => c.2.2.1) hsame
      refine ⟨?_, fun d' hd' => ?_⟩
      · rw [← hticks, date_ticks]
        exact Nat.dvd_mul_left _ _
      · rw [← hshown] at hd'
        cases hd'
        exact List.length_take_le 10 d

/-- A saved row that shows everything is listed as the transaction. -/
theorem getTransaction_savedRow {t : Transaction} (hwhole : ShownWhole t)
    (hdesc : t.descricao ≠ none) (hpos : 0 < t.realizadaEm.ticks) :
    ∃ x, getTransaction (savedRow t) = some x ∧ compared x = compared t.listed := by
  obtain ⟨hday, hlength⟩ := hwhole
  obtain ⟨d, hd⟩ := Option.ne_none_iff_exists'.mp hdesc
  have hticks : (date t.realizadaEm).ticks = t.realizadaEm.ticks := by
    rw [date_ticks, Nat.div_mul_cancel hday]
  refine ⟨⟨t.valor, t.tipo, some (d.take 10), date t.realizadaEm⟩, ?_, ?_⟩
  · rw [getTransaction, savedRow, hd, Option.map_some]
    exact if_neg (by rw [hticks]; omega)
  · rw [compared, compared, Transaction.listed, hticks, hd, List.take_of_length_le (hlength d hd)]

theorem compared_filterMap {ts : List Transaction} (h : ∀ t ∈ ts,
    ShownWhole t ∧ t.descricao ≠ none ∧ 0 < t.realizadaEm.ticks) :
    ((ts.map savedRow).filterMap getTransaction).map compared
      = (ts.map Transaction.listed).map compared := by
  induction ts with
  | nil => rfl
  | cons t ts ih =>
    obtain ⟨hwhole, hdesc, hpos⟩ := h t List.mem_cons_self
    obtain ⟨x, hx, hsame⟩ := getTransaction_savedRow hwhole hdesc hpos
    rw [List.map_cons, List.filterMap_cons_some hx, List.map_cons, List.map_cons, List.map_cons,
      hsame, ih fun u hu => h u (List.mem_cons_of_mem _ hu)]

section Saved

variable {k : Int32} {seed : Row} {ts : List Transaction} {start : DateTime}

/-- The rows of the account after the saves, newest first. -/
def savedRows (seed : Row) (ts : List Transaction) : List Row := ts.reverse.map savedRow ++ [seed]

theorem ofAccount_saved {table : List Row} (hrows : ofAccount table k = [seed])
    (hid : ∀ t ∈ ts, t.accountId = k) :
    (ofAccount (table ++ ts.map savedRow) k).Perm (savedRows seed ts) := by
  have hall : ofAccount (ts.map savedRow) k = ts.map savedRow := by
    refine List.filter_eq_self.mpr fun row hrow => ?_
    obtain ⟨t, ht, rfl⟩ := List.mem_map.mp hrow
    exact decide_eq_true (hid t ht)
  rw [ofAccount, List.filter_append, ← ofAccount, ← ofAccount, hrows, hall, savedRows,
    List.map_reverse]
  exact List.perm_append_comm.trans ((List.reverse_perm _).symm.append_right _)

/-- While the last ten are at midnight, each of them is newer than all rows before it. -/
theorem savedRows_before (hstart : seed.realizadaEm = some start)
    (hinc : (start.ticks :: ts.map fun t => t.realizadaEm.ticks).Pairwise (· < ·))
    (hday : ∀ t ∈ ts.reverse.take 10, dayTicks ∣ t.realizadaEm.ticks) :
    ∀ i j a b, i < 10 → i < j → (savedRows seed ts)[i]? = some a →
      (savedRows seed ts)[j]? = some b →
      OrderDual.toDual (realizadaEmKey a) < OrderDual.toDual (realizadaEmKey b) := by
  intro i j a b hi hij ha hb
  refine OrderDual.toDual_lt_toDual.mpr ?_
  obtain ⟨hseed, hts⟩ := List.pairwise_cons.mp hinc
  have hdesc : (ts.reverse).Pairwise fun t u => u.realizadaEm.ticks < t.realizadaEm.ticks :=
    List.pairwise_reverse.mpr (List.pairwise_map.mp hts)
  rw [savedRows] at ha hb
  by_cases hlt : i < ts.reverse.length
  · rw [List.getElem?_append_left (by rw [List.length_map]; exact hlt), List.getElem?_map] at ha
    obtain ⟨t, ht, rfl⟩ := Option.map_eq_some_iff.mp ha
    have hmem : t ∈ ts.reverse := List.mem_of_getElem? ht
    have hmidnight : t.realizadaEm.ticks / dayTicks * dayTicks = t.realizadaEm.ticks := by
      refine Nat.div_mul_cancel (hday t (List.mem_of_getElem? (i := i) ?_))
      rw [List.getElem?_take_of_lt hi, ht]
    rw [key_savedRow, hmidnight]
    by_cases hjlt : j < ts.reverse.length
    · -- an earlier transaction, which its midnight does not bring forward
      rw [List.getElem?_append_left (by rw [List.length_map]; exact hjlt), List.getElem?_map] at hb
      obtain ⟨u, hu, rfl⟩ := Option.map_eq_some_iff.mp hb
      have hut : u.realizadaEm.ticks < t.realizadaEm.ticks := by
        obtain ⟨hi', rfl⟩ := List.getElem?_eq_some_iff.mp ht
        obtain ⟨hj', rfl⟩ := List.getElem?_eq_some_iff.mp hu
        exact List.pairwise_iff_getElem.mp hdesc i j hi' hj' hij
      rw [key_savedRow]
      exact WithTop.coe_lt_coe.mpr ((Nat.div_mul_le_self _ _).trans_lt hut)
    · -- the seed
      rw [List.getElem?_append_right (by rw [List.length_map]; omega)] at hb
      obtain rfl : b = seed := List.mem_singleton.mp (List.mem_of_getElem? hb)
      rw [realizadaEmKey, hstart]
      exact WithTop.coe_lt_coe.mpr
        (hseed _ (List.mem_map_of_mem (List.mem_reverse.mp hmem)))
  · -- nothing is behind the seed
    rw [List.getElem?_append_right (by rw [List.length_map]; omega), List.length_map,
      List.getElem?_eq_none (by rw [List.length_singleton]; omega)] at hb
    cases hb

end Saved

theorem getTransaction_seed {seed : Row} (hnull : seed.descricao = none) :
    getTransaction seed = none := by
  rw [getTransaction, hnull]

/-- What a statement shows of the first ten rows when they are shown whole. -/
theorem compared_savedRows {seed : Row} (hnull : seed.descricao = none) {ts : List Transaction}
    (h : ∀ t ∈ ts.reverse.take 10, ShownWhole t ∧ t.descricao ≠ none ∧ 0 < t.realizadaEm.ticks) :
    (((savedRows seed ts).take 10).filterMap getTransaction).map compared
      = ((ts.reverse.take 10).map Transaction.listed).map compared := by
  have hseed : ∀ n, ([seed].take n).filterMap getTransaction = [] := by
    intro n
    rcases n with _ | n
    · rfl
    · rw [List.take_succ_cons, List.take_nil,
        List.filterMap_cons_none (getTransaction_seed hnull), List.filterMap_nil]
  rw [savedRows, List.take_append, List.filterMap_append, hseed, List.append_nil, ← List.map_take,
    compared_filterMap h]

/-- **When a statement shows what was saved.**  For every account with a seed row and every sequence
    of transactions saved for it one after another at increasing times after the seed, whatever the
    order of rows with equal times: the statement has the balance of the last transaction and lists
    the last ten with their own times, newest first, if and only if the last ten were made at
    midnight and have at most ten characters in their descriptions. -/
theorem statement_after_saves_iff (pg : Postgres) (table table' : List Row) (k : Int32)
    (now : DateTime) (seed : Row) (start : DateTime) (ts : List Transaction) (last : Transaction)
    (hrows : ofAccount table k = [seed]) (hnull : seed.descricao = none)
    (hstart : seed.realizadaEm = some start) (hid : ∀ t ∈ ts, t.accountId = k)
    (hinc : (start.ticks :: ts.map fun t => t.realizadaEm.ticks).Pairwise (· < ·))
    (hlast : ts.getLast? = some last) (hsave : saveAll ts table = .ok table') :
    ShowsSaved pg k now table' ts last ↔ ∀ t ∈ ts.reverse.take 10, ShownWhole t := by
  obtain ⟨hdesc, rfl⟩ := saveAll_ok ts hsave
  have hperm := ofAccount_saved hrows hid
  rw [ShowsSaved, getBankStatementAsync, createBankStatement_eq]
  constructor
  · rintro ⟨statement, hstatement, -, -, hlist⟩ t ht
    obtain ⟨first, -, rfl⟩ := Option.map_eq_some_iff.mp hstatement
    -- the entry that shows `t` is made of a saved row
    obtain ⟨x, hx, hsame⟩ : ∃ x ∈ ((pg.orderByRealizadaEmDesc.sort
        (ofAccount (table ++ ts.map savedRow) k)).take 10).filterMap getTransaction,
        compared x = compared t.listed := by
      refine List.mem_map.mp ?_
      rw [hlist]
      exact List.mem_map_of_mem (List.mem_map_of_mem ht)
    obtain ⟨row, hrow, hxrow⟩ := List.mem_filterMap.mp hx
    have hmem := hperm.subset ((OrderBy.mem_sort _).mp (List.mem_of_mem_take hrow))
    rcases List.mem_append.mp hmem with hsaved | hseed
    · obtain ⟨u, -, rfl⟩ := List.mem_map.mp hsaved
      exact shownWhole_of_listed hxrow hsame
    · rw [List.mem_singleton.mp hseed, getTransaction_seed hnull] at hxrow
      cases hxrow
  · intro hwhole
    obtain ⟨rest, hreverse⟩ : ∃ rest, ts.reverse = last :: rest := by
      rw [← List.head?_reverse] at hlast
      exact ⟨_, (List.cons_head?_tail hlast).symm⟩
    have htake := pg.orderByRealizadaEmDesc.take_eq 10 hperm
      (savedRows_before hstart hinc fun t ht => (hwhole t ht).1)
    rw [htake]
    refine ⟨⟨⟨last.saldo, last.limite, now⟩, _⟩, ?_, rfl, rfl, compared_savedRows hnull ?_⟩
    · rw [savedRows, hreverse]
      rfl
    · intro t ht
      have hmem : t ∈ ts := List.mem_reverse.mp (List.mem_of_mem_take ht)
      have hlater := (List.pairwise_cons.mp hinc).1 _ (List.mem_map_of_mem hmem)
      exact ⟨hwhole t ht, hdesc t hmem, by omega⟩

/-- Credits of 10 on account 1, at the midnights of twelve days. -/
def midnights : List Transaction :=
  (List.range 12).map fun i => ⟨10, 'c', some ['x'], 1, 1000, Int32.ofNat (10 * (i + 1)),
    .ofTicks ((i + 1) * dayTicks) .localTime⟩

theorem statement_after_saves_iff_midnights : ∃ table' last,
    saveAll midnights [InitializeRedis.seedRow] = .ok table' ∧ midnights.getLast? = some last ∧
      ShowsSaved .stable 1 (.ofTicks (13 * dayTicks) .localTime) table' midnights last := by
  have hdone : (saveAll midnights [InitializeRedis.seedRow]).toOption.isSome = true := by
    decide +kernel
  obtain ⟨table', hsave⟩ : ∃ table', saveAll midnights [InitializeRedis.seedRow] = .ok table' := by
    rcases hcase : saveAll midnights [InitializeRedis.seedRow] with e | table'
    · rw [hcase] at hdone
      cases hdone
    · exact ⟨table', rfl⟩
  have hwhole : ∀ t ∈ midnights, dayTicks ∣ t.realizadaEm.ticks ∧ t.descricao = some ['x'] := by
    decide +kernel
  refine ⟨table', _, hsave, rfl, (statement_after_saves_iff .stable [InitializeRedis.seedRow]
    table' 1 (.ofTicks (13 * dayTicks) .localTime) InitializeRedis.seedRow
    (.ofTicks 0 .unspecified) midnights _ (by decide) rfl rfl (by decide +kernel)
    (by decide +kernel) rfl hsave).mpr fun t ht => ?_⟩
  obtain ⟨hday, hdesc⟩ := hwhole t (List.mem_reverse.mp (List.mem_of_mem_take ht))
  refine ⟨hday, fun d hd => ?_⟩
  rw [hdesc] at hd
  cases hd
  decide

/-- A credit of 10 on account 1, made `h` hours into the second day. -/
def creditAt (h : Nat) : Transaction :=
  ⟨10, 'c', some ['x'], 1, 1000, 10, .ofTicks (dayTicks + h * 36000000000) .utc⟩

/-- The seed row of account 1, written at noon of the second day. -/
def noonRow : Row :=
  ⟨1, none, 'c', 0, 0, 1000, some (.ofTicks (dayTicks + 12 * 36000000000) .unspecified)⟩

/-- A credit saved an hour after the seed goes before it: the statement has the balance of the
    seed. -/
theorem statement_shows_the_balance_of_the_seed :
    ¬ ∀ (pg : Postgres) (table table' : List Row) (k : Int32) (now : DateTime) (seed : Row)
      (start : DateTime) (ts : List Transaction) (last : Transaction),
      ofAccount table k = [seed] → seed.descricao = none → seed.realizadaEm = some start →
      (∀ t ∈ ts, t.accountId = k ∧ (∃ d, t.descricao = some d ∧ d ≠ []) ∧
        t.realizadaEm.ticks % 10 = 0) →
      (start.ticks :: ts.map fun t => t.realizadaEm.ticks).Pairwise (· < ·) →
      ts.getLast? = some last → saveAll ts table = .ok table' →
      ShowsSaved pg k now table' ts last := by
  intro h
  obtain ⟨table, hsaved, hseed⟩ : ∃ table, saveAll [creditAt 13] [noonRow] = .ok table ∧
      (getBankStatementAsync .stable 1 (.ofTicks 9 .localTime) table).map
        (fun statement => statement.saldo.total) = some 0 := ⟨_, rfl, by decide⟩
  obtain ⟨statement, hstatement, htotal, -⟩ := h .stable [noonRow] table 1 (.ofTicks 9 .localTime)
    noonRow _ [creditAt 13] (creditAt 13) (by decide) rfl rfl
    (fun t ht => by
      obtain rfl := List.mem_singleton.mp ht
      exact ⟨rfl, ⟨_, rfl, by decide⟩, by decide⟩)
    (by decide) rfl hsaved
  rw [hstatement, Option.map_some, htotal] at hseed
  exact absurd (Option.some.inj hseed) (by decide)

end Repository

end Rinha
