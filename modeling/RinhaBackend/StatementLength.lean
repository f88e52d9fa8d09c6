/-
  How many transactions a statement lists, while `Save`s run.

  `GetLastTransactionsAsync` asks for eleven ranks to show ten entries: one of them is meant to be
  the seed, which is not listed.  But the seed is skipped at index 0 only, and there it stands when
  it is alone; below other records it is listed, and once it has been trimmed away all eleven ranks
  can be transactions, since the trim of a `Save` comes after its add.  A statement of eleven
  entries is therefore one read command away from any add that finds ten members.

  `statement_lists_at_most_ten_iff` says which adds those are.
-/
import RinhaBackend.SaveRun

namespace Rinha

namespace StatementLength

open CachedRepository InitializeRedis SaveRun

/-- The record a statement takes its balance from is listed, under a balance that is not taken for
    that of no account. -/
def Heads (t : Transaction) : Prop :=
  ¬ (t.descricao = none ∨ t.descricao = some []) ∧ ¬ (t.saldo = 0 ∧ t.limite = 0)

section Sets

variable (json : TransactionJson) (k : Int32)

/-- A statement of account `k` lists at most ten transactions. -/
def AtMostTen (db : Redis) : Prop :=
  ∀ now, ∃ statement, getBankStatementAsync json k now db = .ok statement ∧
    statement.ultimasTransacoes.length ≤ 10

/-- No record heads eleven: the set is small, or the highest of its eleven lowest records is not
    listed. -/
def Short (set : RedisSet) : Prop :=
  set.entries.length ≤ 10 ∨
    ∀ t, (set.entries.take 11).getLast? = some (entryOf json t) → ¬ Heads t

variable {json k}

/-- **What makes a statement short.** -/
theorem atMostTen_iff {db : Redis} (h : Recorded json (db (getBankStatementKey k))) :
    AtMostTen json k db ↔ Short json (db (getBankStatementKey k)) := by
  by_cases hempty : (db (getBankStatementKey k)).entries = []
  · refine iff_of_true (fun now => ⟨_, getBankStatementAsync_of_empty now hempty, ?_⟩) (Or.inl ?_)
    · exact Nat.zero_le 10
    · rw [hempty]
      exact Nat.zero_le 10
  obtain ⟨low, t, htake⟩ := h.exists_shown hempty
  have hshown := getLast?_of_records htake
  have hlow : low.length + 1 = min 11 (db (getBankStatementKey k)).entries.length := by
    have hlength := congrArg List.length htake
    rw [List.length_take, List.length_map, List.length_append, List.length_singleton] at hlength
    exact hlength.symm
  have hstatement := fun now => getBankStatementAsync_of_records now htake
  constructor
  · intro hten
    by_cases hsmall : (db (getBankStatementKey k)).entries.length ≤ 10
    · exact Or.inl hsmall
    refine Or.inr fun u hu hheads => ?_
    rw [hshown] at hu
    obtain rfl := entryOf_injective json (Option.some.inj hu)
    obtain ⟨statement, hread, hcount⟩ := hten (.ofTicks 0 .localTime)
    rw [hstatement, if_neg hheads.2] at hread
    obtain rfl := Except.ok.inj hread
    -- the head and ten records below it
    rw [List.length_append, listedFirst, if_neg hheads.1, List.length_map, List.length_reverse,
      List.length_singleton] at hcount
    omega
  · intro hshort now
    refine ⟨_, hstatement now, ?_⟩
    by_cases hzero : t.saldo = 0 ∧ t.limite = 0
    · rw [if_pos hzero]
      exact Nat.zero_le 10
    rw [if_neg hzero, List.length_append, List.length_map, List.length_reverse, listedFirst]
    by_cases hdesc : t.descricao = none ∨ t.descricao = some []
    · rw [if_pos hdesc, List.length_nil]
      omega
    · rw [if_neg hdesc, List.length_singleton]
      rcases hshort with hsmall | hnot
      · omega
      · exact absurd ⟨hdesc, hzero⟩ (hnot t hshown)

/-- Ten members are short, whatever they are. -/
theorem short_keepTop (set : RedisSet) : Short json (set.keepTop 10) := by
  refine Or.inl ?_
  rw [SortedSet.length_keepTop]
  omega

/-- The add of `t` to a set keeps it short: `t` is stored already, or at most nine members are, or
    it leaves at the eleventh rank a record that heads nothing. -/
def AddKeepsShort (json : TransactionJson) (set : RedisSet) (t : Transaction) : Prop :=
  entryOf json t ∈ set.entries ∨ set.entries.length ≤ 9 ∨
    ∀ u, ((set.add t.realizadaEm.score (json.serialize t)).entries.take 11).getLast?
      = some (entryOf json u) → ¬ Heads u

theorem short_add_iff {set : RedisSet} (h : Recorded json set) (hshort : Short json set)
    (t : Transaction) : Short json (set.add t.realizadaEm.score (json.serialize t)) ↔
      AddKeepsShort json set t := by
  by_cases hmem : entryOf json t ∈ set.entries
  · rw [SortedSet.add_of_mem hmem]
    exact iff_of_true hshort (Or.inl hmem)
  have hnew : ∀ e ∈ set.entries, SortedSet.member e ≠ json.serialize t := by
    intro e he hm
    have heq : e = entryOf json t := by
      rw [← SortedSet.entry_eta e, hm, h.score_eq he hm]
      rfl
    exact hmem (heq ▸ he)
  have hlength := SortedSet.length_add_of_new (s := t.realizadaEm.score) hnew
  rw [Short, AddKeepsShort, or_iff_right hmem, hlength]
  exact or_congr (by omega) Iff.rfl

end Sets

/-! ## Runs -/

section Runs

variable {json : TransactionJson} {k : Int32}

theorem recorded_step {s s' : State} {a : Action}
    (h : Recorded json (s.redis (getBankStatementKey k))) (hs : step json s a = some s') :
    Recorded json (s'.redis (getBankStatementKey k)) := by
  rcases step_redis hs with ⟨t, -, hredis⟩ | ⟨t, hredis⟩
  · rw [hredis]
    exact h.saveInsert s.redis t
  · rw [hredis]
    exact h.saveTrim s.redis t

/-- A step keeps statements short: an add to the set of account `k` does. -/
def KeepsShort (json : TransactionJson) (k : Int32) (s : State) (a : Action) : Prop :=
  ∀ t, added s a = some t → t.accountId = k →
    AddKeepsShort json (s.redis (getBankStatementKey k)) t

/-- One command and the length of a statement: only an add to the set of the account matters. -/
theorem atMostTen_step {s s' : State} {a : Action} (hP : AtMostTen json k s.redis)
    (h : Recorded json (s.redis (getBankStatementKey k))) (hs : step json s a = some s') :
    AtMostTen json k s'.redis ↔ KeepsShort json k s a := by
  rw [atMostTen_iff (recorded_step h hs)]
  rw [atMostTen_iff h] at hP
  rcases step_cases hs with ⟨t, ht, hredis⟩ | ⟨hnone, t, hredis⟩
  · rw [hredis, KeepsShort, ht]
    by_cases hk : t.accountId = k
    · rw [saveInsert_of_eq json s.redis t hk, short_add_iff h hP]
      constructor
      · intro hadd u hu _
        rwa [← Option.some.inj hu]
      · exact fun hall => hall t rfl hk
    · rw [saveInsert_of_ne json s.redis t hk]
      refine iff_of_true hP fun u hu hku => ?_
      rw [← Option.some.inj hu] at hku
      exact absurd hku hk
  · rw [hredis]
    refine iff_of_true ?_ fun u hu => ?_
    · by_cases hk : t.accountId = k
      · rw [saveTrim_of_eq s.redis t hk]
        exact short_keepTop _
      · rw [saveTrim_of_ne s.redis t hk]
        exact hP
    · rw [hnone] at hu
      cases hu

/-- **When no statement lists more than ten.**  From a seeded account, a statement read in any state
    of a run of `Save`s and re-seedings, from any instances, lists at most ten transactions, if and
    only if each add of the run to the account's set finds its record stored already, or at most
    nine members, or leaves as the eleventh from below a record with no description or with `Saldo`
    and `Limite` 0. -/
theorem statement_lists_at_most_ten_iff (json : TransactionJson) (k : Int32) (s : State)
    (hseed : Seeded json k s.redis) (actions : List Action) :
    Transition.AllStates (step json) (fun s => AtMostTen json k s.redis) s actions ↔
      Transition.AllSteps (step json) (KeepsShort json k) s actions := by
  have hrecorded := hseed.readable.recorded
  have hstart : AtMostTen json k s.redis := by
    obtain ⟨seed, hentries⟩ := hseed
    refine (atMostTen_iff hrecorded).mpr (Or.inl ?_)
    rw [hentries, List.length_singleton]
    decide
  refine Transition.allStates_iff_allSteps (step json)
    (D := fun s _ => Recorded json (s.redis (getBankStatementKey k)))
    (fun _ _ _ hP hD hs => atMostTen_step hP hD hs) actions s hstart ?_
  exact Transition.allSteps_of_invariant (step json) (fun _ _ _ hI hs => recorded_step hI hs)
    (fun _ _ hI => hI) actions hrecorded

theorem statement_lists_at_most_ten_iff_two :
    Transition.AllStates (step systemTextJson) (fun s => AtMostTen systemTextJson 1 s.redis)
      (freshSaves seededCache 2) [.save 0, .save 1] := by
  refine (statement_lists_at_most_ten_iff systemTextJson 1 (freshSaves seededCache 2)
    seededCache_seeded [.save 0, .save 1]).mpr fun m hm => ?_
  obtain rfl := Option.some.inj hm
  refine ⟨fun _ _ _ => Or.inr (Or.inl (by decide)), fun m' hm' => ?_⟩
  obtain rfl := Option.some.inj hm'
  exact ⟨fun _ _ _ => Or.inr (Or.inl (by decide)), trivial⟩

/-- Eleven `Save`s that have all added and not trimmed: the statement lists ten of them, and the
    seed. -/
theorem statement_lists_eleven :
    ¬ ∀ (s s' : State) (k : Int32) (now : DateTime) (actions : List Action),
      Seeded systemTextJson k s.redis →
      Transition.run (step systemTextJson) s actions = some s' →
      ∃ statement, getBankStatementAsync systemTextJson k now s'.redis = .ok statement ∧
        statement.ultimasTransacoes.length ≤ 10 := by
  intro h
  obtain ⟨s', hrun, hentries⟩ := overfull_entries
  obtain ⟨statement, hstatement, hcount⟩ := h _ s' 1 (.ofTicks 0 .localTime) _ seededCache_seeded
    hrun
  have htake : (s'.redis (getBankStatementKey 1)).entries.take 11
      = ((seedRecord :: (List.range 9).map fun i => creditTo (i + 1)) ++ [creditTo 10]).map
          (entryOf systemTextJson) := by
    rw [hentries, seededCache_entries]
    rfl
  rw [getBankStatementAsync_of_records _ htake, if_neg (by decide)] at hstatement
  obtain rfl := Except.ok.inj hstatement
  exact absurd hcount (by decide)

end Runs

end StatementLength

end Rinha
