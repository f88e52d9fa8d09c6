/-
  Sorted sets of scored members, with rank ranges.

  A member occurs at most once and carries a score; the set is kept in the order of
  (score, member), and positions in that order are RANKS.  Rank ranges are inclusive and a
  negative rank counts from the end of the list it is applied to, with out-of-range ends
  clamped.  The invariant (strictly ascending, members distinct) is carried by the structure,
  so an unsorted set or a duplicated member cannot be built.

  The file connects the list representation with the order-free reading of it:
  * `toFinset_add`     — adding a member that keeps its score is set insertion;
  * `toFinset_keepTop` — removing the ranks `0 .. -(n+1)` keeps exactly `TopRank.top n`;
  * `take_reverse_of_retains` — a set that retains the top of a log shows the newest of it;
  * `last?_add_of_forall_lt`, `last?_keepTop` — what insertion and cutting do to the greatest entry.
-/
import Mathlib.Data.Prod.Lex
import Mathlib.Data.List.Sort
import Mathlib.Data.Finset.Dedup
import RinhaBackend.Lib.TopRank

/-! ## Rank ranges of a list -/

namespace RankRange

variable {α : Type}

/-- First position of a range: negative ranks count from the end, clamped to the front. -/
def startIndex (len : Nat) (start : Int) : Nat :=
  if start < 0 then (start + len).toNat else start.toNat

/-- One past the last position of a range, clamped to the length. -/
def endIndex (len : Nat) (stop : Int) : Nat :=
  if stop < 0 then (stop + len + 1).toNat else min (stop.toNat + 1) len

/-- The elements with rank `start .. stop`, both ends included. -/
def range (l : List α) (start stop : Int) : List α :=
  (l.take (endIndex l.length stop)).drop (startIndex l.length start)

/-- The list without the elements of rank `start .. stop`. -/
def removeRange (l : List α) (start stop : Int) : List α :=
  l.take (startIndex l.length start)
    ++ l.drop (max (startIndex l.length start) (endIndex l.length stop))

theorem removeRange_sublist (l : List α) (start stop : Int) :
    (removeRange l start stop).Sublist l := by
  have h : (l.drop (max (startIndex l.length start) (endIndex l.length stop))).Sublist
      (l.drop (startIndex l.length start)) :=
    (List.drop_sublist_drop_left l (Nat.le_max_left _ _))
  have happ := h.append_left (l.take (startIndex l.length start))
  rwa [List.take_append_drop] at happ

/-- The range `0 .. 1` starts with the first element. -/
theorem head?_range_zero_one (l : List α) : (range l 0 1).head? = l.head? := by
  cases l with
  | nil => rfl
  | cons a l =>
    have h : endIndex (a :: l).length 1 = min 2 (l.length + 1) := rfl
    rw [range, h, show startIndex (a :: l).length 0 = 0 from rfl, List.drop_zero,
      show min 2 (l.length + 1) = min 1 l.length + 1 by omega, List.take_succ_cons]
    rfl

/-- The range `-n .. -1` is the last `n` elements. -/
theorem range_last (l : List α) (n : Nat) (hn : 0 < n) :
    range l (-(n : Int)) (-1) = l.drop (l.length - n) := by
  have hend : endIndex l.length (-1) = l.length := by
    rw [endIndex, if_pos (by omega)]
    omega
  have hstart : startIndex l.length (-(n : Int)) = l.length - n := by
    rw [startIndex, if_pos (by omega)]
    omega
  rw [range, hend, hstart, List.take_length]

/-- Removing the ranks `0 .. -(n+1)` keeps the last `n` elements. -/
theorem removeRange_keep_last (l : List α) (n : Nat) :
    removeRange l 0 (-((n : Int) + 1)) = l.drop (l.length - n) := by
  have hend : endIndex l.length (-((n : Int) + 1)) = l.length - n := by
    rw [endIndex, if_pos (by omega)]
    omega
  rw [removeRange, hend, show startIndex l.length 0 = 0 from rfl, List.take_zero,
    List.nil_append, Nat.zero_max]

/-- Cutting a non-empty window keeps the last element. -/
theorem getLast?_drop (l : List α) {n : Nat} (hn : 0 < n) :
    (l.drop (l.length - n)).getLast? = l.getLast? := by
  rw [List.getLast?_drop]
  by_cases hl : l = []
  · rw [hl]
    simp
  · have hpos := List.length_pos_iff.mpr hl
    rw [if_neg (by omega)]

end RankRange

/-! ## Strictly ascending lists, read as finite sets -/

namespace AscendingList

variable {α : Type} [LinearOrder α]

/-- The last element of a strictly ascending list is its greatest. -/
theorem le_getLast {l : List α} (h : l.Pairwise (· < ·)) {a : α} (ha : l.getLast? = some a) :
    ∀ x ∈ l, x ≤ a := by
  obtain ⟨l', rfl⟩ := List.getLast?_eq_some_iff.mp ha
  intro x hx
  rcases List.mem_append.mp hx with hx | hx
  · exact (List.pairwise_append.mp h).2.2 x hx a (List.mem_singleton_self a) |>.le
  · exact (List.mem_singleton.mp hx).le

/-- A member that bounds a strictly ascending list is its last element. -/
theorem getLast?_of_le {l : List α} (h : l.Pairwise (· < ·)) {a : α} (ha : a ∈ l)
    (hmax : ∀ x ∈ l, x ≤ a) : l.getLast? = some a := by
  rcases hlast : l.getLast? with _ | b
  · rw [List.getLast?_eq_none_iff] at hlast
    exact absurd (hlast ▸ ha) List.not_mem_nil
  · -- both are greatest, so they are one
    have hb : b ∈ l := List.mem_of_getLast? hlast
    exact congrArg some (le_antisymm (hmax b hb) (le_getLast h hlast a ha))

/-- The elements above a given one are those after its position. -/
theorem above_append {l₁ l₂ : List α} {a : α} (h : (l₁ ++ a :: l₂).Pairwise (· < ·)) :
    TopRank.above (l₁ ++ a :: l₂).toFinset a = l₂.toFinset := by
  obtain ⟨-, htail, hcross⟩ := List.pairwise_append.mp h
  ext x
  rw [TopRank.mem_above, List.mem_toFinset, List.mem_toFinset, List.mem_append, List.mem_cons]
  constructor
  · rintro ⟨hx | rfl | hx, hax⟩
    · exact absurd (hcross x hx a List.mem_cons_self) (lt_asymm hax)
    · exact absurd hax (lt_irrefl _)
    · exact hx
  · intro hx
    exact ⟨Or.inr (Or.inr hx), List.rel_of_pairwise_cons htail hx⟩

/-- **Dropping all but the last `n` keeps the top `n`.** -/
theorem toFinset_drop {l : List α} (h : l.Pairwise (· < ·)) (n : Nat) :
    (l.drop (l.length - n)).toFinset = TopRank.top n l.toFinset := by
  ext a
  rw [TopRank.mem_top, List.mem_toFinset, List.mem_toFinset]
  by_cases ha : a ∈ l
  · obtain ⟨l₁, l₂, rfl⟩ := List.append_of_mem ha
    have hnodup : (l₁ ++ a :: l₂).Nodup := h.imp ne_of_lt
    have hcard : (TopRank.above (l₁ ++ a :: l₂).toFinset a).card = l₂.length := by
      rw [above_append h]
      exact List.toFinset_card_of_nodup (List.nodup_cons.mp hnodup.of_append_right).2
    rw [hcard, List.drop_append, List.length_append, List.length_cons, List.mem_append]
    -- `a` stands at position `l₁.length`, with `l₂` behind it
    by_cases hlt : l₂.length < n
    · refine iff_of_true (Or.inr ?_) ⟨ha, hlt⟩
      rw [show l₁.length + (l₂.length + 1) - n - l₁.length = 0 by omega, List.drop_zero]
      exact List.mem_cons_self
    · refine iff_of_false ?_ (fun hc => hlt hc.2)
      rw [List.drop_of_length_le (by omega : l₁.length ≤ l₁.length + (l₂.length + 1) - n),
        show l₁.length + (l₂.length + 1) - n - l₁.length = (l₂.length - n) + 1 by omega,
        List.drop_succ_cons]
      rintro (hc | hc)
      · exact absurd hc List.not_mem_nil
      · exact (List.nodup_cons.mp hnodup.of_append_right).1 (List.mem_of_mem_drop hc)
  · exact iff_of_false (fun hc => ha (List.mem_of_mem_drop hc)) (fun hc => ha hc.1)

end AscendingList

/-! ## Sorted sets -/

/-- A set of members with scores, in the order of (score, member). -/
structure SortedSet (σ μ : Type) [LinearOrder σ] [LinearOrder μ] where
  /-- The entries, lowest rank first. -/
  entries : List (σ ×ₗ μ)
  ascending : entries.Pairwise (· < ·)
  /-- A member occurs under one score only. -/
  distinct : (entries.map fun e => (ofLex e).2).Nodup

namespace SortedSet

variable {σ μ : Type}

/-- The member of an entry. -/
def member (e : σ ×ₗ μ) : μ := (ofLex e).2

/-- The score of an entry. -/
def score (e : σ ×ₗ μ) : σ := (ofLex e).1

@[simp] theorem score_toLex (s : σ) (m : μ) : score (toLex (s, m)) = s := rfl

theorem entry_eta (e : σ ×ₗ μ) : toLex (score e, member e) = e := rfl

variable [LinearOrder σ] [LinearOrder μ]

/-- A higher score is a higher rank, whatever the members. -/
theorem lt_of_score_lt {a b : σ ×ₗ μ} (h : score a < score b) : a < b :=
  Prod.Lex.lt_iff.mpr (Or.inl h)

@[ext] theorem ext {s t : SortedSet σ μ} (h : s.entries = t.entries) : s = t := by
  cases s
  cases t
  cases h
  rfl

/-- The set with no member, which an absent key stands for. -/
def empty : SortedSet σ μ := ⟨[], List.Pairwise.nil, List.nodup_nil⟩

/-- The order-free content. -/
def toFinset (s : SortedSet σ μ) : Finset (σ ×ₗ μ) := s.entries.toFinset

@[simp] theorem mem_toFinset {s : SortedSet σ μ} {e : σ ×ₗ μ} :
    e ∈ s.toFinset ↔ e ∈ s.entries := List.mem_toFinset

theorem nodup_entries (s : SortedSet σ μ) : s.entries.Nodup := s.ascending.imp ne_of_lt

@[simp] theorem card_toFinset (s : SortedSet σ μ) : s.toFinset.card = s.entries.length :=
  List.toFinset_card_of_nodup s.nodup_entries

/-- Sets with the same content are equal: the order leaves no choice. -/
theorem eq_of_toFinset_eq {s t : SortedSet σ μ} (h : s.toFinset = t.toFinset) : s = t := by
  refine ext (List.Perm.eq_of_pairwise (fun a b _ _ hab hba => absurd hab (lt_asymm hba))
    s.ascending t.ascending ?_)
  exact List.perm_of_nodup_nodup_toFinset_eq s.nodup_entries t.nodup_entries h

/-- Two entries with one member are one entry. -/
theorem entry_unique (s : SortedSet σ μ) {a b : σ ×ₗ μ} (ha : a ∈ s.entries)
    (hb : b ∈ s.entries) (h : member a = member b) : a = b :=
  List.inj_on_of_nodup_map s.distinct ha hb h

/-! ### Adding a member -/

/-- The entries once `m` is (re)scored: an old entry of `m` goes, the new one is put in order. -/
def addEntries (l : List (σ ×ₗ μ)) (s : σ) (m : μ) : List (σ ×ₗ μ) :=
  (l.filter fun e => member e ≠ m).orderedInsert (· ≤ ·) (toLex (s, m))

theorem mem_addEntries {l : List (σ ×ₗ μ)} {s : σ} {m : μ} {e : σ ×ₗ μ} :
    e ∈ addEntries l s m ↔ e = toLex (s, m) ∨ (e ∈ l ∧ member e ≠ m) := by
  rw [addEntries, List.mem_orderedInsert, List.mem_filter, decide_eq_true_eq]

theorem addEntries_distinct {l : List (σ ×ₗ μ)} (h : (l.map fun e => (ofLex e).2).Nodup)
    (s : σ) (m : μ) : ((addEntries l s m).map fun e => (ofLex e).2).Nodup := by
  have hperm := (List.perm_orderedInsert (· ≤ ·) (toLex (s, m))
    (l.filter fun e => member e ≠ m)).map fun e : σ ×ₗ μ => (ofLex e).2
  refine (hperm.nodup_iff).mpr (List.nodup_cons.mpr ⟨fun hmem => ?_, ?_⟩)
  · obtain ⟨e, he, hem⟩ := List.mem_map.mp hmem
    exact of_decide_eq_true (List.mem_filter.mp he).2 hem
  · exact h.sublist (List.filter_sublist.map _)

theorem addEntries_ascending {l : List (σ ×ₗ μ)} (h : l.Pairwise (· < ·))
    (hd : (l.map fun e => (ofLex e).2).Nodup) (s : σ) (m : μ) :
    (addEntries l s m).Pairwise (· < ·) := by
  have hle : (addEntries l s m).Pairwise (· ≤ ·) :=
    ((h.imp le_of_lt).filter _).orderedInsert _ _
  have hnodup : (addEntries l s m).Nodup := (addEntries_distinct hd s m).of_map _
  exact List.Pairwise.imp₂ (fun a b hab hne => lt_of_le_of_ne hab hne) hle hnodup

/-- Add `m` with score `s`, or change its score. -/
def add (set : SortedSet σ μ) (s : σ) (m : μ) : SortedSet σ μ where
  entries := addEntries set.entries s m
  ascending := addEntries_ascending set.ascending set.distinct s m
  distinct := addEntries_distinct set.distinct s m

theorem mem_add {set : SortedSet σ μ} {s : σ} {m : μ} {e : σ ×ₗ μ} :
    e ∈ (set.add s m).entries ↔ e = toLex (s, m) ∨ (e ∈ set.entries ∧ member e ≠ m) :=
  mem_addEntries

theorem self_mem_add (set : SortedSet σ μ) (s : σ) (m : μ) :
    toLex (s, m) ∈ (set.add s m).entries := mem_add.mpr (Or.inl rfl)

theorem of_mem_add {set : SortedSet σ μ} {s : σ} {m : μ} {e : σ ×ₗ μ}
    (h : e ∈ (set.add s m).entries) : e = toLex (s, m) ∨ e ∈ set.entries :=
  (mem_add.mp h).imp_right And.left

/-- One command adds at most one member. -/
theorem length_add_le (set : SortedSet σ μ) (s : σ) (m : μ) :
    (set.add s m).entries.length ≤ set.entries.length + 1 := by
  have h : (set.add s m).toFinset ⊆ insert (toLex (s, m)) set.toFinset := by
    intro e he
    rcases of_mem_add (mem_toFinset.mp he) with rfl | hmem
    · exact Finset.mem_insert_self _ _
    · exact Finset.mem_insert_of_mem (mem_toFinset.mpr hmem)
  have hcard := (Finset.card_le_card h).trans (Finset.card_insert_le _ _)
  rwa [card_toFinset, card_toFinset] at hcard

/-- **Adding is insertion** when `m` is new or already carries the score `s`. -/
theorem toFinset_add {set : SortedSet σ μ} {s : σ} {m : μ}
    (h : ∀ e ∈ set.entries, member e = m → score e = s) :
    (set.add s m).toFinset = insert (toLex (s, m)) set.toFinset := by
  ext e
  rw [mem_toFinset, mem_add, Finset.mem_insert, mem_toFinset]
  constructor
  · rintro (rfl | ⟨hmem, -⟩)
    · exact Or.inl rfl
    · exact Or.inr hmem
  · rintro (rfl | hmem)
    · exact Or.inl rfl
    · by_cases hm : member e = m
      · exact Or.inl (by rw [← entry_eta e, hm, h e hmem hm])
      · exact Or.inr ⟨hmem, hm⟩

/-- What is stored after such an add. -/
theorem mem_toFinset_add {set : SortedSet σ μ} {s : σ} {m : μ}
    (h : ∀ e ∈ set.entries, member e = m → score e = s) {e : σ ×ₗ μ} :
    e ∈ (set.add s m).toFinset ↔ e = toLex (s, m) ∨ e ∈ set.toFinset := by
  rw [toFinset_add h, Finset.mem_insert]

/-- Adding a member that is new, or keeps its score, removes none. -/
theorem length_le_add {set : SortedSet σ μ} {s : σ} {m : μ}
    (h : ∀ e ∈ set.entries, member e = m → score e = s) :
    set.entries.length ≤ (set.add s m).entries.length := by
  have hcard := Finset.card_le_card (Finset.subset_insert (toLex (s, m)) set.toFinset)
  rwa [← toFinset_add h, card_toFinset, card_toFinset] at hcard

/-- A new member is one more. -/
theorem length_add_of_new {set : SortedSet σ μ} {s : σ} {m : μ}
    (h : ∀ e ∈ set.entries, member e ≠ m) :
    (set.add s m).entries.length = set.entries.length + 1 := by
  have hfresh : toLex (s, m) ∉ set.toFinset := fun hmem => h _ (mem_toFinset.mp hmem) rfl
  have hadd := toFinset_add (s := s) fun e he hm => absurd hm (h e he)
  rw [← card_toFinset, hadd, Finset.card_insert_of_notMem hfresh, card_toFinset]

/-- Re-adding an entry changes nothing. -/
theorem add_of_mem {set : SortedSet σ μ} {s : σ} {m : μ} (h : toLex (s, m) ∈ set.entries) :
    set.add s m = set := by
  refine eq_of_toFinset_eq ?_
  rw [toFinset_add fun e he hm => by rw [set.entry_unique he h hm, score_toLex]]
  exact Finset.insert_eq_of_mem (mem_toFinset.mpr h)

/-! ### The greatest entry -/

/-- The entry of highest rank. -/
def last? (set : SortedSet σ μ) : Option (σ ×ₗ μ) := set.entries.getLast?

theorem mem_of_last? {set : SortedSet σ μ} {e : σ ×ₗ μ} (h : set.last? = some e) :
    e ∈ set.entries := List.mem_of_getLast? h

theorem last?_of_le {set : SortedSet σ μ} {e : σ ×ₗ μ} (he : e ∈ set.entries)
    (hmax : ∀ x ∈ set.entries, x ≤ e) : set.last? = some e :=
  AscendingList.getLast?_of_le set.ascending he hmax

/-- The greatest entry bounds every entry. -/
theorem le_of_last? {set : SortedSet σ μ} {e : σ ×ₗ μ} (h : set.last? = some e) {x : σ ×ₗ μ}
    (hx : x ∈ set.entries) : x ≤ e := AscendingList.le_getLast set.ascending h x hx

/-- **Adding never lowers the greatest entry**, unless it changes the score of that very member:
    what is greatest afterwards is the greater of the two. -/
theorem last?_add {set : SortedSet σ μ} {e : σ ×ₗ μ} (hlast : set.last? = some e) {s : σ} {m : μ}
    (hsame : member e = m → score e = s) :
    (set.add s m).last? = some (max e (toLex (s, m))) := by
  refine last?_of_le ?_ fun x hx => ?_
  · rcases max_choice e (toLex (s, m)) with hmax | hmax
    · rw [hmax]
      by_cases hm : member e = m
      · have he : e = toLex (s, m) := by rw [← entry_eta e, hm, hsame hm]
        exact mem_add.mpr (Or.inl he)
      · exact mem_add.mpr (Or.inr ⟨mem_of_last? hlast, hm⟩)
    · rw [hmax]
      exact self_mem_add set s m
  · rcases of_mem_add hx with rfl | hmem
    · exact le_max_right _ _
    · exact (le_of_last? hlast hmem).trans (le_max_left _ _)

/-- A member scored above everything stored becomes the greatest entry. -/
theorem last?_add_of_forall_lt {set : SortedSet σ μ} {s : σ} {m : μ}
    (h : ∀ e ∈ set.entries, score e < s) : (set.add s m).last? = some (toLex (s, m)) := by
  refine last?_of_le (self_mem_add set s m) fun x hx => ?_
  rcases of_mem_add hx with rfl | hmem
  · exact le_refl _
  · exact (lt_of_score_lt (h x hmem)).le

/-- Inserting above everything appends. -/
theorem orderedInsert_of_forall_lt {l : List (σ ×ₗ μ)} {a : σ ×ₗ μ} (h : ∀ b ∈ l, b < a) :
    l.orderedInsert (· ≤ ·) a = l ++ [a] := by
  induction l with
  | nil => rfl
  | cons b l ih =>
    rw [List.orderedInsert, if_neg (not_le.mpr (h b List.mem_cons_self)),
      ih fun c hc => h c (List.mem_cons_of_mem b hc), List.cons_append]

/-- A new member scored above everything stored goes to the end. -/
theorem entries_add_of_forall_lt {set : SortedSet σ μ} {s : σ} {m : μ}
    (hnew : ∀ e ∈ set.entries, member e ≠ m) (hlt : ∀ e ∈ set.entries, score e < s) :
    (set.add s m).entries = set.entries ++ [toLex (s, m)] := by
  have hfilter : (set.entries.filter fun e => member e ≠ m) = set.entries :=
    List.filter_eq_self.mpr fun e he => decide_eq_true (hnew e he)
  show addEntries set.entries s m = _
  have hbelow : ∀ e ∈ set.entries, e < toLex (s, m) := fun e he => lt_of_score_lt (hlt e he)
  rw [addEntries, hfilter, orderedInsert_of_forall_lt hbelow]

/-- A new member scored below everything stored goes to the front. -/
theorem entries_add_of_forall_gt {set : SortedSet σ μ} {s : σ} {m : μ}
    (hnew : ∀ e ∈ set.entries, member e ≠ m) (hgt : ∀ e ∈ set.entries, s < score e) :
    (set.add s m).entries = toLex (s, m) :: set.entries := by
  have hfilter : (set.entries.filter fun e => member e ≠ m) = set.entries :=
    List.filter_eq_self.mpr fun e he => decide_eq_true (hnew e he)
  show addEntries set.entries s m = _
  rw [addEntries, hfilter]
  rcases hl : set.entries with _ | ⟨b, l⟩
  · rfl
  · have hb : toLex (s, m) ≤ b :=
      (lt_of_score_lt (hgt b (by rw [hl]; exact List.mem_cons_self))).le
    rw [List.orderedInsert, if_pos hb]

/-! ### Rank ranges -/

/-- The members of rank `start .. stop`, lowest first. -/
def rangeAscending (set : SortedSet σ μ) (start stop : Int) : List μ :=
  (RankRange.range set.entries start stop).map member

/-- The members of rank `start .. stop` counted from the greatest, greatest first. -/
def rangeDescending (set : SortedSet σ μ) (start stop : Int) : List μ :=
  (RankRange.range set.entries.reverse start stop).map member

/-- Remove the entries of rank `start .. stop`, counted from the lowest. -/
def removeRange (set : SortedSet σ μ) (start stop : Int) : SortedSet σ μ where
  entries := RankRange.removeRange set.entries start stop
  ascending := set.ascending.sublist (RankRange.removeRange_sublist _ _ _)
  distinct := set.distinct.sublist ((RankRange.removeRange_sublist _ _ _).map _)

theorem mem_of_mem_removeRange {set : SortedSet σ μ} {start stop : Int} {e : σ ×ₗ μ}
    (h : e ∈ (set.removeRange start stop).entries) : e ∈ set.entries :=
  (RankRange.removeRange_sublist _ _ _).subset h

/-- The descending range `0 .. 1` starts with the member of the greatest entry. -/
theorem head?_rangeDescending (set : SortedSet σ μ) :
    (set.rangeDescending 0 1).head? = set.last?.map member := by
  rw [rangeDescending, List.head?_map, RankRange.head?_range_zero_one, List.head?_reverse, last?]

/-- The descending range `-n .. -1` is the `n` LOWEST members, greatest of them first: the
    negative ranks count from the end of the descending order. -/
theorem rangeDescending_last (set : SortedSet σ μ) (n : Nat) (hn : 0 < n) :
    set.rangeDescending (-(n : Int)) (-1) = ((set.entries.take n).map member).reverse := by
  rw [rangeDescending, RankRange.range_last _ n hn, List.length_reverse, List.drop_reverse,
    List.map_reverse]
  have htake : set.entries.take (set.entries.length - (set.entries.length - n))
      = set.entries.take n := by
    by_cases h : n ≤ set.entries.length
    · rw [show set.entries.length - (set.entries.length - n) = n by omega]
    · rw [List.take_of_length_le (by omega : set.entries.length ≤ n),
        List.take_of_length_le (by omega)]
  rw [htake]

/-- Keep the `n` highest entries: remove the ranks `0 .. -(n+1)`. -/
abbrev keepTop (n : Nat) (set : SortedSet σ μ) : SortedSet σ μ :=
  set.removeRange 0 (-((n : Int) + 1))

theorem entries_keepTop (n : Nat) (set : SortedSet σ μ) :
    (set.keepTop n).entries = set.entries.drop (set.entries.length - n) :=
  RankRange.removeRange_keep_last _ _

/-- **Cutting by negative rank is the top window.** -/
theorem toFinset_keepTop (n : Nat) (set : SortedSet σ μ) :
    (set.keepTop n).toFinset = TopRank.top n set.toFinset := by
  rw [toFinset, entries_keepTop]
  exact AscendingList.toFinset_drop set.ascending n

theorem length_keepTop (n : Nat) (set : SortedSet σ μ) :
    (set.keepTop n).entries.length = min n set.entries.length := by
  rw [entries_keepTop, List.length_drop]
  omega

section Logs

variable {n : Nat} {log : List (σ ×ₗ μ)} {E : Finset (σ ×ₗ μ)} {set : SortedSet σ μ}

/-- **A set that retains the top `n` of a log**, kept newest first and each entry above those before
    it, has the newest `n` of the log for its `n` highest. -/
theorem take_reverse_of_retains (hlog : log.Pairwise fun a b => b < a)
    (hE : ∀ e, e ∈ E ↔ e ∈ log) (h : TopRank.Retains n E set.toFinset) :
    set.entries.reverse.take n = log.take n := by
  obtain rfl : E = log.reverse.toFinset :=
    Finset.ext fun e => by rw [hE, List.mem_toFinset, List.mem_reverse]
  have hup : log.reverse.Pairwise (· < ·) := List.pairwise_reverse.mpr hlog
  have hsame : (set.entries.drop (set.entries.length - n)).toFinset
      = (log.reverse.drop (log.reverse.length - n)).toFinset := by
    rw [AscendingList.toFinset_drop set.ascending, AscendingList.toFinset_drop hup]
    exact h.top_eq
  have hleft : (set.entries.drop (set.entries.length - n)).Pairwise (· < ·) := set.ascending.drop
  have hright : (log.reverse.drop (log.reverse.length - n)).Pairwise (· < ·) := hup.drop
  have hdrop : set.entries.drop (set.entries.length - n)
      = log.reverse.drop (log.reverse.length - n) :=
    List.Perm.eq_of_pairwise (fun _ _ _ _ hab hba => absurd hab (lt_asymm hba)) hleft hright
      (List.perm_of_nodup_nodup_toFinset_eq (hleft.imp ne_of_lt) (hright.imp ne_of_lt) hsame)
  rw [List.take_reverse, hdrop, ← List.take_reverse, List.reverse_reverse]

/-- And the newest entry of the log for its greatest. -/
theorem last?_of_retains (hn : 0 < n) (hlog : log.Pairwise fun a b => b < a)
    (hE : ∀ e, e ∈ E ↔ e ∈ log) (h : TopRank.Retains n E set.toFinset) :
    set.last? = log.head? := by
  have htake := congrArg List.head? (take_reverse_of_retains hlog hE h)
  rw [List.head?_take, List.head?_take, if_neg (by omega), if_neg (by omega),
    List.head?_reverse] at htake
  exact htake

end Logs

/-- The cut never removes the greatest entry. -/
theorem last?_keepTop {n : Nat} (hn : 0 < n) (set : SortedSet σ μ) :
    (set.keepTop n).last? = set.last? := by
  rw [last?, entries_keepTop]
  exact RankRange.getLast?_drop set.entries hn

end SortedSet
