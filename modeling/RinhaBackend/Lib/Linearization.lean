/-
  Linearizability: a concurrent run explained by one order of whole operations.

  A sequential object is a function `post : B → Op → B × Ans`.  A concurrent system carries out
  the operations `op p` of its parties `p` in several steps each, and `answer s p` is the answer
  party `p` has been given in state `s`, or can no longer avoid.  A step either changes no answer,
  or is the point at which ONE party takes effect (`Commits`).

  `exists_order` is the rule built on this: if every step is one or the other under a refinement
  relation `R`, then every run is explained by an order of the parties answered, in which the
  object itself gives each of them its answer.  The order only ever grows at its end, so it keeps
  to real time: who was answered before another had begun stands before it (`before_of_prefix`).
-/
import RinhaBackend.Lib.Transition
import Mathlib.Data.List.Nodup

namespace Linearization

variable {S A B Op Ans P : Type}

section Object

variable (post : B → Op → B × Ans)

/-- Operations served one after another: the object at the end, and the answers. -/
def serveAll : B → List Op → B × List Ans
  | b, [] => (b, [])
  | b, o :: os => ((serveAll (post b o).1 os).1, (post b o).2 :: (serveAll (post b o).1 os).2)

/-- One operation more. -/
theorem serveAll_concat (b : B) (os : List Op) (o : Op) :
    serveAll post b (os ++ [o]) = ((post (serveAll post b os).1 o).1,
      (serveAll post b os).2 ++ [(post (serveAll post b os).1 o).2]) := by
  induction os generalizing b with
  | nil => rfl
  | cons x os ih =>
    rw [List.cons_append, serveAll, ih, serveAll]
    rfl

end Object

section Rule

variable (step : S → A → Option S) (post : B → Op → B × Ans) (op : P → Op)
  (answer : S → P → Option Ans)

/-- What a step does as the object sees it: nothing, or the operation of one party. -/
inductive Commits (s s' : S) (b : B) : B → Prop where
  | silent (h : ∀ p, answer s' p = answer s p) : Commits s s' b b
  | commit (p : P) (hbefore : answer s p = none) (hafter : answer s' p = some (post b (op p)).2)
      (hothers : ∀ q, q ≠ p → answer s' q = answer s q) : Commits s s' b (post b (op p)).1

/-- `order` explains state `s` from the object `b`: it lists the parties answered, each once, and
    served in this order they get their answers from the object. -/
structure Explains (b : B) (s : S) (order : List P) : Prop where
  nodup : order.Nodup
  mem_iff : ∀ p, p ∈ order ↔ (answer s p).isSome
  answers : order.map (answer s) = (serveAll post b (order.map op)).2.map some

variable {post op answer}

/-- Nobody answered, nothing to explain. -/
theorem explains_nil {b : B} {s : S} (h : ∀ p, answer s p = none) :
    Explains post op answer b s [] := by
  refine ⟨List.nodup_nil, fun p => ?_, rfl⟩
  rw [h p]
  exact iff_of_false List.not_mem_nil Bool.false_ne_true

/-- A step adds the party it answers, if any, to the end of the order. -/
theorem Explains.commits {b b' b'' : B} {s s' : S} {order : List P}
    (h : Explains post op answer b s order) (hb' : (serveAll post b (order.map op)).1 = b')
    (hc : Commits post op answer s s' b' b'') :
    ∃ later, Explains post op answer b s' (order ++ later) ∧
      (serveAll post b ((order ++ later).map op)).1 = b'' := by
  cases hc with
  | silent hsame =>
    have hanswer : answer s' = answer s := funext hsame
    refine ⟨[], ?_, by rw [List.append_nil, hb']⟩
    rw [List.append_nil]
    refine ⟨h.nodup, fun p => ?_, ?_⟩
    · rw [hanswer]
      exact h.mem_iff p
    · rw [hanswer]
      exact h.answers
  | commit p hbefore hafter hothers =>
    have hnew : p ∉ order := by
      rw [h.mem_iff, hbefore]
      exact Bool.false_ne_true
    have hold : order.map (answer s') = order.map (answer s) :=
      List.map_congr_left fun q hq => hothers q fun hqp => hnew (hqp ▸ hq)
    have hserve := serveAll_concat post b (order.map op) (op p)
    rw [hb'] at hserve
    refine ⟨[p], ⟨?_, fun q => ?_, ?_⟩, ?_⟩
    · exact h.nodup.append (List.nodup_singleton p) (List.disjoint_singleton.mpr hnew)
    · rw [List.mem_append, List.mem_singleton, h.mem_iff]
      by_cases hq : q = p
      · subst hq
        rw [hafter]
        exact iff_of_true (Or.inr rfl) rfl
      · rw [hothers q hq, or_iff_left hq]
    · rw [List.map_append, List.map_append, List.map_singleton, List.map_singleton, hserve, hold,
        hafter, List.map_append, h.answers]
      rfl
    · rw [List.map_append, List.map_singleton, hserve]

/-- **The rule.**  If every step that meets `C` keeps the refinement relation and commits at most
    one operation, then every run is explained by an order that extends the orders explaining the
    states it passes through. -/
theorem exists_order_extending {R : S → B → Prop} {C : S → A → Prop}
    (hstep : ∀ s a s' b, R s b → C s a → step s a = some s' →
      ∃ b', R s' b' ∧ Commits post op answer s s' b b') {b : B} (as : List A) :
    ∀ {s s' : S} {order : List P}, Explains post op answer b s order →
      R s (serveAll post b (order.map op)).1 → Transition.AllSteps step C s as →
      Transition.run step s as = some s' →
      ∃ later, Explains post op answer b s' (order ++ later) ∧
        R s' (serveAll post b ((order ++ later).map op)).1 ∧
        ∀ before after m, as = before ++ after → Transition.run step s before = some m →
          ∃ n, Explains post op answer b m (order ++ later.take n) := by
  induction as with
  | nil =>
    intro s s' order hexplains hR _ hrun
    cases hrun
    refine ⟨[], by rwa [List.append_nil], by rwa [List.append_nil], ?_⟩
    intro before after m hsplit hm
    obtain ⟨rfl, -⟩ := List.append_eq_nil_iff.mp hsplit.symm
    cases hm
    exact ⟨0, by rwa [List.take_nil, List.append_nil]⟩
  | cons a as ih =>
    intro s s' order hexplains hR hC hrun
    obtain ⟨next, hnext, hrest⟩ := (Transition.run_cons step).mp hrun
    obtain ⟨hCa, hCs⟩ := hC next hnext
    obtain ⟨b', hR', hcommits⟩ := hstep s a next _ hR hCa hnext
    obtain ⟨new, hexplains', hb'⟩ := hexplains.commits rfl hcommits
    rw [← hb'] at hR'
    obtain ⟨later, hend, hRend, hprefixes⟩ := ih hexplains' hR' hCs hrest
    refine ⟨new ++ later, by rwa [← List.append_assoc], by rwa [← List.append_assoc], ?_⟩
    intro before after m hsplit hm
    cases before with
    | nil =>
      cases hm
      exact ⟨0, by rwa [List.take_zero, List.append_nil]⟩
    | cons c before =>
      rw [List.cons_append, List.cons.injEq] at hsplit
      obtain ⟨rfl, hsplit⟩ := hsplit
      obtain ⟨next', hnext', hm⟩ := (Transition.run_cons step).mp hm
      rw [hnext, Option.some.injEq] at hnext'
      subst hnext'
      obtain ⟨n, hn⟩ := hprefixes before after m hsplit hm
      refine ⟨new.length + n, ?_⟩
      rwa [List.take_length_add_append, ← List.append_assoc]

/-- A party answered in a state that the beginning of the order explains stands before every party
    that was not answered yet. -/
theorem before_of_prefix {b : B} {s m : S} {first later : List P}
    (h : Explains post op answer b s (first ++ later))
    (hm : Explains post op answer b m first) {p q : P} (hp : (answer m p).isSome)
    (hq : answer m q = none) (hqs : (answer s q).isSome) :
    [p, q].Sublist (first ++ later) := by
  have hfirst : p ∈ first := (hm.mem_iff p).mpr hp
  have hnot : q ∉ first := by
    rw [hm.mem_iff, hq]
    exact Bool.false_ne_true
  have hlater : q ∈ later :=
    (List.mem_append.mp ((h.mem_iff q).mpr hqs)).resolve_left hnot
  exact (List.singleton_sublist.mpr hfirst).append (List.singleton_sublist.mpr hlater)

/-- **Linearizability.**  From a state in which nobody is answered, every run is explained by an
    order in which each party answered before another one was stands before it. -/
theorem exists_order {R : S → B → Prop} {C : S → A → Prop}
    (hstep : ∀ s a s' b, R s b → C s a → step s a = some s' →
      ∃ b', R s' b' ∧ Commits post op answer s s' b b') {b : B} {as : List A} {s s' : S}
    (hnone : ∀ p, answer s p = none) (hR : R s b) (hC : Transition.AllSteps step C s as)
    (hrun : Transition.run step s as = some s') :
    ∃ order, Explains post op answer b s' order ∧
      R s' (serveAll post b (order.map op)).1 ∧
      ∀ before after m, as = before ++ after → Transition.run step s before = some m →
        ∀ p q, (answer m p).isSome → answer m q = none → (answer s' q).isSome →
          [p, q].Sublist order := by
  obtain ⟨order, hexplains, hRend, hprefixes⟩ :=
    exists_order_extending step hstep as (explains_nil hnone) hR hC hrun
  refine ⟨order, hexplains, hRend, fun before after m hsplit hm p q hp hq hqs => ?_⟩
  obtain ⟨n, hn⟩ := hprefixes before after m hsplit hm
  rw [List.nil_append] at hexplains hn
  have horder : order.take n ++ order.drop n = order := List.take_append_drop n order
  rw [← horder] at hexplains ⊢
  exact before_of_prefix hexplains hn hp hq hqs

end Rule

end Linearization
