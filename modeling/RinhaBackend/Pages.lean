/-
  A page adds up.

  What the passbooks satisfy as a sequential object, every statement of the concurrent service shows
  in an orderly run.  Here it is what a client checks first: a page with fewer than ten lines has
  everything that was ever posted on the account, so its balance is the balance at the opening and
  the amounts of its lines, in 32 bits (`pages_add_up`).

  The proof does not look at the interleaving: one operation on the books keeps them balanced
  (`balanced_serve`), and a step of the service is at most one operation (`keeps_step`).
-/
import RinhaBackend.Passbook

namespace Rinha

namespace Pages

open CachedRepository InitializeRedis ServiceRun Passbook
open LostUpdate (amount)
open Ledger (wrap32)

/-! ## The books -/

/-- The limit of an account is that of its seed, and its balance is that of the seed and the amounts
    of its lines. -/
def Balanced (seeds : Int32 → Option Transaction) (books : Books) : Prop :=
  ∀ id limite saldo, books.accounts id = some (limite, saldo) → ∃ seed, seeds id = some seed ∧
    limite = seed.limite.toInt ∧
    saldo = wrap32 (seed.saldo.toInt + ((books.lines id).map amount).sum)

section Books

variable {seeds : Int32 → Option Transaction} {books : Books}

theorem balanced_opened (seeds : Int32 → Option Transaction) :
    Balanced seeds ⟨Bank.accountsOf seeds, fun _ => []⟩ := by
  intro id limite saldo h
  obtain ⟨seed, hseed, heq⟩ := Option.map_eq_some_iff.mp h
  cases heq
  have hrange := inInt32_toInt seed.saldo
  refine ⟨seed, hseed, rfl, ?_⟩
  rw [List.map_nil, List.sum_nil, add_zero, wrap32]
  exact (Int.bmod_eq_of_le (by have := hrange.1; omega) (by have := hrange.2; omega)).symm

/-- A posting of the ledger moves the balance by the amount of the request, or not at all. -/
theorem post_cases (request : TransactionRequest) (limite saldo : Int) :
    Ledger.post limite saldo request.posting = (saldo, .refused) ∨
      Ledger.post limite saldo request.posting
        = (wrap32 (saldo + amount request), .posted limite (wrap32 (saldo + amount request))) := by
  rw [TransactionRequest.posting, amount]
  split
  · exact Or.inl rfl
  · split
    · exact Or.inr rfl
    · rw [Ledger.post]
      split
      · rw [← sub_eq_add_neg]
        exact Or.inr rfl
      · exact Or.inl rfl

/-- A posting that is not accepted leaves the books as they are. -/
theorem balanced_of_refused (h : Balanced seeds books) {id : Int32} {request : TransactionRequest}
    (hpost : Bank.post books.accounts (id, request.posting) = (books.accounts, some .refused) ∨
      Bank.post books.accounts (id, request.posting) = (books.accounts, none)) :
    Balanced seeds (books.post id request).1 := by
  have hlines : (books.post id request).1.lines = books.lines := by
    refine post_lines_of_refused fun limite saldo hc => ?_
    rcases hpost with hpost | hpost
    · rw [hpost] at hc
      cases hc
    · rw [hpost] at hc
      cases hc
  have haccounts : (books.post id request).1.accounts = books.accounts := by
    rw [post_accounts]
    rcases hpost with hpost | hpost <;> rw [hpost]
  intro k limite saldo hk
  rw [haccounts] at hk
  rw [hlines]
  exact h k limite saldo hk

/-- A posting that is accepted adds its amount to the balance, and its line. -/
theorem balanced_of_posted (h : Balanced seeds books) {id : Int32} {request : TransactionRequest}
    {limite saldo : Int} (haccount : books.accounts id = some (limite, saldo))
    (hpost : Bank.post books.accounts (id, request.posting)
      = (Function.update books.accounts id (some (limite, wrap32 (saldo + amount request))),
        some (.posted limite (wrap32 (saldo + amount request))))) :
    Balanced seeds (books.post id request).1 := by
  intro k limite' saldo' hk
  rw [post_accounts, hpost] at hk
  rw [post_lines (congrArg Prod.snd hpost)]
  dsimp only at hk
  by_cases hown : k = id
  · subst hown
    rw [Function.update_self] at hk ⊢
    cases hk
    obtain ⟨seed, hseed, rfl, hsaldo⟩ := h k limite saldo haccount
    refine ⟨seed, hseed, rfl, ?_⟩
    rw [hsaldo, List.map_cons, List.sum_cons]
    simp only [wrap32]
    rw [Int.bmod_add_bmod, add_assoc, add_comm (amount request)]
  · rw [Function.update_of_ne hown] at hk ⊢
    exact h k limite' saldo' hk

/-- **One operation** keeps the books balanced. -/
theorem balanced_serve (h : Balanced seeds books) (q : Request) :
    Balanced seeds (Passbook.serve books q).1 := by
  cases q with
  | statement id => exact h
  | posting id request =>
    show Balanced seeds (books.post id request).1
    by_cases hinvalid : request.posting = .invalid
    · refine balanced_of_refused h (Or.inl ?_)
      rw [hinvalid]
      exact Bank.post_invalid
    rcases haccount : books.accounts id with _ | ⟨limite, saldo⟩
    · exact balanced_of_refused h (Or.inr (Bank.post_unknown hinvalid haccount))
    rcases post_cases request limite saldo with hpost | hpost
    · exact balanced_of_refused h (Or.inl (Bank.post_refused hinvalid haccount hpost))
    · have hknown := Bank.post_known hinvalid haccount
      rw [hpost] at hknown
      exact balanced_of_posted h haccount hknown

/-- A page of the account with seed `seeds id` that has fewer than ten lines adds up. -/
def AddsUp (seeds : Int32 → Option Transaction) (id : Int32) (page : Page) : Prop :=
  page.2.2.length < 10 → ∃ seed, seeds id = some seed ∧ page.1 = seed.limite.toInt ∧
    page.2.1 = wrap32 (seed.saldo.toInt + (page.2.2.map amount).sum)

/-- **Balanced books have pages that add up.** -/
theorem addsUp_statement (h : Balanced seeds books) {id : Int32} {page : Page}
    (hpage : books.statement id = some page) : AddsUp seeds id page := by
  intro hshort
  rw [Books.statement] at hpage
  rcases haccount : books.accounts id with _ | ⟨limite, saldo⟩
  · rw [haccount] at hpage
    cases hpage
  · rw [haccount] at hpage
    dsimp only at hpage
    split at hpage
    · cases hpage
    · cases hpage
      obtain ⟨seed, hseed, rfl, rfl⟩ := h id limite saldo haccount
      refine ⟨seed, hseed, rfl, ?_⟩
      dsimp only at hshort ⊢
      rw [lastTen] at hshort ⊢
      split
      · next hnone => rw [hnone]
      · next hsome =>
        -- all lines are shown, and the opening one is worth nothing
        rw [if_neg hsome, List.length_take, List.length_append, List.length_singleton] at hshort
        rw [List.take_of_length_le (by rw [List.length_append, List.length_singleton]; omega),
          List.map_append, List.sum_append]
        have hopening : ([opening].map amount).sum = 0 := rfl
        rw [hopening, add_zero]

end Books

/-! ## The service -/

/-- The books are kept and balanced, and every statement answered so far adds up. -/
structure Sound (json : TransactionJson) (seeds : Int32 → Option Transaction)
    (op : Party → Request) (s : State) : Prop where
  books : ∃ books, Keeps json seeds op s books ∧ Balanced seeds books
  pages : ∀ x ∈ s.extratos, ∀ page, x.response.bind pageOf = some (some page) →
    AddsUp seeds x.accountId page

section Steps

variable {json : TransactionJson} {seeds : Int32 → Option Transaction} {op : Party → Request}
  {s s' : State}

/-- **One step of the service.** -/
theorem sound_step (hopening : ∀ id, ∀ t ∈ seeds id, line t = opening)
    (hI : Sound json seeds op s) {a : Action} (hC : Orderly json s a)
    (h : ServiceRun.step json s a = some s') : Sound json seeds op s' := by
  obtain ⟨books, hkeeps, hbalanced⟩ := hI.books
  obtain ⟨books', hkeeps', hcommits⟩ := keeps_step hopening hkeeps hC h
  refine ⟨⟨books', hkeeps', ?_⟩, ?_⟩
  · cases hcommits with
    | silent _ => exact hbalanced
    | commit p _ _ _ => exact balanced_serve hbalanced (op p)
  · cases a with
    | post a =>
      obtain ⟨posts, -, rfl⟩ := step_post h
      exact hI.pages
    | startUp i =>
      obtain ⟨rows, db, rest, -, -, rfl⟩ := step_startUp h
      exact hI.pages
    | extrato k now =>
      obtain ⟨x, hx, -, rfl⟩ := step_extrato h
      intro y hy page hpage
      rcases List.mem_or_eq_of_mem_set hy with hold | rfl
      · exact hI.pages y hold page hpage
      · -- the statement just taken is a page of the books
        rw [Option.bind_some, hkeeps.page hopening (hC x hx) x.host now, Option.some.injEq] at hpage
        exact addsUp_statement hbalanced hpage

end Steps

/-- **A page adds up.**  In a run of POST calls, statements and start-ups as in
    `Passbook.service_linearizes`, whatever the interleaving: a statement that shows fewer than ten
    lines shows the limit of the seed of its account, and as balance that of the seed and the signed
    amounts of the lines, in 32 bits. -/
theorem pages_add_up (json : TransactionJson) (seeds : Int32 → Option Transaction)
    (s s' : State)
    (hseeds : ∀ id, (s.posts.redis (getBankStatementKey id)).entries
      = ((seeds id).map (entryOf json)).toList)
    (hrows : ∀ id t, seeds id = some t →
      ∃ row, seed? row = some t ∧ row.accountId = id ∧ (id = 0 → row.limite ≠ 0))
    (hstartUps : ∀ rows ∈ s.startUps, ∀ row ∈ rows, ∀ t, seed? row = some t →
      seeds row.accountId = some t)
    (hfresh : RequestRun.Fresh s.posts) (hunanswered : ∀ x ∈ s.extratos, x.response = none)
    (actions : List Action)
    (horderly : Transition.AllSteps (ServiceRun.step json) (Orderly json) s actions)
    (hrun : Transition.run (ServiceRun.step json) s actions = some s') :
    ∀ x ∈ s'.extratos, ∀ statement, x.response = some (.ok (.ok statement)) →
      statement.ultimasTransacoes.length < 10 → ∃ seed, seeds x.accountId = some seed ∧
        statement.saldo.limite = seed.limite ∧ statement.saldo.total.toInt
          = wrap32 (seed.saldo.toInt
            + ((statement.ultimasTransacoes.map lineOf).map amount).sum) := by
  obtain ⟨hids, hopening⟩ := opened_by_rows hrows
  have hstart : Sound json seeds (asked s) s := by
    refine ⟨⟨_, keeps_of_seeds hseeds hids hstartUps hfresh hunanswered, balanced_opened seeds⟩, ?_⟩
    intro x hx page hpage
    rw [hunanswered x hx] at hpage
    cases hpage
  have hend : Sound json seeds (asked s) s' :=
    Transition.run_invariant_of (ServiceRun.step json)
      (fun _ _ _ hI hC h => sound_step hopening hI hC h) actions s s' hstart horderly hrun
  intro x hx statement hstatement hshort
  have hlength : ((statement.ultimasTransacoes.map lineOf).take 10).length < 10 := by
    rw [List.length_take, List.length_map]
    omega
  obtain ⟨seed, hseed, hlimite, hsaldo⟩ := hend.pages x hx _ (by rw [hstatement]; rfl) hlength
  rw [List.take_of_length_le (by rw [List.length_map]; omega)] at hsaldo
  exact ⟨seed, hseed, Int32.toInt_inj.mp hlimite, hsaldo⟩

/-- The second statement of the morning shows three lines. -/
theorem pages_add_up_morning : ∃ s' x statement,
    Transition.run (ServiceRun.step systemTextJson) morning opened = some s' ∧ x ∈ s'.extratos ∧
      x.response = some (.ok (.ok statement)) ∧ statement.ultimasTransacoes.length = 3 ∧
      ∃ seed, Bank.oneSeed x.accountId = some seed ∧
        statement.saldo.limite = seed.limite ∧ statement.saldo.total.toInt
          = wrap32 (seed.saldo.toInt
            + ((statement.ultimasTransacoes.map lineOf).map amount).sum) := by
  have hshown : (((Transition.run (ServiceRun.step systemTextJson) morning opened).bind fun s' =>
      s'.extratos[1]?.bind Extrato.response).bind pageOf).any (fun page =>
        (page.map fun p => p.2.2.length) = some 3) = true := by
    decide +kernel
  obtain ⟨page, hpage, hlength⟩ := (Option.any_eq_true _ _).mp hshown
  obtain ⟨response, hresponse, hof⟩ := Option.bind_eq_some_iff.mp hpage
  obtain ⟨s', hrun, hbind⟩ := Option.bind_eq_some_iff.mp hresponse
  obtain ⟨x, hx, hanswered⟩ := Option.bind_eq_some_iff.mp hbind
  have hmem := List.mem_of_getElem? hx
  rcases response with fault | statement | _ | _
  · cases hof
  · cases hof
    have htaken : ((statement.ultimasTransacoes.map lineOf).take 10).length = 3 :=
      Option.some.inj (of_decide_eq_true hlength)
    rw [List.length_take, List.length_map] at htaken
    have hthree : statement.ultimasTransacoes.length = 3 := by omega
    exact ⟨s', x, statement, hrun, hmem, hanswered, hthree,
      pages_add_up systemTextJson Bank.oneSeed morning s' Bank.oneSeed_entries oneSeed_rows
        morning_startUps (fun c hc => by rcases List.mem_pair.mp hc with rfl | rfl <;> rfl)
        (fun y hy => by rcases List.mem_pair.mp hy with rfl | rfl <;> rfl) opened
        (by decide +kernel) hrun x hmem statement hanswered (by omega)⟩
  · cases hof
    cases of_decide_eq_true hlength
  · cases hof

end Pages

end Rinha
