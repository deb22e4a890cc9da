import ContextFree.Proofs.BinarySearch
import ContextFree.Proofs.Descent.Agreement
import Mathlib.Logic.Function.Iterate

/-!
# Question after question

A memo is kept from one question to the next. `Inquiry.Steps` says what can become of it: while
no call waits, any question may be asked; while calls wait, rounds go on, without a limit on them.
`Inquiry.Reached` is whatever comes of that, in any number of steps, from a memo without answers.

Two facts about one step carry the rest. It keeps all answers (`Steps.kept`), and it keeps them
right and each waiting call on the way to those above it (`Steps.consistent`). So without left
recursion

- the rounds of a question come to an end, and at no time does a call wait twice
  (`Inquiry.settles_without_repetition`);
- every answer is at all times right and in ascending order, so it may be searched by halves, it is
  never replaced, and who asks a question is given the answer to it (`Inquiry.Reached.reliable`).
-/

namespace ContextFree

variable {τ : Type} [Token τ] {grammar : Grammar} {input : Array τ}

namespace Inquiry

/-- What can become of an inquiry: with no call waiting a question is asked, about any nonterminal
and from any position of the input; otherwise there is one round more. -/
inductive Steps (grammar : Grammar) (input : Array τ) : Inquiry → Inquiry → Prop where
  | ask {memo : Memo} {question : Call} : question.Within grammar input.size →
      Steps grammar input ⟨[], memo⟩ ⟨[question], memo⟩
  | round {inquiry : Inquiry} : inquiry.pending ≠ [] →
      Steps grammar input inquiry (inquiry.advance grammar input)

/-- Any number of steps. -/
def Leads (grammar : Grammar) (input : Array τ) : Inquiry → Inquiry → Prop :=
  Relation.ReflTransGen (Steps grammar input)

/-- What can come of a memo without answers. -/
def Reached (grammar : Grammar) (input : Array τ) : Inquiry → Prop :=
  Leads grammar input ⟨[], ∅⟩

variable {inquiry later : Inquiry} {memo : Memo} {question call : Call} {ends : Positions}

/-! ## One step -/

/-- A round with no call waiting does nothing. -/
theorem advance_of_pending_eq_nil (h : inquiry.pending = []) :
    inquiry.advance grammar input = inquiry := by
  obtain ⟨pending, memo⟩ := inquiry
  obtain rfl : pending = [] := h
  rfl

/-- A round keeps every answer: it answers a call only if there was no answer to it. -/
theorem getElem?_advance (h : inquiry.memo[call]? = some ends) :
    (inquiry.advance grammar input).memo[call]? = some ends := by
  obtain ⟨pending, memo⟩ := inquiry
  cases pending with
  | nil => exact h
  | cons top waiting =>
    simp only [advance]
    split
    · exact h
    · next hnew =>
      split
      · rw [Std.HashMap.contains_iff_mem] at hnew
        exact Memo.getElem?_insert_of_notMem hnew h
      · exact h

/-- A round keeps an inquiry consistent. -/
theorem Consistent.advance (h : inquiry.Consistent grammar input) :
    (inquiry.advance grammar input).Consistent grammar input := by
  obtain ⟨pending, memo⟩ := inquiry
  cases pending with
  | nil => exact h
  | cons top waiting =>
    simp only [Inquiry.advance]
    split
    · -- the call on top has been answered before and waits no longer
      exact { h with
        pairwise := h.pairwise.of_cons
        within_of_pending := fun hother => h.within_of_pending (List.mem_cons_of_mem _ hother) }
    · split
      · next hends => exact h.answer hends
      · next hmissing => exact h.stack hmissing

theorem Steps.kept (h : Steps grammar input inquiry later)
    (hmemo : inquiry.memo[call]? = some ends) : later.memo[call]? = some ends := by
  cases h with
  | ask => exact hmemo
  | round => exact getElem?_advance hmemo

theorem Steps.consistent (h : Steps grammar input inquiry later)
    (hinquiry : inquiry.Consistent grammar input) : later.Consistent grammar input := by
  cases h with
  | ask hwithin =>
    constructor
    case memo => exact hinquiry.memo
    case pairwise => exact List.pairwise_singleton _ _
    case within_of_pending =>
      intro call hcall
      obtain rfl := List.mem_singleton.mp hcall
      exact hwithin
  | round => exact hinquiry.advance

/-! ## Any number of steps -/

theorem Leads.kept (h : Leads grammar input inquiry later)
    (hmemo : inquiry.memo[call]? = some ends) : later.memo[call]? = some ends := by
  induction h with
  | refl => exact hmemo
  | tail _ hstep ih => exact hstep.kept ih

theorem Leads.consistent (h : Leads grammar input inquiry later)
    (hinquiry : inquiry.Consistent grammar input) : later.Consistent grammar input := by
  induction h with
  | refl => exact hinquiry
  | tail _ hstep ih => exact hstep.consistent ih

theorem Reached.consistent (h : Reached grammar input inquiry) :
    inquiry.Consistent grammar input :=
  Leads.consistent h
    { memo := Memo.consistent_empty
      pairwise := .nil
      within_of_pending := fun hcall => absurd hcall List.not_mem_nil }

/-- Rounds are steps, as far as calls wait. -/
theorem leads_iterate (rounds : Nat) (inquiry : Inquiry) :
    Leads grammar input inquiry ((advance grammar input)^[rounds] inquiry) := by
  induction rounds generalizing inquiry with
  | zero => exact .refl
  | succ rounds ih =>
    by_cases hpending : inquiry.pending = []
    · -- no step is left, but the rounds that are do nothing
      rw [Function.iterate_succ_apply, advance_of_pending_eq_nil hpending]
      exact ih inquiry
    · exact .head (.round hpending) (ih _)

/-- The limit of `settle` only ends the rounds: up to it they are those of a loop. -/
theorem settle_eq_iterate (limit : Nat) (inquiry : Inquiry) :
    inquiry.settle grammar input limit = (advance grammar input)^[limit] inquiry := by
  induction limit generalizing inquiry with
  | zero => rfl
  | succ limit ih =>
    unfold settle
    split
    · next hempty =>
      have hfixed : inquiry.advance grammar input = inquiry :=
        advance_of_pending_eq_nil (List.isEmpty_iff.mp hempty)
      exact (Function.iterate_fixed hfixed _).symm
    · exact ih _

/-- The calls that wait are distinct calls within the input, so there are only so many of them. -/
theorem Consistent.length_pending_le (h : inquiry.Consistent grammar input)
    (hno : Analysis.leftRecursive? grammar = none) :
    inquiry.pending.length ≤ grammar.nonterminalCount * (input.size + 1) :=
  length_le_of_within (h.nodup_pending hno) fun _ hcall => h.within_of_pending hcall

/-! ## Every question is answered -/

/-- The rounds of a question lead to where no call waits, and what is given is the entry that is
there for the question. -/
theorem Reached.exists_ends (hno : Analysis.leftRecursive? grammar = none)
    (h : Reached grammar input ⟨[], memo⟩) (hquestion : question.Within grammar input.size) :
    ∃ ends last, memo.ends grammar input question = (ends, last) ∧
      (advance grammar input)^[limit grammar input.size] ⟨[question], memo⟩ = ⟨[], last⟩ ∧
      last[question]? = some ends := by
  obtain ⟨last, hsettle, hlast⟩ := settle_ask question hno h.consistent.memo hquestion
  have hmem : question ∈ last := hlast.asked.resolve_left List.not_mem_nil
  obtain ⟨ends, hends⟩ := Memo.mem_iff_exists.mp hmem
  refine ⟨ends, last, ?_, ?_, hends⟩
  · simp only [Memo.ends, hsettle, hends, Option.getD_some]
  · rw [← settle_eq_iterate, hsettle]

/-- After any number of rounds of a question there is a state that can come of a memo. -/
theorem Reached.iterate (h : Reached grammar input ⟨[], memo⟩)
    (hquestion : question.Within grammar input.size) (rounds : Nat) :
    Reached grammar input ((advance grammar input)^[rounds] ⟨[question], memo⟩) :=
  (h.tail (.ask hquestion)).trans (leads_iterate rounds _)

/-- A memo may be asked again and again. -/
theorem Reached.ask (hno : Analysis.leftRecursive? grammar = none)
    (h : Reached grammar input ⟨[], memo⟩) (hquestion : question.Within grammar input.size) :
    Reached grammar input ⟨[], (memo.ends grammar input question).2⟩ := by
  obtain ⟨ends, last, hends, hlast, -⟩ := h.exists_ends hno hquestion
  rw [hends, ← hlast]
  exact h.iterate hquestion _

/-- Without left recursion a question comes to an end whatever was asked before, and never waits
for itself: the rounds, which have no limit here, lead to where no call waits, and at no time does
a call wait twice. So no more calls wait than there are calls within the input. -/
theorem settles_without_repetition (hno : Analysis.leftRecursive? grammar = none)
    (hmemo : Reached grammar input ⟨[], memo⟩) (hquestion : question.Within grammar input.size) :
    (∃ rounds ≤ limit grammar input.size, (advance grammar input)^[rounds] ⟨[question], memo⟩ =
        ⟨[], (memo.ends grammar input question).2⟩) ∧
      ∀ rounds, ((advance grammar input)^[rounds] ⟨[question], memo⟩).pending.Nodup ∧
        ((advance grammar input)^[rounds] ⟨[question], memo⟩).pending.length ≤
          grammar.nonterminalCount * (input.size + 1) := by
  constructor
  · obtain ⟨ends, last, hends, hlast, -⟩ := hmemo.exists_ends hno hquestion
    exact ⟨limit grammar input.size, Nat.le_refl _, by rw [hends, hlast]⟩
  · intro rounds
    have hconsistent := (hmemo.iterate hquestion rounds).consistent
    exact ⟨hconsistent.nodup_pending hno, hconsistent.length_pending_le hno⟩

/-- With a part of a pair of brackets asked about before, the question about the pair comes to its
end in so many rounds. -/
theorem brackets_settle : ∃ memo,
    memo = (Memo.ends TopDown.brackets (characters "()") ∅ ⟨0, 1⟩).2 ∧
    Reached TopDown.brackets (characters "()") ⟨[], memo⟩ ∧
    (⟨0, 0⟩ : Call).Within TopDown.brackets (characters "()").size ∧
    ∃ rounds ≤ 7, (advance TopDown.brackets (characters "()"))^[rounds] ⟨[⟨0, 0⟩], memo⟩ =
      ⟨[], (memo.ends TopDown.brackets (characters "()") ⟨0, 0⟩).2⟩ := by
  have hno : Analysis.leftRecursive? TopDown.brackets = none := by decide +kernel
  have hlt : 0 < TopDown.brackets.nonterminalCount := by decide
  have hwithin : ∀ start ≤ 2, (⟨0, start⟩ : Call).Within TopDown.brackets 2 :=
    fun _ hstart => ⟨hlt, hstart⟩
  have hmemo : Reached TopDown.brackets (characters "()")
      ⟨[], (Memo.ends TopDown.brackets (characters "()") ∅ ⟨0, 1⟩).2⟩ :=
    Reached.ask hno .refl (hwithin 1 (by decide))
  exact ⟨_, rfl, hmemo, hwithin 0 (by decide),
    (settles_without_repetition hno hmemo (hwithin 0 (by decide))).1⟩

/-! ## Every answer is right -/

/-- What is certain of the answers in an inquiry. -/
structure Reliable (grammar : Grammar) (input : Array τ) (inquiry : Inquiry) : Prop where
  /-- Each answer is in strictly ascending order. -/
  ascending : ∀ {call : Call} {ends : Positions}, inquiry.memo[call]? = some ends →
    ends.toList.Pairwise (· < ·)
  /-- Each answer has exactly the positions up to which its nonterminal derives the input. -/
  exact : ∀ {call : Call} {ends : Positions}, inquiry.memo[call]? = some ends → ∀ stop,
    stop ∈ ends.toList ↔ Derives grammar input call.nonterminal call.start stop
  /-- No answer is ever lost or replaced. -/
  kept : ∀ {later : Inquiry}, Leads grammar input inquiry later →
    ∀ {call : Call} {ends : Positions}, inquiry.memo[call]? = some ends →
      later.memo[call]? = some ends
  /-- With no call waiting a question may be asked. What is given then is the answer that is there
  for it at the end, and binary search in that finds just the right positions. -/
  answers : inquiry.pending = [] → ∀ {question : Call}, question.Within grammar input.size →
    ∃ ends last, inquiry.memo.ends grammar input question = (ends, last) ∧
      Leads grammar input ⟨[question], inquiry.memo⟩ ⟨[], last⟩ ∧ last[question]? = some ends ∧
      ∀ stop, (ends.toList.toArray.binSearch stop (· < ·)).isSome = true ↔
        Derives grammar input question.nonterminal question.start stop

/-- Without left recursion what is in a memo is reliable, at all times and whatever was asked. -/
theorem Reached.reliable (hno : Analysis.leftRecursive? grammar = none)
    (h : Reached grammar input inquiry) : inquiry.Reliable grammar input where
  ascending {_ ends} _ := ends.ascending
  exact hends stop := h.consistent.memo.exact hends stop
  kept hleads _ _ hends := hleads.kept hends
  answers hpending question hquestion := by
    obtain ⟨pending, memo⟩ := inquiry
    obtain rfl : pending = [] := hpending
    obtain ⟨ends, last, hends, hlast, hanswer⟩ := h.exists_ends hno hquestion
    have hreached : Reached grammar input ⟨[], last⟩ := hlast ▸ h.iterate hquestion _
    refine ⟨ends, last, hends, hlast ▸ leads_iterate _ _, hanswer, fun stop => ?_⟩
    rw [binSearch_isSome_iff ends.ascending]
    exact hreached.consistent.memo.exact hanswer stop

/-- Asked about a pair of brackets, a memo gives an answer in which the end of the pair is found. -/
theorem brackets_reliable : Reached TopDown.brackets (characters "()") ⟨[], ∅⟩ ∧
    ∃ ends last, (∅ : Memo).ends TopDown.brackets (characters "()") ⟨0, 0⟩ = (ends, last) ∧
      (ends.toList.toArray.binSearch 2 (· < ·)).isSome = true := by
  have hno : Analysis.leftRecursive? TopDown.brackets = none := by decide +kernel
  have hwithin : (⟨0, 0⟩ : Call).Within TopDown.brackets (characters "()").size :=
    ⟨by decide, Nat.zero_le _⟩
  have hreached : Reached TopDown.brackets (characters "()") ⟨[], ∅⟩ := .refl
  obtain ⟨ends, last, hends, -, -, hsearch⟩ :=
    (Reached.reliable hno hreached).answers rfl hwithin
  exact ⟨hreached, ends, last, hends, (hsearch 2).mpr TopDown.derives_brackets⟩

end Inquiry

end ContextFree
