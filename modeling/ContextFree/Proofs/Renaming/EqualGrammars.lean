import ContextFree.Proofs.Descent.Agreement
import ContextFree.Proofs.Renaming.Engine
import ContextFree.Proofs.Renaming.Sentence

/-!
# Equal grammars behave alike

Grammars that are `==` have the same rules, in orders that may differ. Nothing that can be asked of a
grammar tells them apart (`Grammar.behaveAlike_of_beq`), though every number that recognition and
generation work with may differ.

Runs of recognition are related step by step. Of top-down recognition it is enough to know what it
decides: a match of one grammar is a match of the other under the new numbers (`Renaming.spans`), and
so is a way from a nonterminal back to itself. There is a renaming in either direction, so each of
these facts is stated in one direction only.
-/

namespace ContextFree

namespace Renaming

variable {a b : Grammar} (numbers : Renaming a b)

/-! ## Matches -/

theorem mem_alternatives {id : Nat} {symbols : Alternative Nat} (h : symbols ∈ a.alternatives id) :
    Alternative.rename numbers.nonterminal symbols ∈ b.alternatives (numbers.nonterminal id) := by
  rw [numbers.alternatives]
  exact List.mem_map_of_mem h

section Match

variable {τ : Type} [Token τ] {input : Array τ} {symbols : Alternative Nat} {id i j : Nat}

/-- Whatever matches matches under the new numbers. -/
theorem spans (h : Spans a input symbols i j) :
    Spans b input (Alternative.rename numbers.nonterminal symbols) i j := by
  induction h with
  | nil => exact .nil
  | terminal htoken hspells _ ih => exact .terminal htoken hspells ih
  | nonterminal hmem _ _ ih ih' => exact .nonterminal (numbers.mem_alternatives hmem) ih ih'

theorem derives (h : Derives a input id i j) : Derives b input (numbers.nonterminal id) i j := by
  obtain ⟨symbols, hmem, hspans⟩ := h
  exact ⟨_, numbers.mem_alternatives hmem, numbers.spans hspans⟩

end Match

/-! ## Left recursion -/

theorem callsFirst {id callee : Nat} (h : a.CallsFirst id callee) :
    b.CallsFirst (numbers.nonterminal id) (numbers.nonterminal callee) := by
  obtain ⟨before, after, hmem, hspans⟩ := h
  refine ⟨_, Alternative.rename numbers.nonterminal after, ?_, numbers.spans hspans⟩
  have hmem' := numbers.mem_alternatives hmem
  rwa [Alternative.rename, List.map_append] at hmem'

theorem leftRecursive {id : Nat} (h : a.LeftRecursive id) :
    b.LeftRecursive (numbers.nonterminal id) :=
  h.lift numbers.nonterminal fun _ _ hcalls => numbers.callsFirst hcalls

include numbers in
/-- A grammar is not left-recursive if the other is not. -/
theorem leftRecursive?_eq_none (h : Analysis.leftRecursive? b = none) :
    Analysis.leftRecursive? a = none := by
  rw [Analysis.leftRecursive?_eq_none_iff] at h ⊢
  exact fun id hid => h _ (numbers.leftRecursive hid)

/-! ## Top-down recognition -/

include numbers in
/-- What one grammar accepts the other accepts. -/
theorem accepts {τ : Type} [Token τ] {left right : TopDown} {input : Array τ} {start : String}
    (hleft : TopDown.make a start = .ok left) (hright : TopDown.make b start = .ok right)
    (haccepts : left.accepts input = true) : right.accepts input = true := by
  obtain ⟨rfl, hid⟩ := TopDown.make_eq_ok_iff.mp hleft
  obtain ⟨rfl, hid'⟩ := TopDown.make_eq_ok_iff.mp hright
  rw [numbers.idOf?, hid, Option.map_some, Option.some.injEq] at hid'
  rw [TopDown.accepts_eq_true_iff] at haccepts ⊢
  rw [← hid']
  exact numbers.derives haccepts

include numbers in
/-- There is top-down recognition with one grammar if there is with the other. -/
theorem exists_topDown {start : String} {right : TopDown}
    (hright : TopDown.make b start = .ok right) : ∃ left, TopDown.make a start = .ok left := by
  obtain ⟨rfl, hid'⟩ := TopDown.make_eq_ok_iff.mp hright
  rw [numbers.idOf?, Option.map_eq_some_iff] at hid'
  obtain ⟨id, hid, -⟩ := hid'
  have hnone := numbers.leftRecursive?_eq_none right.no_left_recursion
  exact ⟨⟨a, id, a.idOf?_lt hid, hnone⟩, TopDown.make_eq_ok_iff.mpr ⟨rfl, hid⟩⟩

end Renaming

/-! ## Equal grammars -/

/-- Whatever two grammars are asked, they answer alike. -/
structure BehaveAlike (a b : Grammar) : Prop where
  /-- Recognition can start with both and comes to the same reports, or is refused by both for the
  same reason. -/
  recognizer : ∀ start config,
    (∃ left right, Recognizer.make a start config = .ok left ∧
      Recognizer.make b start config = .ok right ∧
      ∀ {τ : Type} [Token τ] (input : Array τ), ∃ report,
        left.run input = .ok report ∧ right.run input = .ok report) ∨
    ∃ error, Recognizer.make a start config = .error error ∧
      Recognizer.make b start config = .error error
  /-- Top-down recognition can start with both and accepts the same input, or is refused by both. -/
  topDown : ∀ start,
    (∃ left right, TopDown.make a start = .ok left ∧ TopDown.make b start = .ok right ∧
      ∀ {τ : Type} [Token τ] (input : Array τ), left.accepts input = right.accepts input) ∨
    ∃ error error', TopDown.make a start = .error error ∧ TopDown.make b start = .error error'
  /-- From the same source come the same sentences, or none for the same reason, and the source is
  left in the same state: as much has been drawn from it. -/
  generator : ∀ {σ : Type} (maxDepth : Nat) (start : String) (choose : Chooser σ) (source : σ),
    Generator.generate ⟨a, maxDepth, _, rfl⟩ start choose source =
      Generator.generate ⟨b, maxDepth, _, rfl⟩ start choose source

namespace Grammar

variable {a b : Grammar}

/-- Grammars that are `==` behave alike. -/
theorem behaveAlike_of_beq (h : (a == b) = true) : BehaveAlike a b := by
  obtain ⟨-, hrules⟩ := beq_iff.mp h
  let numbers : Renaming a b := .ofPerm hrules
  let back : Renaming b a := .ofPerm hrules.symm
  constructor
  case recognizer =>
    intro start config
    cases hid : a.idOf? start with
    | none =>
      right
      have hid' : b.idOf? start = none := by rw [numbers.idOf?, hid, Option.map_none]
      exact ⟨_, Recognizer.make_of_idOf?_eq_none hid, Recognizer.make_of_idOf?_eq_none hid'⟩
    | some id =>
      left
      have hid' : b.idOf? start = some (numbers.nonterminal id) := by
        rw [numbers.idOf?, hid, Option.map_some]
      refine ⟨⟨a, id, a.idOf?_lt hid, config⟩, ⟨b, _, b.idOf?_lt hid', config⟩,
        Recognizer.make_of_idOf? hid, Recognizer.make_of_idOf? hid', ?_⟩
      intro τ _ input
      exact numbers.exists_run input _ _ config
  case topDown =>
    intro start
    cases hleft : TopDown.make a start with
    | ok left =>
      left
      obtain ⟨right, hright⟩ := back.exists_topDown hleft
      refine ⟨left, right, rfl, hright, ?_⟩
      intro τ _ input
      rw [Bool.eq_iff_iff]
      exact ⟨numbers.accepts hleft hright, back.accepts hright hleft⟩
    | error error =>
      right
      cases hright : TopDown.make b start with
      | ok right =>
        obtain ⟨left, hleft'⟩ := numbers.exists_topDown hright
        cases hleft.symm.trans hleft'
      | error error' => exact ⟨error, error', rfl, rfl⟩
  case generator =>
    intro σ maxDepth start choose source
    exact (numbers.generate_eq start choose source).symm

/-- Two rules, each of which calls the other. -/
def callerFirst : Grammar where
  startSymbol := "S"
  rules := ⟨[("S", [[.terminal "a", .nonterminal "T"], []]),
    ("T", [[.nonterminal "S", .terminal "b"]])], by decide⟩
  closed := by decide
  start_defined := by decide

/-- The same rules the other way round. -/
def calleeFirst : Grammar where
  startSymbol := "S"
  rules := ⟨[("T", [[.nonterminal "S", .terminal "b"]]),
    ("S", [[.terminal "a", .nonterminal "T"], []])], by decide⟩
  closed := by decide
  start_defined := by decide

/-- The two have different numbers and behave alike. -/
theorem reordered_behave_alike : (callerFirst == calleeFirst) = true ∧
    callerFirst.idOf? "S" ≠ calleeFirst.idOf? "S" ∧ BehaveAlike callerFirst calleeFirst :=
  ⟨by decide, by decide, behaveAlike_of_beq (by decide)⟩

end Grammar

end ContextFree
