import ContextFree.Derivation
import ContextFree.Engine.CallGraph
import ContextFree.Proofs.Grammar.Numbering
import Mathlib.Logic.Relation

/-!
# Which calls a derivation can need

A call is demanded if a left-to-right derivation from the start symbol can come to it: the start
symbol at the start of the input, and whatever a demanded call comes to after matching the symbols
in front. `Demanded` says so without any recognizer; a recognizer that makes exactly the demanded
calls makes no useless one and misses none.
-/

namespace ContextFree

variable {τ : Type} [Token τ] {grammar : Grammar} {input : Array τ}

/-- The calls that can be come to from the start symbol at the start of the input. -/
inductive Demanded (grammar : Grammar) (input : Array τ) (start : Nat) : Call → Prop where
  | root : Demanded grammar input start ⟨start, 0⟩
  | callee {call : Call} {before after : Alternative Nat} {id pos : Nat} :
      Demanded grammar input start call →
      before ++ .nonterminal id :: after ∈ grammar.alternatives call.nonterminal →
      Spans grammar input before call.start pos → Demanded grammar input start ⟨id, pos⟩

/-- A call makes another: it comes to the other's nonterminal after matching the symbols in
front. -/
def Calls (grammar : Grammar) (input : Array τ) (caller callee : Call) : Prop :=
  ∃ before after,
    before ++ .nonterminal callee.nonterminal :: after ∈ grammar.alternatives caller.nonterminal ∧
    Spans grammar input before caller.start callee.start

/-- A match that starts within the input ends within it. -/
theorem Spans.le_size {symbols : Alternative Nat} {i j : Nat}
    (h : Spans grammar input symbols i j) (hi : i ≤ input.size) : j ≤ input.size := by
  induction h with
  | nil => exact hi
  | terminal htoken _ _ ih =>
    have := (Array.getElem?_eq_some_iff.mp htoken).1
    exact ih (by omega)
  | nonterminal _ _ _ ih ih' => exact ih' (ih hi)

/-- One terminal alone matches one token that spells it. -/
theorem spans_terminal_iff {text : String} {i j : Nat} :
    Spans grammar input [.terminal text] i j ↔
      ∃ token, input[i]? = some token ∧ Token.spells token text = true ∧ j = i + 1 := by
  constructor
  · intro h
    rcases h with _ | ⟨htoken, hspells, ⟨⟩⟩
    exact ⟨_, htoken, hspells, rfl⟩
  · intro h
    obtain ⟨token, htoken, hspells, rfl⟩ := h
    exact .terminal htoken hspells .nil

variable {start : Nat} {call : Call}

/-- A demanded call starts within the input. -/
theorem Demanded.start_le (h : Demanded grammar input start call) : call.start ≤ input.size := by
  induction h with
  | root => exact Nat.zero_le _
  | callee _ _ hspans ih => exact hspans.le_size ih

/-- A demanded call is of a nonterminal. -/
theorem Demanded.nonterminal_lt (h : Demanded grammar input start call)
    (hstart : start < grammar.nonterminalCount) : call.nonterminal < grammar.nonterminalCount := by
  cases h with
  | root => exact hstart
  | callee _ hmem _ => exact Grammar.lt_of_nonterminal_mem hmem (by simp)

/-- The demanded calls are those that the root call comes to by one call making another. -/
theorem demanded_iff_reflTransGen : Demanded grammar input start call ↔
    Relation.ReflTransGen (Calls grammar input) ⟨start, 0⟩ call := by
  constructor
  · intro h
    induction h with
    | root => exact .refl
    | callee _ hmem hspans ih => exact ih.tail ⟨_, _, hmem, hspans⟩
  · intro h
    induction h with
    | refl => exact .root
    | tail _ hcalls ih =>
      obtain ⟨before, after, hmem, hspans⟩ := hcalls
      exact .callee ih hmem hspans

end ContextFree
