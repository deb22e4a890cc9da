import ContextFree.Grammar.Basic
import ContextFree.Token

/-!
# What a grammar derives

The meaning of a grammar, stated over positions of one input: `Spans` says that a sequence of
symbols matches the input between two positions, `Derives` that a nonterminal does. Both are
inductive, so every match has a finite derivation, and neither knows how a match might be found.

A sequence matches piece by piece: `spans_append_iff` cuts a match at any place in the sequence.
-/

namespace ContextFree

variable {τ : Type} [Token τ] (grammar : Grammar) (input : Array τ)

/-- A sequence of symbols matches the input from one position to another: a terminal matches one
token that spells it, a nonterminal whatever one of its alternatives matches. -/
inductive Spans : Alternative Nat → Nat → Nat → Prop where
  | nil {i : Nat} : Spans [] i i
  | terminal {text : String} {rest : Alternative Nat} {token : τ} {i j : Nat} :
      input[i]? = some token → Token.spells token text = true → Spans rest (i + 1) j →
      Spans (.terminal text :: rest) i j
  | nonterminal {id : Nat} {symbols rest : Alternative Nat} {i k j : Nat} :
      symbols ∈ grammar.alternatives id → Spans symbols i k → Spans rest k j →
      Spans (.nonterminal id :: rest) i j

/-- A nonterminal derives the input from one position to another. -/
def Derives (id i j : Nat) : Prop :=
  ∃ symbols ∈ grammar.alternatives id, Spans grammar input symbols i j

variable {grammar input}

/-- A match never ends before it starts. -/
theorem Spans.start_le {symbols : Alternative Nat} {i j : Nat}
    (h : Spans grammar input symbols i j) : i ≤ j := by
  induction h with
  | nil => exact Nat.le_refl _
  | terminal _ _ _ ih => omega
  | nonterminal _ _ _ ih ih' => omega

/-- Matches of two sequences that meet make a match of both. -/
theorem Spans.append {left right : Alternative Nat} {i k j : Nat}
    (h : Spans grammar input left i k) (h' : Spans grammar input right k j) :
    Spans grammar input (left ++ right) i j := by
  induction h with
  | nil => exact h'
  | terminal htoken hspells _ ih => exact .terminal htoken hspells (ih h')
  | nonterminal hmem hspans _ _ ih => exact .nonterminal hmem hspans (ih h')

/-- A match of two sequences in a row is a match of each, meeting somewhere. -/
theorem spans_append_iff {left right : Alternative Nat} {i j : Nat} :
    Spans grammar input (left ++ right) i j ↔
      ∃ k, Spans grammar input left i k ∧ Spans grammar input right k j := by
  constructor
  · intro h
    induction left generalizing i with
    | nil => exact ⟨i, .nil, h⟩
    | cons symbol left ih =>
      cases h with
      | terminal htoken hspells h =>
        obtain ⟨k, hl, hr⟩ := ih h
        exact ⟨k, .terminal htoken hspells hl, hr⟩
      | nonterminal hmem hspans h =>
        obtain ⟨k, hl, hr⟩ := ih h
        exact ⟨k, .nonterminal hmem hspans hl, hr⟩
  · intro h
    obtain ⟨k, hl, hr⟩ := h
    exact hl.append hr

/-- A match of a sequence is a match of its first symbol and then one of the rest. -/
theorem spans_cons_iff {symbol : Symbol Nat} {rest : Alternative Nat} {i j : Nat} :
    Spans grammar input (symbol :: rest) i j ↔
      ∃ k, Spans grammar input [symbol] i k ∧ Spans grammar input rest k j := by
  rw [← List.singleton_append, spans_append_iff]

/-- One nonterminal alone matches exactly what it derives. -/
theorem spans_nonterminal_iff {id i j : Nat} :
    Spans grammar input [.nonterminal id] i j ↔ Derives grammar input id i j := by
  constructor
  · intro h
    rcases h with _ | _ | ⟨hmem, hspans, ⟨⟩⟩
    exact ⟨_, hmem, hspans⟩
  · intro h
    obtain ⟨symbols, hmem, hspans⟩ := h
    exact .nonterminal hmem hspans .nil

end ContextFree
