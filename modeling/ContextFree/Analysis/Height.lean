import ContextFree.Analysis.Settle
import ContextFree.Grammar.Basic

/-!
# How shallow a derivation can be

The height of a derivation tree counts its nonterminals from the root down: an alternative of
terminals only has height 1. The height of a nonterminal is that of its shallowest finite
derivation tree; a nonterminal without one is unproductive and has no height.

The table starts with no height known. A round lowers each height to the best that follows from
the heights known by then, so after as many rounds as there are nonterminals nothing changes.
-/

namespace ContextFree.Analysis

/-- The height that a symbol adds below its alternative, as far as is known. -/
def symbolHeight (heights : Array (Option Nat)) : Symbol Nat → Option Nat
  | .terminal _ => some 0
  | .nonterminal id => heights.getD id none

/-- The height of the tallest symbol of an alternative; one symbol without a height leaves the
alternative without one. -/
def tallest (heights : Array (Option Nat)) : Alternative Nat → Option Nat
  | [] => some 0
  | symbol :: rest => do
    let height ← symbolHeight heights symbol
    let others ← tallest heights rest
    return max height others

/-- The height of an alternative: one more than that of its tallest symbol. -/
def alternativeHeight (heights : Array (Option Nat)) (alternative : Alternative Nat) :
    Option Nat :=
  (tallest heights alternative).map (· + 1)

/-- The lowest height among the alternatives that have one. -/
def lowest (heights : Array (Option Nat)) (alternatives : Alternatives Nat) : Option Nat :=
  (alternatives.filterMap (alternativeHeight heights)).min?

/-- The heights after a look at one nonterminal. -/
def improveHeight (grammar : Grammar) (heights : Array (Option Nat)) (id : Nat) :
    Array (Option Nat) :=
  match lowest heights (grammar.alternatives id), heights.getD id none with
  | none, _ => heights
  | some found, none => heights.setIfInBounds id (some found)
  | some found, some known =>
    if found < known then heights.setIfInBounds id (some found) else heights

/-- The height of each nonterminal, by number. -/
def heights (grammar : Grammar) : Array (Option Nat) :=
  settle (sweep grammar.nonterminalCount (improveHeight grammar)) (grammar.nonterminalCount + 1)
    (Array.replicate grammar.nonterminalCount none)

end ContextFree.Analysis
