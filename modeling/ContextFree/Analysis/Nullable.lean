import ContextFree.Analysis.Settle
import ContextFree.Grammar.Basic

/-!
# Which nonterminals derive the empty word

A nonterminal is nullable if one of its alternatives consists of nullable nonterminals only. The
table starts with no nonterminal known to be nullable and only ever gains; with as many rounds as
there are nonterminals, and one that changes nothing, it is complete.
-/

namespace ContextFree.Analysis

/-- Whether a symbol derives the empty word, as far as is known. -/
def symbolNullable (known : Array Bool) : Symbol Nat → Bool
  | .terminal _ => false
  | .nonterminal id => known.getD id false

/-- Whether every symbol of an alternative derives the empty word, as far as is known. -/
def alternativeNullable (known : Array Bool) (alternative : Alternative Nat) : Bool :=
  alternative.all (symbolNullable known)

/-- What is known after a look at one nonterminal. -/
def improveNullable (grammar : Grammar) (known : Array Bool) (id : Nat) : Array Bool :=
  if (grammar.alternatives id).any (alternativeNullable known) then known.setIfInBounds id true
  else known

/-- Which nonterminals derive the empty word, by number. -/
def nullable (grammar : Grammar) : Array Bool :=
  settle (sweep grammar.nonterminalCount (improveNullable grammar)) (grammar.nonterminalCount + 1)
    (Array.replicate grammar.nonterminalCount false)

end ContextFree.Analysis
