import ContextFree.Analysis.Nullable

/-!
# Left recursion

A nonterminal calls another on its left if the other is the first symbol of one of its
alternatives, or stands there after nullable nonterminals only. A nonterminal that reaches itself
along one or more left calls can call itself without consuming input, and top-down recognition
would never come back from it.
-/

namespace ContextFree.Analysis

/-- The nonterminals that an alternative may call before it consumes any input. -/
def alternativeLeftCalls (known : Array Bool) : Alternative Nat → List Nat
  | [] => []
  | .terminal _ :: _ => []
  | .nonterminal id :: rest =>
    id :: if known.getD id false then alternativeLeftCalls known rest else []

/-- The nonterminals that each nonterminal may call before it consumes any input. -/
def leftCalls (grammar : Grammar) : Array (List Nat) :=
  let known := nullable grammar
  grammar.numbering.alternatives.map fun each => each.flatMap (alternativeLeftCalls known)

/-- Whether one of the nonterminals on the stack is `target` or reaches it along left calls
through nonterminals not seen before; `limit` bounds how many are taken off the stack. -/
def reaches (calls : Array (List Nat)) (target : Nat) :
    (limit : Nat) → (stack : List Nat) → (seen : Array Bool) → Bool
  | 0, _, _ => false
  | _, [], _ => false
  | limit + 1, id :: stack, seen =>
    if id = target then true
    else if seen.getD id false then reaches calls target limit stack seen
    else reaches calls target limit (calls.getD id [] ++ stack) (seen.setIfInBounds id true)

/-- A nonterminal's calls are stacked once for each nonterminal, and once more for the target. -/
def reachLimit (calls : Array (List Nat)) : Nat :=
  2 * calls.toList.flatten.length + 1

/-- Whether a nonterminal reaches itself along left calls. -/
def isLeftRecursive (calls : Array (List Nat)) (id : Nat) : Bool :=
  reaches calls id (reachLimit calls) (calls.getD id []) (Array.replicate calls.size false)

/-- The first nonterminal in definition order that reaches itself along left calls. -/
def leftRecursive? (grammar : Grammar) : Option String :=
  let calls := leftCalls grammar
  ((List.range calls.size).find? (isLeftRecursive calls)).map grammar.nameOf

end ContextFree.Analysis
