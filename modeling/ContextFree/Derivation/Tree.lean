import ContextFree.Grammar.Basic

/-!
# Derivation trees

A derivation told as data. A `Tree` is rooted at a nonterminal and names the alternative taken there;
below it stands a `Forest`, which has one tree for each nonterminal of that alternative. Both are
built of alternatives of the grammar only, so there is no tree that is not a derivation, and both are
finite.

A tree spells out its yield, whatever input there may be. Its height counts nonterminals from the
root down: a tree of height 1 has terminals only below its root.
-/

namespace ContextFree

/-- The derivations of a sequence of symbols, side by side. -/
inductive Forest (grammar : Grammar) : Alternative Nat → Type where
  | nil : Forest grammar []
  | terminal (text : String) {rest : Alternative Nat} :
      Forest grammar rest → Forest grammar (.terminal text :: rest)
  | nonterminal {id : Nat} {symbols rest : Alternative Nat} :
      symbols ∈ grammar.alternatives id → Forest grammar symbols → Forest grammar rest →
      Forest grammar (.nonterminal id :: rest)

/-- A derivation from a nonterminal: the alternative taken, and a derivation of its symbols. -/
structure Tree (grammar : Grammar) (id : Nat) where
  symbols : Alternative Nat
  mem_alternatives : symbols ∈ grammar.alternatives id
  children : Forest grammar symbols

variable {grammar : Grammar} {id : Nat} {symbols : Alternative Nat}

namespace Forest

/-- The terminals from left to right. -/
def yield : {symbols : Alternative Nat} → Forest grammar symbols → List String
  | _, nil => []
  | _, terminal text rest => text :: rest.yield
  | _, nonterminal _ children rest => children.yield ++ rest.yield

/-- How many nonterminals there are, one below the other, at the most. -/
def height : {symbols : Alternative Nat} → Forest grammar symbols → Nat
  | _, nil => 0
  | _, terminal _ rest => rest.height
  | _, nonterminal _ children rest => max (children.height + 1) rest.height

end Forest

namespace Tree

/-- The terminals from left to right. -/
def yield (tree : Tree grammar id) : List String :=
  tree.children.yield

/-- How many nonterminals there are, one below the other, at the most. -/
def height (tree : Tree grammar id) : Nat :=
  tree.children.height + 1

end Tree

/-- An alternative of a nonterminal is shallowest if some tree that takes it at its root is no taller
than any tree of the nonterminal. -/
def IsShallowest (grammar : Grammar) (id : Nat) (symbols : Alternative Nat) : Prop :=
  ∃ children : Forest grammar symbols, ∀ tree : Tree grammar id, children.height + 1 ≤ tree.height

/-- From depth `limit` on every nonterminal takes a shallowest alternative; the roots of the forest
are at depth `depth`. -/
def Forest.ClosedFrom (limit : Nat) :
    (depth : Nat) → {symbols : Alternative Nat} → Forest grammar symbols → Prop
  | _, _, nil => True
  | depth, _, terminal _ rest => rest.ClosedFrom limit depth
  | depth, _, @nonterminal _ id symbols _ _ children rest =>
    (limit ≤ depth → IsShallowest grammar id symbols) ∧ children.ClosedFrom limit (depth + 1) ∧
      rest.ClosedFrom limit depth

/-- From depth `limit` on every nonterminal takes a shallowest alternative; the root is at depth
`depth`. -/
def Tree.ClosedFrom (limit depth : Nat) (tree : Tree grammar id) : Prop :=
  (limit ≤ depth → IsShallowest grammar id tree.symbols) ∧
    tree.children.ClosedFrom limit (depth + 1)

end ContextFree
