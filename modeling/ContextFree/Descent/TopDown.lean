import ContextFree.Analysis.LeftRecursion
import ContextFree.Descent.Memo
import ContextFree.Log

/-!
# Top-down recognition

A second way to decide whether an input is in the language, for grammars without left recursion:
work out where the start symbol can end from the start of the input, and see whether the end of
the input is among those positions. `TopDown.make` refuses a left-recursive grammar, so whoever
holds a `TopDown` may ask it anything.
-/

namespace ContextFree

/-- Why there is no top-down recognition for a grammar and start symbol. -/
inductive TopDownError where
  /-- The grammar has a nonterminal that can call itself before it consumes input. -/
  | leftRecursive (name : String)
  | invalidGrammar (cause : GrammarError)
  deriving DecidableEq

namespace TopDownError

/-- The error as it is shown. -/
def message : TopDownError → String
  | .leftRecursive name =>
    s!"`{name}` is left-recursive; top-down recognition would not terminate"
  | .invalidGrammar cause => cause.message

end TopDownError

/-- A grammar without left recursion and a start symbol by number. -/
structure TopDown where
  grammar : Grammar
  start : Nat
  start_lt : start < grammar.nonterminalCount
  /-- No nonterminal can call itself before it consumes input. -/
  no_left_recursion : Analysis.leftRecursive? grammar = none

namespace TopDown

/-- Top-down recognition from a start symbol, which must have a rule; the grammar must not be left
recursive. The start symbol is looked at first. -/
def make (grammar : Grammar) (start : String) : Except TopDownError TopDown :=
  match h : grammar.idOf? start with
  | none => .error (.invalidGrammar (.invalidStart start))
  | some id =>
    match no_left_recursion : Analysis.leftRecursive? grammar with
    | some name => .error (.leftRecursive name)
    | none => .ok ⟨grammar, id, grammar.idOf?_lt h, no_left_recursion⟩

variable {τ : Type} [Token τ] (topDown : TopDown) (input : Array τ)

/-- Where the start symbol can end, with all answers that were worked out for it. -/
def search : Positions × Memo :=
  Memo.ends topDown.grammar input ∅ ⟨topDown.start, 0⟩

/-- Whether the input is in the language. -/
def accepts : Bool :=
  decide (input.size ∈ (topDown.search input).1)

/-- What a search tells: its answer, and how many calls were answered for it. -/
def log : List Log.Entry :=
  let (ends, memo) := topDown.search input
  let answer := if input.size ∈ ends then "recognized" else "rejected"
  [⟨.debug, s!"top-down {answer} {input.size} tokens from " ++
    s!"`{topDown.grammar.nameOf topDown.start}` ({memo.size} memo entries)"⟩]

end TopDown

end ContextFree
