/-!
# Symbols and what they spell out

The right-hand sides of rules. A symbol is a terminal, matched against the input as it
stands, or a call of a nonterminal. How a nonterminal is referred to is left open: a grammar as
it is written refers by name (`Symbol String`), a grammar prepared for recognition by number
(`Symbol Nat`).
-/

namespace ContextFree

/-- One symbol of a right-hand side. -/
inductive Symbol (ν : Type) where
  /-- Text that the input must spell. -/
  | terminal (text : String)
  /-- Whatever the named nonterminal derives. -/
  | nonterminal (name : ν)
  deriving DecidableEq

/-- Symbols to be matched one after the other. The empty alternative derives the empty word. -/
abbrev Alternative (ν : Type) : Type :=
  List (Symbol ν)

/-- The alternatives of one nonterminal. -/
abbrev Alternatives (ν : Type) : Type :=
  List (Alternative ν)

namespace Symbol

variable {ν μ : Type}

/-- The symbol with its reference changed. -/
def map (f : ν → μ) : Symbol ν → Symbol μ
  | .terminal text => .terminal text
  | .nonterminal name => .nonterminal (f name)

/-- The text of a terminal. -/
def terminal? : Symbol ν → Option String
  | .terminal text => some text
  | .nonterminal _ => none

/-- The reference of a nonterminal. -/
def nonterminal? : Symbol ν → Option ν
  | .terminal _ => none
  | .nonterminal name => some name

end Symbol

end ContextFree
