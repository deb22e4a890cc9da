import ContextFree.File
import ContextFree.Grammar.Rules
import ContextFree.Location

/-!
# Why a grammar file does not load
-/

namespace ContextFree

/-- Why a line, or a file, is no grammar. -/
inductive LoadError where
  /-- A rule line has no arrow after its nonterminal. -/
  | missingArrow
  /-- A rule line has a second arrow. -/
  | unexpectedArrow
  /-- A rule line starts with something other than a nonterminal. -/
  | missingNonterminal
  /-- A quote is never closed. -/
  | unmatchedQuote
  /-- Epsilon stands next to other symbols. -/
  | misplacedEpsilon
  /-- A terminal is quoted and empty. -/
  | emptyTerminal
  /-- A nonterminal is used that has no rule. -/
  | undefinedNonterminal (name : String)
  /-- There is no rule line. -/
  | noRules
  /-- The rules are well formed and yet make no grammar. -/
  | invalidGrammar (cause : GrammarError)
  /-- A bar is left inside an alternative. -/
  | unsplitAlternatives
  /-- A line without lexemes is read as a rule. -/
  | unexpectedBlankLine
  /-- The file, or a line of it, could not be read. -/
  | unreadable (fault : ReadFault)
  deriving DecidableEq

namespace LoadError

/-- The error as it is shown. -/
def message : LoadError → String
  | .missingArrow => "Expected `->` after nonterminal"
  | .unexpectedArrow => "Unexpected `->` encountered"
  | .missingNonterminal => "Tried to define something other than a nonterminal"
  | .unmatchedQuote => "Unmatched quotes"
  | .misplacedEpsilon => "`ε` must be the only symbol of its alternative"
  | .emptyTerminal => "Empty terminal; write epsilon as an empty alternative or `ε`"
  | .undefinedNonterminal name => s!"Could not find definition for `{name}`"
  | .noRules => "No rules defined"
  | .invalidGrammar cause => cause.message
  | .unsplitAlternatives =>
    "Rewrite was not fully split (this is a problem with the loader, not the grammar)"
  | .unexpectedBlankLine =>
    "Blank line encountered in rule parser (this is a problem with the loader, not the grammar)"
  | .unreadable fault => s!"File error: {fault.message}"

end LoadError

end ContextFree
