import ContextFree.Definitions
import ContextFree.Symbol

/-!
# Rules and what can be wrong with them

A ruleset gives each nonterminal its alternatives. Nothing about it is checked yet: it may call
nonterminals that it does not define, and it may spell terminals that no input can match. `problems`
lists every such fault in rule order, and `GrammarError` is their type.
-/

namespace ContextFree

/-- The alternatives of each nonterminal, in definition order. -/
abbrev Ruleset : Type :=
  Definitions (Alternatives String)

/-- Why rules make no grammar. -/
inductive GrammarError where
  /-- A rule for `referencedBy` calls `name`, which has no rule. -/
  | undefinedNonterminal (name referencedBy : String)
  /-- The start symbol has no rule. -/
  | invalidStart (name : String)
  /-- A rule has the empty text for a terminal. Epsilon is the empty alternative instead. -/
  | emptyTerminal (nonterminal : String)
  /-- There are no rules at all. -/
  | noRules
  deriving DecidableEq

namespace GrammarError

/-- The error as it is shown. -/
def message : GrammarError → String
  | .undefinedNonterminal name referencedBy =>
    s!"Could not find definition for `{name}` (used by `{referencedBy}`)"
  | .invalidStart name => s!"Start symbol `{name}` has no rule"
  | .emptyTerminal nonterminal => s!"Empty terminal in a rule for `{nonterminal}`"
  | .noRules => "Grammar has no rules"

end GrammarError

namespace Definitions

variable (rules : Ruleset)

/-- What is wrong with one symbol in a rule for `lhs`. -/
def problem? (lhs : String) : Symbol String → Option GrammarError
  | .terminal text => if text = "" then some (.emptyTerminal lhs) else none
  | .nonterminal name =>
    if rules.contains name then none else some (.undefinedNonterminal name lhs)

/-- Everything that is wrong with the rules, by rule, alternative and symbol. -/
def problems : List GrammarError :=
  rules.entries.flatMap fun rule => rule.2.flatten.filterMap (rules.problem? rule.1)

end Definitions

end ContextFree
