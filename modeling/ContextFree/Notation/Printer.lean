import ContextFree.Grammar.Basic
import ContextFree.Notation.Lexeme

/-!
# Grammars in writing

The written form of a grammar is one line per rule in the notation of rule lines. A terminal that
would read back as something else, bare, is quoted. The quoted form escapes, and the notation does
not, so a terminal that has to be quoted and holds a character that has to be escaped does not
read back.
-/

namespace ContextFree.Notation

/-- Whether a terminal would not read back as itself if it were written bare. -/
def needsQuotes (text : List Char) : Bool :=
  text == ['ε'] || 1 < (splitArrows text).length ||
    text.any fun c => Text.isWhiteSpace c || Text.isUppercase c || c == '|'

/-- The written form of a symbol. -/
def symbolText : Symbol String → List Char
  | .nonterminal name => name.toList
  | .terminal text =>
    if needsQuotes text.toList then Text.quoted text.toList else text.toList

/-- The written form of an alternative. -/
def alternativeText (alternative : Alternative String) : List Char :=
  if alternative = [] then ['ε'] else [' '].intercalate (alternative.map symbolText)

/-- The written form of a rule, a whole line. -/
def ruleText (lhs : String) (alternatives : Alternatives String) : List Char :=
  lhs.toList ++ " -> ".toList ++
    " | ".toList.intercalate (alternatives.map alternativeText) ++ ['\n']

/-- The written form of a ruleset. -/
def rulesText (rules : Ruleset) : List Char :=
  rules.entries.flatMap fun rule => ruleText rule.1 rule.2

end ContextFree.Notation

namespace ContextFree

/-- The written form of a symbol. -/
def Symbol.written (symbol : Symbol String) : String :=
  String.ofList (Notation.symbolText symbol)

/-- The written form of a grammar, ready to be loaded again. -/
def Grammar.written (grammar : Grammar) : String :=
  String.ofList (Notation.rulesText grammar.rules)

end ContextFree
