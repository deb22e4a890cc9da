import ContextFree.Notation.Lexeme

/-!
# Rule lines

A rule line gives a nonterminal some alternatives, as in `S -> A S d | B S | ε`. A blank line is
no rule line, and neither is one whose first character is a semicolon: it is a comment.

The checks on a line are made in a fixed order, and the first that fails names the error: its
quotes, its nonterminal, its arrow, and then its symbols from the left.
-/

namespace ContextFree.Notation

/-- A rule and the line that gives it. -/
structure Rule where
  lhs : String
  alternatives : Alternatives String
  location : Location

/-- Whether a line holds a rule, well formed or not. -/
def isRuleLine (line : List Char) : Bool :=
  match Text.trim line with
  | [] => false
  | c :: _ => c != ';'

/-- The symbol of a lexeme inside an alternative. -/
def symbolOf : Lexeme → Except LoadError (Symbol String)
  | .arrow => .error .unexpectedArrow
  | .bar => .error .unsplitAlternatives
  | .epsilon => .error .misplacedEpsilon
  | .nonterminal name => .ok (.nonterminal name)
  | .terminal text => if text = "" then .error .emptyTerminal else .ok (.terminal text)

/-- The symbols of one alternative; a lone epsilon stands for none. -/
def alternativeOf (lexemes : List Lexeme) : Except LoadError (Alternative String) :=
  if lexemes = [.epsilon] then .ok [] else lexemes.mapM symbolOf

/-- The alternatives on the right of an arrow. -/
def alternativesOf (lexemes : List Lexeme) : Except LoadError (Alternatives String) :=
  (lexemes.splitOn .bar).mapM alternativeOf

/-- The nonterminal and the alternatives of a rule line's lexemes. -/
def ruleOf : List Lexeme → Except LoadError (String × Alternatives String)
  | [] => .error .unexpectedBlankLine
  | .nonterminal lhs :: .arrow :: rest => (alternativesOf rest).map (lhs, ·)
  | .nonterminal _ :: _ => .error .missingArrow
  | _ :: _ => .error .missingNonterminal

/-- The rule that a line gives. -/
def parseLine (location : Location) (line : List Char) : Except (Located LoadError) Rule :=
  match lex line >>= ruleOf with
  | .ok (lhs, alternatives) => .ok ⟨lhs, alternatives, location⟩
  | .error error => .error ⟨location, error⟩

end ContextFree.Notation
