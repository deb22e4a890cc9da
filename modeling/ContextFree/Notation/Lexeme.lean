import ContextFree.Notation.Error
import ContextFree.Text.Uppercase
import ContextFree.Text.WhiteSpace

/-!
# The lexemes of a rule line

A line of the notation is read character by character into lexemes. White space, bars and double
quotes separate; everything between them is a bare word, and an arrow separates bare words even
where it is glued to them. A bare word stands for a nonterminal if it starts with an uppercase
character and for a terminal if not; the lone letter `ε` stands for the empty alternative. Quotes
hold a terminal as it is: there are no escapes in the notation, so no terminal of it has a quote.
-/

namespace ContextFree.Notation

/-- One lexeme of a rule line. -/
inductive Lexeme where
  /-- An arrow, `->`. -/
  | arrow
  /-- A bar between alternatives. -/
  | bar
  /-- The lone letter `ε`. -/
  | epsilon
  | nonterminal (name : String)
  | terminal (text : String)
  deriving DecidableEq

/-- Whether a bare word names a nonterminal. -/
def isNonterminalName : List Char → Bool
  | [] => false
  | c :: _ => Text.isUppercase c

/-- Whether a character belongs to a bare word. -/
def isWordChar (c : Char) : Bool :=
  !Text.isWhiteSpace c && c != '|' && c != '"'

/-- The lexeme of a bare word without arrows. -/
def classify (word : List Char) : Lexeme :=
  if word = ['ε'] then .epsilon
  else if isNonterminalName word then .nonterminal (String.ofList word)
  else .terminal (String.ofList word)

/-- The texts around the arrows of a word, taken from the left. -/
def splitArrows : List Char → List (List Char)
  | [] => [[]]
  | '-' :: '>' :: rest => [] :: splitArrows rest
  | c :: rest =>
    match splitArrows rest with
    | [] => [[c]]
    | part :: parts => (c :: part) :: parts

/-- The lexemes of a bare word: its arrows, and what is between them unless that is empty. -/
def wordLexemes (word : List Char) : List Lexeme :=
  [Lexeme.arrow].intercalate
    ((splitArrows word).map fun part => if part = [] then [] else [classify part])

/-- The lexemes of a line, unless a quote in it is never closed. -/
def lex : List Char → Except LoadError (List Lexeme)
  | [] => .ok []
  | c :: rest =>
    if c = '|' then (lex rest).map (Lexeme.bar :: ·)
    else if c = '"' then
      match _closed : rest.dropWhile (· != '"') with
      | [] => .error .unmatchedQuote
      | _ :: after =>
        (lex after).map (Lexeme.terminal (String.ofList (rest.takeWhile (· != '"'))) :: ·)
    else if Text.isWhiteSpace c then lex rest
    else (lex (rest.dropWhile isWordChar)).map (wordLexemes (c :: rest.takeWhile isWordChar) ++ ·)
termination_by text => text.length
decreasing_by
  · simp
  · have : (rest.dropWhile (· != '"')).length ≤ rest.length :=
      (List.dropWhile_sublist _).length_le
    rw [_closed] at this
    simp at this ⊢
    omega
  · simp
  · have : (rest.dropWhile isWordChar).length ≤ rest.length :=
      (List.dropWhile_sublist _).length_le
    simp
    omega

end ContextFree.Notation
