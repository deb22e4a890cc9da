import ContextFree.Notation.Loader

/-!
# Case files

A case file is a grammar, a blank line, and then one case a line: a word and a label, 1 if the
word should be in the language and 0 if not. The last white space of the line separates the two,
so a word may hold white space, and anything else; a line that is only a label tests the empty
word, and so does the word `ε`. There are no comments among the cases, as `;` may start a word.

The two parts are read independently of each other, and the errors of both are reported, each at
its line of the file.
-/

namespace ContextFree

/-- Why a case file cannot be used. -/
inductive CaseError where
  /-- No blank line separates the grammar from the cases. -/
  | missingSeparator
  /-- A line has no label. -/
  | malformedCase (line : String)
  /-- A label is neither 0 nor 1. -/
  | invalidLabel (label : String)
  /-- The grammar does not load. -/
  | invalidGrammar (cause : LoadError)
  /-- The file could not be read. -/
  | unreadable (fault : ReadFault)
  deriving DecidableEq

namespace CaseError

/-- The error as it is shown. -/
def message : CaseError → String
  | .missingSeparator => "Need a blank line separating grammar and test cases"
  | .malformedCase line => s!"Expected `word label`, found `{line}`"
  | .invalidLabel label => s!"Label must be 0 or 1, found `{label}`"
  | .invalidGrammar cause => cause.message
  | .unreadable fault => s!"File error: {fault.message}"

end CaseError

/-- A word and whether it should be in the language. -/
structure Case where
  word : String
  expected : Bool
  location : Location
  deriving DecidableEq

/-- A grammar and the cases for it. -/
structure CaseFile where
  grammar : Grammar
  cases : List Case

namespace CaseFile

/-- The word and the label of a line, or nothing if it has no label. -/
def splitCase? (line : List Char) : Option (List Char × List Char) :=
  match Text.splitAtLastWhiteSpace? line with
  | some (word, label) => some (Text.trim word, label)
  | none => if line = ['0'] ∨ line = ['1'] then some ([], line) else none

/-- What a label expects. -/
def expectation? : List Char → Option Bool
  | ['0'] => some false
  | ['1'] => some true
  | _ => none

/-- The case of a line. -/
def parseCase (location : Location) (line : List Char) : Except (Located CaseError) Case :=
  let line := Text.trim line
  match splitCase? line with
  | none => .error ⟨location, .malformedCase (String.ofList line)⟩
  | some (word, label) =>
    match expectation? label with
    | none => .error ⟨location, .invalidLabel (String.ofList label)⟩
    | some expected =>
      .ok ⟨String.ofList (if word = ['ε'] then [] else word), expected, location⟩

/-- The two parts of a case file: the text of the grammar, and the lines after the first blank
line with their numbers. -/
def parts? (text : List Char) : Option (List Char × List (Nat × List Char)) :=
  let lines := Text.lines text
  match lines.findIdx? Text.isBlank with
  | none => none
  | some separator =>
    let numbered := lines.zipIdx.map fun (line, index) => (index + 1, line)
    some (['\n'].intercalate (lines.take separator), numbered.drop (separator + 1))

/-- The cases of the lines that are not blank, well formed or not. -/
def parseCases (path : String) (lines : List (Nat × List Char)) :
    List (Except (Located CaseError) Case) :=
  (lines.filter fun (_, line) => !Text.isBlank line).map fun (number, line) =>
    parseCase ⟨path, number⟩ line

/-- The case file of a text, or everything that is wrong with it. -/
def parse (path : String) (text : List Char) : Except (List (Located CaseError)) CaseFile :=
  match parts? text with
  | none => .error [⟨.wholeFile path, .missingSeparator⟩]
  | some (grammarText, lines) =>
    let cases := parseCases path lines
    match Notation.load path 1 grammarText, errorsOf cases with
    | .ok grammar, [] => .ok ⟨grammar, valuesOf cases⟩
    | .ok _, errors => .error errors
    | .error causes, errors =>
      .error (causes.map (fun cause => ⟨cause.location, .invalidGrammar cause.error⟩) ++ errors)

/-- The case file of a file, given what came of reading it. It is read as a whole. -/
def ofFile (path : String) (content : Except ReadFault ByteArray) :
    Except (List (Located CaseError)) CaseFile :=
  match content with
  | .error fault => .error [⟨.wholeFile path, .unreadable fault⟩]
  | .ok bytes =>
    match decodeText? bytes.data.toList with
    | some text => parse path text
    | none => .error [⟨.wholeFile path, .unreadable .invalidText⟩]

/-- What parsing tells: what loading the grammar tells. -/
def parseLog (path : String) (text : List Char) : List Log.Entry :=
  match parts? text with
  | none => []
  | some (grammarText, _) => Notation.loadLog path (Notation.load path 1 grammarText)

/-- What reading a file tells. -/
def fileLog (path : String) (content : Except ReadFault ByteArray) : List Log.Entry :=
  match content with
  | .error _ => []
  | .ok bytes =>
    match decodeText? bytes.data.toList with
    | some text => parseLog path text
    | none => []

end CaseFile

end ContextFree
