import ContextFree.Grammar.Basic
import ContextFree.Log
import ContextFree.Notation.Rule
import ContextFree.Text.Lines

/-!
# Loading a grammar

A grammar text is a list of rule lines. Rules for one nonterminal add up, in the order of their
lines, and the start symbol is the nonterminal of the first rule line.

All errors of one stage are reported together. Lines that are no rules are reported first, each at
its own line; only if there are none are the names checked, and each use of a name without a rule
is reported at the line that uses it.

A file is read line by line: a line that is not text is an error in place among the others.
-/

namespace ContextFree.Notation

/-- A grammar, or everything that is wrong with its text. -/
abbrev Loaded : Type :=
  Except (List (Located LoadError)) Grammar

/-- The alternatives of a nonterminal so far, each with the line that gives it. -/
abbrev Sources : Type :=
  Definitions (List (Alternative String × Location))

/-- One rule more: its alternatives come after those of earlier lines. -/
def addRule (sources : Sources) (rule : Rule) : Sources :=
  sources.alter rule.lhs fun earlier =>
    earlier.getD [] ++ rule.alternatives.map fun alternative => (alternative, rule.location)

/-- The rules by nonterminal, in the order in which nonterminals first appear on the left. -/
def collect (rules : List Rule) : Sources :=
  rules.foldl addRule .empty

/-- Every use of a nonterminal that no rule defines, at the line that uses it. -/
def undefinedUses (sources : Sources) : List (Located LoadError) :=
  sources.entries.flatMap fun entry =>
    entry.2.flatMap fun (alternative, location) =>
      (alternative.filterMap Symbol.nonterminal?).filterMap fun name =>
        if sources.contains name then none
        else some ⟨location, .undefinedNonterminal name⟩

/-- The grammar of some rules. -/
def ofRules (path : String) (rules : List Rule) : Loaded :=
  let sources := collect rules
  match undefinedUses sources with
  | [] =>
    match Grammar.ofRules (sources.map fun alternatives => alternatives.map Prod.fst) with
    | .ok grammar => .ok grammar
    | .error .noRules => .error [⟨.wholeFile path, .noRules⟩]
    | .error cause => .error [⟨.wholeFile path, .invalidGrammar cause⟩]
  | errors => .error errors

/-- A line of a file that is to be read as a rule, by its number. -/
abbrev NumberedLine : Type :=
  Nat × Except ReadFault (List Char)

/-- The rule of a line. A line that could not be read counts against the whole file. -/
def parseNumbered (path : String) : NumberedLine → Except (Located LoadError) Rule
  | (number, .ok line) => parseLine ⟨path, number⟩ line
  | (_, .error fault) => .error ⟨.wholeFile path, .unreadable fault⟩

/-- Whether a line that was read is a rule line. One that was not read is kept for its error. -/
def isKept : NumberedLine → Bool
  | (_, .ok line) => isRuleLine line
  | (_, .error _) => true

/-- The number of a line, by the number of the first one and its place among all lines. It is a machine
word: the largest of these is followed by 0. (A build that checks its sums stops there.) -/
def lineNumber (first index : Nat) : Nat :=
  (first + index) % UInt64.size

/-- Lines numbered from `first`, in machine words. -/
def numberFrom (first : Nat) (lines : List (Except ReadFault (List Char))) : List NumberedLine :=
  lines.zipIdx.map fun (line, index) => (lineNumber first index, line)

/-- The grammar of some lines, of which those that hold no rule are passed over. -/
def ofLines (path : String) (lines : List NumberedLine) : Loaded :=
  let parsed := (lines.filter isKept).map (parseNumbered path)
  match errorsOf parsed with
  | [] => ofRules path (valuesOf parsed)
  | errors => .error errors

/-- The grammar of a text whose first line is line `firstLine` of the file at `path`. -/
def load (path : String) (firstLine : Nat) (text : List Char) : Loaded :=
  ofLines path (numberFrom firstLine ((Text.lines text).map .ok))

/-- The grammar of a text that comes from no file. -/
def loadString (text : String) : Loaded :=
  load "<string>" 1 text.toList

/-- A line of a file, if it is text. -/
def decodeLine (bytes : List UInt8) : Except ReadFault (List Char) :=
  match decodeText? bytes with
  | some line => .ok line
  | none => .error .invalidText

/-- The grammar of a file's content. -/
def loadBytes (path : String) (bytes : ByteArray) : Loaded :=
  ofLines path (numberFrom 1 ((Text.byteLines bytes.data.toList).map decodeLine))

/-- The grammar of a file, given what came of reading it. -/
def loadFile (path : String) : Except ReadFault ByteArray → Loaded
  | .ok bytes => loadBytes path bytes
  | .error fault => .error [⟨.wholeFile path, .unreadable fault⟩]

/-- What loading from `path` tells: one line if it succeeds. -/
def loadLog (path : String) : Loaded → List Log.Entry
  | .ok grammar =>
    [⟨.debug, s!"loaded grammar from {path} with {grammar.nonterminalCount} nonterminals, " ++
      s!"start symbol `{grammar.startSymbol}`"⟩]
  | .error _ => []

end ContextFree.Notation
