import ContextFree.Grammar.Numbering
import ContextFree.Text.Quoted

/-!
# Grammars

A `Grammar` is a ruleset without problems and a start symbol that has a rule, together with the
numbering that recognition works on. The only ways to build one are `make` and `ofRules`, which
name the first thing that is wrong; so whoever holds a grammar need not look again whether its
references resolve.
-/

namespace ContextFree

/-- A context-free grammar all of whose references resolve. -/
structure Grammar where
  startSymbol : String
  rules : Ruleset
  /-- Every nonterminal that is called has a rule and no terminal is empty. -/
  closed : rules.problems = []
  /-- The start symbol has a rule. -/
  start_defined : rules.contains startSymbol = true
  /-- The tables are kept with the grammar, not computed at each use. -/
  numbering : Numbering := Numbering.ofRules rules
  numbering_eq : numbering = Numbering.ofRules rules := by rfl

namespace Grammar

/-- The grammar of some rules from a start symbol, or the first thing that is wrong: no rules at
all, else the first problem in rule order, else a start symbol without a rule. -/
def make (startSymbol : String) (rules : Ruleset) : Except GrammarError Grammar :=
  if rules.entries = [] then .error .noRules
  else
    match closed : rules.problems with
    | problem :: _ => .error problem
    | [] =>
      if start_defined : rules.contains startSymbol = true then
        .ok { startSymbol, rules, closed, start_defined }
      else .error (.invalidStart startSymbol)

/-- The grammar that starts from the first rule. -/
def ofRules (rules : Ruleset) : Except GrammarError Grammar :=
  match rules.names with
  | [] => .error .noRules
  | first :: _ => make first rules

/-- Two grammars are `==` when they start alike and give each nonterminal the same alternatives,
in whatever order the rules come. -/
def agree (a b : Grammar) : Bool :=
  a.startSymbol == b.startSymbol && a.rules == b.rules

instance : BEq Grammar :=
  ⟨agree⟩

variable (grammar : Grammar)

/-- Whether a name has a rule. -/
def isNonterminal (name : String) : Bool :=
  grammar.rules.contains name

/-- The nonterminals in definition order. -/
def nonterminals : List String :=
  grammar.rules.names

/-- The alternatives of a nonterminal by name. -/
def alternativesOf? (name : String) : Option (Alternatives String) :=
  grammar.rules.get? name

/-- Every distinct terminal, in order of first appearance. -/
def terminals : List String :=
  (grammar.rules.entries.flatMap fun rule => rule.2.flatten.filterMap Symbol.terminal?).eraseDups

/-- How many nonterminals there are. -/
def nonterminalCount : Nat :=
  grammar.numbering.alternatives.size

/-- How many slots there are. -/
def slotCount : Nat :=
  grammar.numbering.slots.size

/-- The number of a nonterminal. -/
def idOf? (name : String) : Option Nat :=
  grammar.rules.indexOf? name

/-- A number that a name has is the number of a nonterminal. -/
theorem idOf?_lt {name : String} {id : Nat} (h : grammar.idOf? name = some id) :
    id < grammar.nonterminalCount := by
  obtain ⟨hid, -⟩ := List.idxOf?_eq_some_iff.mp h
  simpa [nonterminalCount, grammar.numbering_eq, Numbering.ofRules, Numbering.resolve,
    Definitions.names] using hid

/-- The nonterminal of a number, or a question mark if there is none. -/
def nameOf (id : Nat) : String :=
  grammar.numbering.names[id]?.getD "?"

/-- The alternatives of a nonterminal by number; a number out of range has none. -/
def alternatives (id : Nat) : Alternatives Nat :=
  grammar.numbering.alternatives[id]?.getD []

/-- The slots at the starts of a nonterminal's alternatives. -/
def entrySlots? (id : Nat) : Option (List Nat) :=
  grammar.numbering.entries[id]?

/-- The slot of a number. -/
def slot? (id : Nat) : Option Slot :=
  grammar.numbering.slots[id]?

/-- A numbered symbol as it appears in a slot: terminals quoted, nonterminals by name. -/
def describeSymbol : Symbol Nat → String
  | .terminal text => Text.quote text
  | .nonterminal id => grammar.nameOf id

/-- A slot in the form `A -> x . y`. -/
def describeSlot (slot : Slot) : String :=
  let symbols := (grammar.alternatives slot.nonterminal)[slot.alternative]?.getD []
  let parts := (symbols.map grammar.describeSymbol).insertIdx slot.dot "."
  s!"{grammar.nameOf slot.nonterminal} -> " ++ " ".intercalate parts

/-- Every slot in the form `A -> x . y`, in the order of their numbers. -/
def describeSlots : List String :=
  grammar.numbering.slots.toList.map grammar.describeSlot

end Grammar

end ContextFree
