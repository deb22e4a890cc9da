import ContextFree.Grammar.Rules

/-!
# Numbers for nonterminals and slots

Recognition compares and hashes nonterminals and dotted positions all the time, so a grammar
numbers them once. A nonterminal's number is its place in definition order. A slot is a dotted
position `A -> x . y` inside one alternative; slots are numbered in order of nonterminal,
alternative and dot, so the slot after one symbol more has the next number.

The table keeps with each slot the symbol right after its dot, which is all that recognition asks
of a slot.
-/

namespace ContextFree

/-- A dotted position inside one alternative. -/
structure Slot where
  nonterminal : Nat
  alternative : Nat
  /-- How many symbols stand before the dot. -/
  dot : Nat
  /-- The symbol right after the dot, if the dot is not at the end. -/
  next : Option (Symbol Nat)
  deriving DecidableEq

/-- The tables of a numbered grammar. -/
structure Numbering where
  names : Array String
  /-- The alternatives of each nonterminal. -/
  alternatives : Array (Alternatives Nat)
  slots : Array Slot
  /-- The slot at the start of each alternative, by nonterminal. -/
  entries : Array (List Nat)

namespace Numbering

/-- The alternatives in definition order with every reference a number. A name without a rule would
come out as 0; a grammar has no such name. -/
def resolve (rules : Ruleset) : List (Alternatives Nat) :=
  rules.entries.map fun rule =>
    rule.2.map fun alternative =>
      alternative.map fun symbol => symbol.map fun name => (rules.indexOf? name).getD 0

/-- The slots of one alternative, the dot moving from its start to its end. -/
def alternativeSlots (nonterminal alternative : Nat) (symbols : Alternative Nat) : List Slot :=
  (List.range (symbols.length + 1)).map fun dot => ⟨nonterminal, alternative, dot, symbols[dot]?⟩

/-- The slots of one nonterminal. -/
def nonterminalSlots (nonterminal : Nat) (alternatives : Alternatives Nat) : List Slot :=
  alternatives.zipIdx.flatMap fun (symbols, alternative) =>
    alternativeSlots nonterminal alternative symbols

/-- The slots of a whole grammar. -/
def slotTable (table : List (Alternatives Nat)) : List Slot :=
  table.zipIdx.flatMap fun (alternatives, nonterminal) => nonterminalSlots nonterminal alternatives

/-- How many slots a nonterminal has: one more than symbols in each alternative. -/
def countSlots : Alternatives Nat → Nat
  | [] => 0
  | symbols :: rest => symbols.length + 1 + countSlots rest

/-- The first slot of each alternative, if the first of all is `first`. -/
def entriesFrom (first : Nat) : Alternatives Nat → List Nat
  | [] => []
  | symbols :: rest => first :: entriesFrom (first + symbols.length + 1) rest

/-- The first slot of each alternative of each nonterminal, if the first of all is `first`. -/
def entryTable (first : Nat) : List (Alternatives Nat) → List (List Nat)
  | [] => []
  | alternatives :: rest =>
    entriesFrom first alternatives :: entryTable (first + countSlots alternatives) rest

/-- The numbering of a ruleset. -/
def ofRules (rules : Ruleset) : Numbering :=
  let table := resolve rules
  { names := rules.names.toArray
    alternatives := table.toArray
    slots := (slotTable table).toArray
    entries := (entryTable 0 table).toArray }

end Numbering

end ContextFree
