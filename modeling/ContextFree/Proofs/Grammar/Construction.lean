import ContextFree.Proofs.Grammar.Numbering
import ContextFree.Proofs.Places
import Mathlib.Data.List.Lex

/-!
# Which rules make a grammar, and how it is numbered

Rules are refused for one reason, the first that there is (`Refused`): that there are none, else the
fault that comes first by rule, alternative and position (`Definitions.FirstFault`), else that the
start symbol has no rule. All other rules make a grammar, and its numbering tells just what the rules
say (`Grammar.WellNumbered`).

Recognition adds one to the number of a slot to move its dot, and looks no further. So the numbering
is told in terms of the rules as they were written: which number leads to which nonterminal,
alternative and dot, and what stands behind the dot there, with a number for each name.
-/

namespace ContextFree

/-! ## Faults -/

namespace Definitions

variable {rules : Ruleset} {lhs : String} {symbol : Symbol String} {error : GrammarError}
  {place : List Nat}

/-- What is wrong with a symbol in a rule for `lhs`. -/
inductive Wrong (rules : Ruleset) (lhs : String) : Symbol String → GrammarError → Prop where
  /-- No input can spell a terminal without text. -/
  | emptyTerminal : Wrong rules lhs (.terminal "") (.emptyTerminal lhs)
  /-- A nonterminal is called that has no rule. -/
  | undefinedNonterminal {name : String} :
      name ∉ rules.names → Wrong rules lhs (.nonterminal name) (.undefinedNonterminal name lhs)

/-- Something is wrong with the symbol at a place, which is told by the places of its rule, of its
alternative in the rule, and of the symbol in the alternative. -/
def FaultAt (rules : Ruleset) (place : List Nat) (error : GrammarError) : Prop :=
  ∃ rule alternative position lhs alternatives symbols symbol,
    place = [rule, alternative, position] ∧ rules.entries[rule]? = some (lhs, alternatives) ∧
    alternatives[alternative]? = some symbols ∧ symbols[position]? = some symbol ∧
    rules.Wrong lhs symbol error

/-- The fault at the first place that has one, in the order of rules, alternatives and positions. -/
def FirstFault (rules : Ruleset) (error : GrammarError) : Prop :=
  ∃ place, rules.FaultAt place error ∧
    ∀ other error', rules.FaultAt other error' → place ≤ other

theorem problem?_eq_some_iff :
    rules.problem? lhs symbol = some error ↔ rules.Wrong lhs symbol error := by
  constructor
  · intro h
    cases symbol with
    | terminal text =>
      simp only [problem?, Option.ite_none_right_eq_some, Option.some.injEq] at h
      obtain ⟨rfl, rfl⟩ := h
      exact .emptyTerminal
    | nonterminal name =>
      simp only [problem?, Option.ite_none_left_eq_some, Option.some.injEq] at h
      obtain ⟨hname, rfl⟩ := h
      exact .undefinedNonterminal fun hmem => hname (contains_iff.mpr hmem)
  · intro h
    cases h with
    | emptyTerminal => rfl
    | undefinedNonterminal hname => exact if_neg fun hcontains => hname (contains_iff.mp hcontains)

/-- The faults of a ruleset, each with its place. -/
def faults (rules : Ruleset) : List (List Nat × GrammarError) :=
  rules.entries.zipIdx.flatMap fun (entry, rule) =>
    entry.2.zipIdx.flatMap fun (symbols, alternative) =>
      (atPlaces (rules.problem? entry.1) symbols).map fun (position, error) =>
        ([rule, alternative, position], error)

theorem mem_faults_iff : (place, error) ∈ rules.faults ↔ rules.FaultAt place error := by
  simp only [faults, FaultAt, List.mem_flatMap, List.mem_map, Prod.exists,
    List.mk_mem_zipIdx_iff_getElem?, mem_atPlaces_iff, problem?_eq_some_iff, Prod.mk.injEq]
  constructor
  · rintro ⟨lhs, alternatives, rule, hrule, symbols, alternative, hsymbols, position, _,
      ⟨symbol, hsymbol, hwrong⟩, rfl, rfl⟩
    exact ⟨rule, alternative, position, lhs, alternatives, symbols, symbol, rfl, hrule, hsymbols,
      hsymbol, hwrong⟩
  · rintro ⟨rule, alternative, position, lhs, alternatives, symbols, symbol, rfl, hrule, hsymbols,
      hsymbol, hwrong⟩
    exact ⟨lhs, alternatives, rule, hrule, symbols, alternative, hsymbols, position, error,
      ⟨symbol, hsymbol, hwrong⟩, rfl, rfl⟩

theorem pairwise_faults (rules : Ruleset) : rules.faults.Pairwise (·.1 < ·.1) := by
  refine List.pairwise_flatMap.mpr ⟨fun entry _ => List.pairwise_flatMap.mpr
    ⟨fun symbols _ => ?_, ?_⟩, ?_⟩
  · refine List.pairwise_map.mpr ((pairwise_atPlaces _ symbols.1).imp fun hlt => ?_)
    simpa [List.cons_lt_cons_iff] using hlt
  · refine (pairwise_zipIdx entry.1.2 0).imp fun hlt fault hfault fault' hfault' => ?_
    obtain ⟨_, -, rfl⟩ := List.mem_map.mp hfault
    obtain ⟨_, -, rfl⟩ := List.mem_map.mp hfault'
    simp [List.cons_lt_cons_iff, hlt]
  · refine (pairwise_zipIdx rules.entries 0).imp fun hlt fault hfault fault' hfault' => ?_
    obtain ⟨_, -, hfault⟩ := List.mem_flatMap.mp hfault
    obtain ⟨_, -, rfl⟩ := List.mem_map.mp hfault
    obtain ⟨_, -, hfault'⟩ := List.mem_flatMap.mp hfault'
    obtain ⟨_, -, rfl⟩ := List.mem_map.mp hfault'
    simp [List.cons_lt_cons_iff, hlt]

/-- The problems of a ruleset are its faults, in the order of their places. -/
theorem map_snd_faults (rules : Ruleset) : rules.faults.map Prod.snd = rules.problems := by
  have hsymbols : ∀ (entry : String × Alternatives String) (symbols : Alternative String),
      (atPlaces (rules.problem? entry.1) symbols).map (fun found => found.2) =
        symbols.filterMap (rules.problem? entry.1) :=
    fun entry symbols => map_snd_atPlaces _ symbols
  have hrule : ∀ entry : String × Alternatives String,
      (entry.2.zipIdx.flatMap fun (symbols, _) => symbols.filterMap (rules.problem? entry.1)) =
        entry.2.flatten.filterMap (rules.problem? entry.1) := by
    intro entry
    rw [List.filterMap_flatten, ← List.flatMap_def]
    exact flatMap_zipIdx_fst _ _
  simp only [faults, problems, List.map_flatMap, List.map_map, Function.comp_def, hsymbols, hrule]
  exact flatMap_zipIdx_fst (fun entry : String × Alternatives String =>
    entry.2.flatten.filterMap (rules.problem? entry.1)) rules.entries

theorem problems_eq_nil_iff_forall :
    rules.problems = [] ↔ ∀ place error, ¬ rules.FaultAt place error := by
  rw [← map_snd_faults, List.map_eq_nil_iff, List.eq_nil_iff_forall_not_mem, Prod.forall]
  simp only [mem_faults_iff]

/-- The problem that is listed first is the fault that comes first. -/
theorem head?_problems_eq_some_iff :
    rules.problems.head? = some error ↔ rules.FirstFault error := by
  simp only [FirstFault, ← mem_faults_iff, ← map_snd_faults]
  have hpairwise := pairwise_faults rules
  cases hfaults : rules.faults with
  | nil => simp
  | cons first others =>
    obtain ⟨firstPlace, firstError⟩ := first
    rw [hfaults] at hpairwise
    obtain ⟨hlt, -⟩ := List.pairwise_cons.mp hpairwise
    simp only [List.map_cons, List.head?_cons, Option.some.injEq]
    constructor
    · rintro rfl
      refine ⟨firstPlace, List.mem_cons_self, fun other error' hother => ?_⟩
      rcases List.mem_cons.mp hother with heq | hmem
      · obtain ⟨rfl, -⟩ := Prod.mk.inj heq
        exact le_refl _
      · exact le_of_lt (hlt _ hmem)
    · rintro ⟨place, hmem, hleast⟩
      rcases List.mem_cons.mp hmem with heq | hmem
      · exact (Prod.mk.inj heq).2.symm
      · exact absurd (hlt _ hmem) (not_lt_of_ge (hleast firstPlace firstError List.mem_cons_self))

end Definitions

/-! ## Making a grammar -/

/-- Why there is no grammar of some rules from a start symbol. -/
inductive Refused (start : String) (rules : Ruleset) : GrammarError → Prop where
  | noRules : rules.entries = [] → Refused start rules .noRules
  | fault {error : GrammarError} : rules.FirstFault error → Refused start rules error
  | invalidStart : rules.entries ≠ [] → (∀ place error, ¬ rules.FaultAt place error) →
      start ∉ rules.names → Refused start rules (.invalidStart start)

namespace Grammar

variable {start : String} {rules : Ruleset} {error : GrammarError}

theorem make_of_entries_eq_nil (h : rules.entries = []) : make start rules = .error .noRules :=
  if_pos h

theorem make_of_problems_eq_cons {others : List GrammarError}
    (h : rules.problems = error :: others) : make start rules = .error error := by
  unfold make
  have hne : rules.entries ≠ [] := by
    intro hnil
    rw [Definitions.problems, hnil] at h
    cases h
  rw [if_neg hne]
  split
  · next problem _ hproblems =>
    rw [h, List.cons.injEq] at hproblems
    rw [hproblems.1]
  · next hproblems => cases h.symm.trans hproblems

theorem make_of_not_mem_names (hne : rules.entries ≠ []) (hproblems : rules.problems = [])
    (hstart : start ∉ rules.names) : make start rules = .error (.invalidStart start) := by
  unfold make
  rw [if_neg hne]
  split
  · next problem _ hproblems' => cases hproblems.symm.trans hproblems'
  · exact dif_neg fun hcontains => hstart (Definitions.contains_iff.mp hcontains)

/-- A grammar is made of rules just if there are any, nothing is wrong with them and the start symbol
has one. -/
theorem exists_make_iff : (∃ grammar, make start rules = .ok grammar) ↔
    rules.entries ≠ [] ∧ rules.problems = [] ∧ start ∈ rules.names := by
  constructor
  · rintro ⟨grammar, hmake⟩
    obtain ⟨rfl, rfl⟩ := of_make_eq_ok hmake
    exact ⟨grammar.entries_ne_nil, grammar.closed, Definitions.contains_iff.mp grammar.start_defined⟩
  · rintro ⟨-, hproblems, hstart⟩
    let grammar : Grammar :=
      { startSymbol := start, rules, closed := hproblems,
        start_defined := Definitions.contains_iff.mpr hstart }
    exact ⟨grammar, grammar.make_self⟩

/-- Rules are refused just for the first reason that there is. -/
theorem make_eq_error_iff : make start rules = .error error ↔ Refused start rules error := by
  constructor
  · intro hmake
    by_cases hne : rules.entries = []
    · rw [make_of_entries_eq_nil hne, Except.error.injEq] at hmake
      exact hmake ▸ .noRules hne
    cases hproblems : rules.problems with
    | cons problem others =>
      rw [make_of_problems_eq_cons hproblems, Except.error.injEq] at hmake
      subst hmake
      refine .fault (Definitions.head?_problems_eq_some_iff.mp ?_)
      rw [hproblems, List.head?_cons]
    | nil =>
      have hstart : start ∉ rules.names := by
        intro hstart
        obtain ⟨grammar, hgrammar⟩ := exists_make_iff.mpr ⟨hne, hproblems, hstart⟩
        cases hgrammar.symm.trans hmake
      rw [make_of_not_mem_names hne hproblems hstart, Except.error.injEq] at hmake
      subst hmake
      exact .invalidStart hne (Definitions.problems_eq_nil_iff_forall.mp hproblems) hstart
  · intro hrefused
    cases hrefused with
    | noRules hnil => exact make_of_entries_eq_nil hnil
    | fault hfirst =>
      rw [← Definitions.head?_problems_eq_some_iff, List.head?_eq_some_iff] at hfirst
      obtain ⟨others, hproblems⟩ := hfirst
      exact make_of_problems_eq_cons hproblems
    | invalidStart hne hfaultless hstart =>
      exact make_of_not_mem_names hne (Definitions.problems_eq_nil_iff_forall.mpr hfaultless) hstart

end Grammar

/-! ## The table of slots -/

/-- What slots are ordered by. -/
def Slot.place (slot : Slot) : List Nat :=
  [slot.nonterminal, slot.alternative, slot.dot]

theorem Numbering.pairwise_slotTable (table : List (Alternatives Nat)) :
    (slotTable table).Pairwise (·.place < ·.place) := by
  refine List.pairwise_flatMap.mpr ⟨fun alternatives _ => List.pairwise_flatMap.mpr
    ⟨fun symbols _ => ?_, ?_⟩, ?_⟩
  · refine List.pairwise_map.mpr (List.pairwise_lt_range.imp fun hlt => ?_)
    simpa [Slot.place, List.cons_lt_cons_iff] using hlt
  · refine (pairwise_zipIdx alternatives.1 0).imp fun hlt slot hslot slot' hslot' => ?_
    obtain ⟨_, -, rfl⟩ := List.mem_map.mp hslot
    obtain ⟨_, -, rfl⟩ := List.mem_map.mp hslot'
    simp [Slot.place, List.cons_lt_cons_iff, hlt]
  · refine (pairwise_zipIdx table 0).imp fun hlt slot hslot slot' hslot' => ?_
    obtain ⟨_, -, hslot⟩ := List.mem_flatMap.mp hslot
    obtain ⟨_, -, rfl⟩ := List.mem_map.mp hslot
    obtain ⟨_, -, hslot'⟩ := List.mem_flatMap.mp hslot'
    obtain ⟨_, -, rfl⟩ := List.mem_map.mp hslot'
    simp [Slot.place, List.cons_lt_cons_iff, hlt]

namespace Grammar

/-- The rules of a grammar give a nonterminal, by its number, an alternative, by its place among the
nonterminal's. -/
def Writes (grammar : Grammar) (id alternative : Nat) (symbols : Alternative String) : Prop :=
  ∃ name alternatives, grammar.rules.entries[id]? = some (name, alternatives) ∧
    alternatives[alternative]? = some symbols

/-- A symbol as it was written comes out as a numbered one: a terminal as it is, a nonterminal as the
number that its name has and that is called by its name. -/
inductive ResolvesTo (grammar : Grammar) : Symbol String → Symbol Nat → Prop where
  | terminal {text : String} : ResolvesTo grammar (.terminal text) (.terminal text)
  | nonterminal {name : String} {id : Nat} :
      grammar.idOf? name = some id → grammar.nameOf id = name →
      ResolvesTo grammar (.nonterminal name) (.nonterminal id)

/-- The numbering of a grammar tells what its rules say. -/
structure WellNumbered (grammar : Grammar) : Prop where
  /-- Slots are numbered in the order of nonterminals, alternatives and dots, and none twice. -/
  pairwise_slots : grammar.numbering.slots.toList.Pairwise (·.place < ·.place)
  /-- There is a slot for each place in each alternative that a dot can stand at, and no other. -/
  exists_slot_iff : ∀ id alternative dot,
    (∃ n next, grammar.slot? n = some ⟨id, alternative, dot, next⟩) ↔
      ∃ symbols, grammar.Writes id alternative symbols ∧ dot ≤ symbols.length
  /-- A nonterminal has an entry for each of its alternatives. -/
  length_entrySlots : ∀ id name alternatives,
    grammar.rules.entries[id]? = some (name, alternatives) →
    ∃ entries, grammar.entrySlots? id = some entries ∧ entries.length = alternatives.length
  /-- The number of a slot is that of its alternative's entry, plus its dot. With the dot at the end
  nothing stands behind it, and anywhere else the symbol that was written there. -/
  slot?_entry_add : ∀ id alternative symbols, grammar.Writes id alternative symbols →
    ∃ entries entry, grammar.entrySlots? id = some entries ∧ entries[alternative]? = some entry ∧
      ∀ dot ≤ symbols.length, ∃ next,
        grammar.slot? (entry + dot) = some ⟨id, alternative, dot, next⟩ ∧
        (next = none ↔ dot = symbols.length) ∧
        ∀ symbol, symbols[dot]? = some symbol →
          ∃ numbered, next = some numbered ∧ grammar.ResolvesTo symbol numbered
  /-- Names and numbers belong to each other one to one. -/
  idOf?_eq_some_iff_nameOf : ∀ name id, grammar.idOf? name = some id ↔
    id < grammar.nonterminalCount ∧ grammar.nameOf id = name

variable {grammar : Grammar} {id alternative dot : Nat} {symbols : Alternative String}

/-- A symbol of the grammar with a number for each name. -/
def number (grammar : Grammar) : Symbol String → Symbol Nat :=
  Symbol.map fun name => (grammar.idOf? name).getD 0

/-- The alternatives that a number has are those of the rules, with a number for each name. -/
theorem getElem?_alternatives_iff {numbered : Alternative Nat} :
    (grammar.alternatives id)[alternative]? = some numbered ↔
      ∃ symbols, grammar.Writes id alternative symbols ∧
        symbols.map grammar.number = numbered := by
  cases hrule : grammar.rules.entries[id]? with
  | none => simp [alternatives_of_getElem?_eq_none hrule, Writes, hrule]
  | some rule =>
    simp only [alternatives_eq hrule, List.getElem?_map, Option.map_eq_some_iff, Writes, hrule,
      Option.some.injEq]
    constructor
    · rintro ⟨symbols, hsymbols, hnumbered⟩
      exact ⟨symbols, ⟨rule.1, rule.2, rfl, hsymbols⟩, hnumbered⟩
    · rintro ⟨symbols, ⟨name, alternatives, rfl, hsymbols⟩, hnumbered⟩
      exact ⟨symbols, hsymbols, hnumbered⟩

/-- No name of the rules comes out as a number that it does not have. -/
theorem Writes.resolvesTo (h : grammar.Writes id alternative symbols) {symbol : Symbol String}
    (hsymbol : symbol ∈ symbols) : grammar.ResolvesTo symbol (grammar.number symbol) := by
  obtain ⟨lhs, alternatives, hrule, hsymbols⟩ := h
  cases symbol with
  | terminal text => exact .terminal
  | nonterminal name =>
    obtain ⟨callee, hcallee⟩ := exists_idOf?_of_mem (List.mem_of_getElem? hrule)
      (List.mem_of_getElem? hsymbols) hsymbol
    have hnumber : grammar.number (.nonterminal name) = .nonterminal callee := by
      simp only [number, Symbol.map, hcallee, Option.getD_some]
    rw [hnumber]
    exact .nonterminal hcallee (nameOf_of_idOf? hcallee)

/-- Each slot is as many numbers after the entry of its alternative as its dot is after the start. -/
theorem Writes.exists_slots (h : grammar.Writes id alternative symbols) :
    ∃ entries entry, grammar.entrySlots? id = some entries ∧ entries[alternative]? = some entry ∧
      ∀ dot ≤ symbols.length, grammar.slot? (entry + dot) =
        some ⟨id, alternative, dot, (symbols.map grammar.number)[dot]?⟩ := by
  have hnumbered := getElem?_alternatives_iff.mpr ⟨symbols, h, rfl⟩
  have hlt := (List.getElem?_eq_some_iff.mp hnumbered).1
  obtain ⟨entries, hentries, hlength⟩ :=
    entrySlots?_of_lt (lt_of_mem_alternatives (List.mem_of_getElem? hnumbered))
  rw [← hlength] at hlt
  have hentry := List.getElem?_eq_getElem hlt
  refine ⟨entries, _, hentries, hentry, fun dot hdot => ?_⟩
  refine slot?_eq_some_iff.mpr ⟨_, entries, _, hnumbered, hentries, hentry, ?_, rfl, rfl⟩
  rw [List.length_map]
  exact hdot

/-- Every grammar is well numbered. -/
theorem wellNumbered (grammar : Grammar) : grammar.WellNumbered where
  pairwise_slots := by
    rw [grammar.numbering_eq]
    exact Numbering.pairwise_slotTable _
  exists_slot_iff id alternative dot := by
    constructor
    · rintro ⟨n, next, hslot⟩
      obtain ⟨numbered, -, -, hnumbered, -, -, hdot, -⟩ := slot?_eq_some_iff.mp hslot
      obtain ⟨symbols, hwrites, rfl⟩ := getElem?_alternatives_iff.mp hnumbered
      rw [List.length_map] at hdot
      exact ⟨symbols, hwrites, hdot⟩
    · rintro ⟨symbols, hwrites, hdot⟩
      obtain ⟨entries, entry, -, -, hslots⟩ := hwrites.exists_slots
      exact ⟨entry + dot, _, hslots dot hdot⟩
  length_entrySlots id name alternatives hrule := by
    have hlt : id < grammar.nonterminalCount := by
      rw [nonterminalCount_eq]
      exact (List.getElem?_eq_some_iff.mp hrule).1
    obtain ⟨entries, hentries, hlength⟩ := entrySlots?_of_lt hlt
    refine ⟨entries, hentries, hlength.trans ?_⟩
    rw [alternatives_eq hrule, List.length_map]
  slot?_entry_add id alternative symbols hwrites := by
    obtain ⟨entries, entry, hentries, hentry, hslots⟩ := hwrites.exists_slots
    refine ⟨entries, entry, hentries, hentry, fun dot hdot => ⟨_, hslots dot hdot, ?_, ?_⟩⟩
    · rw [List.getElem?_eq_none_iff, List.length_map]
      omega
    · intro symbol hsymbol
      refine ⟨grammar.number symbol, ?_, hwrites.resolvesTo (List.mem_of_getElem? hsymbol)⟩
      rw [List.getElem?_map, hsymbol, Option.map_some]
  idOf?_eq_some_iff_nameOf name id := by
    constructor
    · intro hid
      exact ⟨grammar.idOf?_lt hid, nameOf_of_idOf? hid⟩
    · rintro ⟨hlt, rfl⟩
      exact idOf?_nameOf hlt

/-- There is a grammar of rules from a start symbol just if there are rules, none of them has an empty
terminal or calls a name without a rule, and the start symbol has one. Otherwise the rules are
refused for the first reason that there is. The grammar has the rules and the start symbol that it
was made of, and its numbering tells what the rules say. -/
theorem make_exact (start : String) (rules : Ruleset) :
    ((∃ grammar, make start rules = .ok grammar) ↔
      rules.entries ≠ [] ∧
      (∀ entry ∈ rules.entries, ∀ symbols ∈ entry.2, .terminal "" ∉ symbols ∧
        ∀ name, .nonterminal name ∈ symbols → name ∈ rules.names) ∧
      start ∈ rules.names) ∧
    (∀ error, make start rules = .error error ↔ Refused start rules error) ∧
    ∀ grammar, make start rules = .ok grammar →
      grammar.startSymbol = start ∧ grammar.rules = rules ∧ grammar.WellNumbered := by
  refine ⟨?_, fun error => make_eq_error_iff, ?_⟩
  · rw [exists_make_iff]
    refine and_congr_right fun _ => and_congr_left fun _ => ?_
    rw [Definitions.problems_eq_nil_iff]
    refine forall₂_congr fun entry _ => forall₂_congr fun symbols _ => ?_
    constructor
    · intro h
      exact ⟨fun hempty => (h _ hempty).1 rfl,
        fun name hname => Definitions.contains_iff.mp ((h _ hname).2 name rfl)⟩
    · rintro ⟨hempty, hnames⟩ symbol hsymbol
      refine ⟨fun heq => hempty (heq ▸ hsymbol), fun name heq => ?_⟩
      exact Definitions.contains_iff.mpr (hnames name (heq ▸ hsymbol))
  · intro grammar hmake
    obtain ⟨hrules, hstart⟩ := of_make_eq_ok hmake
    exact ⟨hstart, hrules, grammar.wellNumbered⟩

end Grammar

end ContextFree
