import ContextFree.Grammar.Basic
import ContextFree.Proofs.Definitions

/-!
# When rules make a grammar

Rules are without problems just if each symbol of theirs is in order: a terminal has a text, and a
nonterminal has a rule (`problems_eq_nil_iff`). Rules without problems make a grammar if there are
any (`exists_ofRules_iff`), the one that starts from the first of them (`ofRules_eq_ok_iff`), and
there is one grammar only of given rules and a given start symbol (`Grammar.ext`). `==` is weaker
than that: it leaves the order of the rules open (`Grammar.beq_iff`).
-/

namespace ContextFree

variable {rules : Ruleset} {lhs name : String} {symbol : Symbol String}

theorem Definitions.problem?_eq_none_iff : rules.problem? lhs symbol = none ↔
    symbol ≠ .terminal "" ∧ ∀ name, symbol = .nonterminal name → rules.contains name = true := by
  cases symbol <;> simp [problem?]

theorem Definitions.problems_eq_nil_iff : rules.problems = [] ↔
    ∀ entry ∈ rules.entries, ∀ alternative ∈ entry.2, ∀ symbol ∈ alternative,
      symbol ≠ .terminal "" ∧ ∀ name, symbol = .nonterminal name → rules.contains name = true := by
  simp only [problems, List.flatMap_eq_nil_iff, List.filterMap_eq_nil_iff, List.mem_flatten,
    problem?_eq_none_iff]
  constructor
  · exact fun h entry hentry alternative halternative symbol hsymbol =>
      h entry hentry symbol ⟨alternative, halternative, hsymbol⟩
  · rintro h entry hentry symbol ⟨alternative, halternative, hsymbol⟩
    exact h entry hentry alternative halternative symbol hsymbol

namespace Grammar

theorem ext {a b : Grammar} (hstart : a.startSymbol = b.startSymbol) (hrules : a.rules = b.rules) :
    a = b := by
  obtain ⟨startSymbol, rules, closed, start_defined, numbering, hnumbering⟩ := a
  obtain ⟨startSymbol', rules', closed', start_defined', numbering', hnumbering'⟩ := b
  obtain rfl := hstart
  obtain rfl := hrules
  obtain rfl := hnumbering
  obtain rfl := hnumbering'
  rfl

/-- Grammars are `==` just if they start alike and have the same rules, in whatever order. -/
theorem beq_iff {a b : Grammar} : (a == b) = true ↔
    a.startSymbol = b.startSymbol ∧ a.rules.entries.Perm b.rules.entries := by
  show agree a b = true ↔ _
  rw [agree, Bool.and_eq_true, beq_iff_eq, Definitions.beq_iff]

theorem entries_ne_nil (grammar : Grammar) : grammar.rules.entries ≠ [] := by
  intro hnil
  have hstart := Definitions.contains_iff.mp grammar.start_defined
  rw [hnil] at hstart
  exact List.not_mem_nil hstart

theorem mem_terminals_iff {grammar : Grammar} {text : String} : text ∈ grammar.terminals ↔
    ∃ entry ∈ grammar.rules.entries, ∃ alternative ∈ entry.2, .terminal text ∈ alternative := by
  have hterminal : ∀ symbol : Symbol String,
      symbol.terminal? = some text ↔ symbol = .terminal text := by
    intro symbol
    cases symbol <;> simp [Symbol.terminal?]
  simp only [terminals, List.mem_eraseDups, List.mem_flatMap, List.mem_filterMap,
    List.mem_flatten, hterminal, exists_eq_right]

/-- A grammar is made of its own rules and start symbol. -/
theorem make_self (grammar : Grammar) : make grammar.startSymbol grammar.rules = .ok grammar := by
  unfold make
  rw [if_neg grammar.entries_ne_nil]
  split
  · next problem _ hproblems =>
    rw [grammar.closed] at hproblems
    cases hproblems
  · rw [dif_pos grammar.start_defined]
    exact congrArg Except.ok (ext rfl rfl)

theorem of_make_eq_ok {start : String} {grammar : Grammar} (h : make start rules = .ok grammar) :
    grammar.rules = rules ∧ grammar.startSymbol = start := by
  unfold make at h
  split at h
  · cases h
  split at h
  · cases h
  split at h
  · obtain rfl := Except.ok.inj h
    exact ⟨rfl, rfl⟩
  · cases h

/-- The grammar of some rules has just them and starts from the first. -/
theorem ofRules_eq_ok_iff {grammar : Grammar} : ofRules rules = .ok grammar ↔
    grammar.rules = rules ∧ rules.names.head? = some grammar.startSymbol := by
  unfold ofRules
  cases hnames : rules.names with
  | nil => exact ⟨nofun, fun h => nomatch h.2⟩
  | cons first others =>
    rw [List.head?_cons, Option.some.injEq]
    constructor
    · intro h
      exact (of_make_eq_ok h).imp_right Eq.symm
    · rintro ⟨rfl, rfl⟩
      exact make_self grammar

/-- It takes some rules, and none with a problem, to make a grammar. -/
theorem exists_ofRules_iff :
    (∃ grammar, ofRules rules = .ok grammar) ↔ rules.entries ≠ [] ∧ rules.problems = [] := by
  simp only [ofRules_eq_ok_iff]
  constructor
  · rintro ⟨grammar, rfl, -⟩
    exact ⟨grammar.entries_ne_nil, grammar.closed⟩
  · intro h
    obtain ⟨hne, hproblems⟩ := h
    obtain ⟨first, others, hentries⟩ := List.exists_cons_of_ne_nil hne
    have hstart : rules.contains first.1 = true := by
      rw [Definitions.contains_iff, hentries]
      exact List.mem_cons_self
    let grammar : Grammar :=
      { startSymbol := first.1, rules, closed := hproblems, start_defined := hstart }
    refine ⟨grammar, rfl, ?_⟩
    rw [Definitions.names, hentries]
    rfl

end Grammar

end ContextFree
