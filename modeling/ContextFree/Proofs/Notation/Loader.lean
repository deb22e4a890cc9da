import ContextFree.Notation.Loader
import ContextFree.Proofs.Grammar.Basic
import ContextFree.Proofs.Notation.Rule

/-!
# What loads, and as which grammar

A text loads just if it has a rule line, every rule line reads as a rule, and every nonterminal
that is used is defined by one of them. The grammar is told by the rules of the lines alone: it
starts from the first, and gives each nonterminal the alternatives of its lines (`gather`). Where
the lines are, and what lines there are between them, makes no difference to it.

Both come from one equivalence (`load_eq_ok_iff`), which says of any grammar whether it is the one
that a text loads as. So does the law that a rule line may be cut in two at a bar (`load_cut`).
-/

namespace ContextFree.Notation

/-- The lines of a text that hold rules. -/
def ruleLines (text : List Char) : List (List Char) :=
  (Text.lines text).filter isRuleLine

/-- Lines read as rules, one by one. -/
def ReadAs (lines : List (List Char)) (rules : List (String × Alternatives String)) : Prop :=
  List.Forall₂ (fun line rule => ReadsAs line rule.1 rule.2) lines rules

variable {path path' name lhs : String} {firstLine firstLine' : Nat} {text text' : List Char}
  {grammar : Grammar} {rules : List (String × Alternatives String)}

/-! ## From rules to a grammar -/

/-- A rule without its location. -/
def Rule.entry (rule : Rule) : String × Alternatives String :=
  (rule.lhs, rule.alternatives)

theorem entries_collect (rules : List Rule) : (collect rules).entries =
    gather (rules.map fun rule => (rule.lhs, rule.alternatives.map (·, rule.location))) := by
  induction rules using List.reverseRecOn with
  | nil => rfl
  | append_singleton rules rule ih =>
    rw [List.map_append, List.map_singleton, gather_concat, ← ih, collect, List.foldl_append]
    rfl

/-- The rules by nonterminal, without their locations. -/
def ruleset (rules : List Rule) : Ruleset :=
  (collect rules).map fun alternatives => alternatives.map Prod.fst

theorem entries_ruleset (rules : List Rule) :
    (ruleset rules).entries = gather (rules.map Rule.entry) := by
  simp only [ruleset, Definitions.map, entries_collect, map_gather, List.map_map,
    Function.comp_def, List.map_id']
  rfl

theorem head?_names_ruleset (rules : List Rule) :
    (ruleset rules).names.head? = (rules.map Rule.lhs).head? := by
  rw [Definitions.names, entries_ruleset, head?_map_fst_gather, List.map_map]
  rfl

/-- The names are all defined just if the rules by nonterminal have one for each that is used. -/
theorem undefinedUses_eq_nil_iff {rules : List Rule} : undefinedUses (collect rules) = [] ↔
    ∀ entry ∈ (ruleset rules).entries, ∀ alternative ∈ entry.2,
      ∀ name, .nonterminal name ∈ alternative → (ruleset rules).contains name = true := by
  simp only [undefinedUses, List.flatMap_eq_nil_iff, List.filterMap_eq_nil_iff, List.mem_filterMap,
    ite_eq_left_iff, reduceCtorEq, imp_false, not_not]
  constructor
  · intro h entry hentry alternative halternative name hname
    obtain ⟨source, hsource, rfl⟩ := List.mem_map.mp hentry
    obtain ⟨given, hgiven, rfl⟩ := List.mem_map.mp halternative
    rw [ruleset, Definitions.contains_map]
    exact h source hsource given hgiven name ⟨.nonterminal name, hname, rfl⟩
  · rintro h source hsource ⟨alternative, location⟩ hgiven name ⟨symbol, hsymbol, hname⟩
    have hentry : (source.1, source.2.map Prod.fst) ∈ (ruleset rules).entries :=
      List.mem_map_of_mem hsource
    rw [← Definitions.contains_map (fun alternatives => alternatives.map Prod.fst)]
    refine h _ hentry alternative (List.mem_map_of_mem hgiven) name ?_
    cases symbol with
    | terminal text => cases hname
    | nonterminal callee => exact Option.some.inj hname ▸ hsymbol

/-- Where rules have no problem, every nonterminal used in them is defined. -/
theorem undefinedUses_eq_nil_of_problems {rules : List Rule} (h : (ruleset rules).problems = []) :
    undefinedUses (collect rules) = [] := by
  rw [undefinedUses_eq_nil_iff]
  intro entry hentry alternative halternative name hname
  exact (Definitions.problems_eq_nil_iff.mp h entry hentry alternative halternative _ hname).2 name rfl

/-- Some rules make a grammar just if it has what they give and starts from the first of them. -/
theorem ofRules_eq_ok_iff {rules : List Rule} : ofRules path rules = .ok grammar ↔
    grammar.rules.entries = gather (rules.map Rule.entry) ∧
      (rules.map Rule.lhs).head? = some grammar.startSymbol := by
  have hmake : Grammar.ofRules (ruleset rules) = .ok grammar ↔
      grammar.rules.entries = gather (rules.map Rule.entry) ∧
        (rules.map Rule.lhs).head? = some grammar.startSymbol := by
    rw [Grammar.ofRules_eq_ok_iff, head?_names_ruleset, ← entries_ruleset]
    exact and_congr_left' ⟨congrArg _, Definitions.ext⟩
  rw [← hmake]
  simp only [ofRules]
  constructor
  · intro h
    split at h
    · split at h
      · next made hmade =>
        obtain rfl := Except.ok.inj h
        exact hmade
      · cases h
      · cases h
    · cases h
  · intro h
    have hrules := (Grammar.ofRules_eq_ok_iff.mp h).1
    rw [undefinedUses_eq_nil_of_problems (hrules ▸ grammar.closed), ← ruleset, h]

/-- Where a name is not defined, its uses are all that is reported. -/
theorem ofRules_of_undefined {rules : List Rule} (h : undefinedUses (collect rules) ≠ []) :
    ofRules path rules = .error (undefinedUses (collect rules)) := by
  unfold ofRules
  dsimp only
  split
  · next hnone => exact absurd hnone h
  · rfl

/-! ## From a text to rules -/

/-- The rule lines of a text with their numbers. -/
def numberedRuleLines (firstLine : Nat) (text : List Char) : List (Nat × List Char) :=
  ((Text.lines text).zipIdx.filter fun line => isRuleLine line.1).map fun line =>
    (lineNumber firstLine line.2, line.1)

theorem map_snd_numberedRuleLines (firstLine : Nat) (text : List Char) :
    (numberedRuleLines firstLine text).map Prod.snd = ruleLines text := by
  have hlines := List.zipIdx_map_fst 0 (Text.lines text)
  rw [ruleLines, ← hlines, List.filter_map, numberedRuleLines, List.map_map]
  rfl

theorem filter_isKept_numberFrom (firstLine : Nat) (text : List Char) :
    (numberFrom firstLine ((Text.lines text).map .ok)).filter isKept =
      (numberedRuleLines firstLine text).map fun line => (line.1, .ok line.2) := by
  simp only [numberFrom, numberedRuleLines, List.zipIdx_map, List.map_map, List.filter_map]
  rfl

/-- What the rule lines of a text are parsed as, each at its number. -/
def parsedLines (path : String) (firstLine : Nat) (text : List Char) :
    List (Except (Located LoadError) Rule) :=
  (numberedRuleLines firstLine text).map fun line => parseLine ⟨path, line.1⟩ line.2

/-- Errors of lines come before anything else. -/
theorem ofLines_eq (path : String) {lines : List NumberedLine}
    {parsed : List (Except (Located LoadError) Rule)}
    (h : (lines.filter isKept).map (parseNumbered path) = parsed) : ofLines path lines =
      if errorsOf parsed = [] then ofRules path (valuesOf parsed) else .error (errorsOf parsed) := by
  simp only [ofLines, h]
  split
  · next hnone => rw [if_pos hnone]
  · next hsome => rw [if_neg hsome]

theorem load_eq (path : String) (firstLine : Nat) (text : List Char) : load path firstLine text =
    if errorsOf (parsedLines path firstLine text) = [] then
      ofRules path (valuesOf (parsedLines path firstLine text))
    else .error (errorsOf (parsedLines path firstLine text)) := by
  apply ofLines_eq
  rw [filter_isKept_numberFrom, List.map_map]
  rfl

/-- The grammar of a text is that of the rules of its rule lines. -/
theorem load_eq_ok_iff_exists_parsed : load path firstLine text = .ok grammar ↔
    ∃ parsed, List.Forall₂ (fun line rule => parseLine ⟨path, line.1⟩ line.2 = .ok rule)
      (numberedRuleLines firstLine text) parsed ∧ ofRules path parsed = .ok grammar := by
  rw [load_eq]
  constructor
  · intro h
    split at h
    · next hnone => exact ⟨_, errorsOf_map_eq_nil_iff.mp ⟨hnone, rfl⟩, h⟩
    · cases h
  · rintro ⟨parsed, hparsed, h⟩
    obtain ⟨hnone, rfl⟩ := errorsOf_map_eq_nil_iff.mpr hparsed
    exact (if_pos hnone).trans h

/-- Lines read as rules just if these are found at them, whatever the numbers of the lines. -/
theorem readAs_iff_exists_parsed (path : String) {numbered : List (Nat × List Char)} :
    ReadAs (numbered.map Prod.snd) rules ↔ ∃ parsed : List Rule, parsed.map Rule.entry = rules ∧
      List.Forall₂ (fun line rule => parseLine ⟨path, line.1⟩ line.2 = .ok rule) numbered parsed := by
  simp only [parseLine_eq_ok_iff]
  constructor
  · intro h
    induction numbered generalizing rules with
    | nil =>
      obtain rfl := List.forall₂_nil_left_iff.mp h
      exact ⟨[], rfl, .nil⟩
    | cons line numbered ih =>
      obtain ⟨rule, others, hrule, hothers, rfl⟩ := List.forall₂_cons_left_iff.mp h
      obtain ⟨parsed, rfl, hparsed⟩ := ih hothers
      exact ⟨⟨rule.1, rule.2, path, line.1⟩ :: parsed, rfl, .cons ⟨hrule, rfl⟩ hparsed⟩
  · rintro ⟨parsed, rfl, hparsed⟩
    rw [ReadAs, List.forall₂_map_left_iff, List.forall₂_map_right_iff]
    exact hparsed.imp fun _ _ h => h.1

/-- Which grammar a text loads as is told by what its rule lines read as. -/
theorem load_eq_ok_iff : load path firstLine text = .ok grammar ↔
    ∃ rules, ReadAs (ruleLines text) rules ∧ grammar.rules.entries = gather rules ∧
      (rules.map Prod.fst).head? = some grammar.startSymbol := by
  rw [load_eq_ok_iff_exists_parsed, ← map_snd_numberedRuleLines firstLine text]
  simp only [readAs_iff_exists_parsed path, ofRules_eq_ok_iff]
  constructor
  · rintro ⟨parsed, hparsed, hentries, hstart⟩
    refine ⟨_, ⟨parsed, rfl, hparsed⟩, hentries, ?_⟩
    rw [List.map_map]
    exact hstart
  · rintro ⟨_, ⟨parsed, rfl, hparsed⟩, hentries, hstart⟩
    refine ⟨parsed, hparsed, hentries, ?_⟩
    rw [List.map_map] at hstart
    exact hstart

/-! ## The texts that load -/

/-- Every nonterminal that is used in some rules is on the left of one of them. -/
def AllDefined (rules : List (String × Alternatives String)) : Prop :=
  ∀ lhs alternatives, (lhs, alternatives) ∈ rules → ∀ alternative ∈ alternatives,
    ∀ name, .nonterminal name ∈ alternative → ∃ alternatives', (name, alternatives') ∈ rules

/-- Rules that lines read as give a ruleset, whose only problem could be a name without a rule. -/
theorem ReadAs.exists_ruleset (h : ReadAs (ruleLines text) rules) (hdefined : AllDefined rules) :
    ∃ made : Ruleset, made.entries = gather rules ∧ made.problems = [] := by
  have hnames := map_fst_gather rules
  have hnodup : ((gather rules).map Prod.fst).Nodup := hnames ▸ nodup_eraseDups _
  refine ⟨⟨gather rules, hnodup⟩, rfl, Definitions.problems_eq_nil_iff.mpr ?_⟩
  rintro ⟨lhs, alternatives⟩ hentry alternative halternative symbol hsymbol
  obtain ⟨given, hgiven, hmem⟩ := exists_mem_gather_iff.mp ⟨alternatives, hentry, halternative⟩
  obtain ⟨line, -, hread⟩ := exists_of_mem_right h hgiven
  refine ⟨(hread.writable hmem symbol hsymbol).ne_empty, ?_⟩
  rintro name rfl
  obtain ⟨alternatives', hrule⟩ := hdefined lhs given hgiven alternative hmem name hsymbol
  rw [Definitions.contains_iff, hnames, List.mem_eraseDups]
  exact List.mem_map_of_mem hrule

/-- Rules that lines read as give a grammar if there are any and they define what they use. -/
theorem ReadAs.exists_grammar (h : ReadAs (ruleLines text) rules) (hne : rules ≠ [])
    (hdefined : AllDefined rules) : ∃ grammar : Grammar,
      grammar.rules.entries = gather rules ∧
        (rules.map Prod.fst).head? = some grammar.startSymbol := by
  obtain ⟨made, hentries, hproblems⟩ := h.exists_ruleset hdefined
  have hsome : made.entries ≠ [] := hentries ▸ gather_ne_nil hne
  obtain ⟨grammar, hgrammar⟩ := Grammar.exists_ofRules_iff.mpr ⟨hsome, hproblems⟩
  obtain ⟨rfl, hstart⟩ := Grammar.ofRules_eq_ok_iff.mp hgrammar
  refine ⟨grammar, hentries, ?_⟩
  rw [← hstart, Definitions.names, hentries, head?_map_fst_gather]

end ContextFree.Notation
