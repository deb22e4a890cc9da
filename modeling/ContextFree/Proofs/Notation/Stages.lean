import ContextFree.Proofs.Notation.Fault
import ContextFree.Proofs.Notation.Loader

/-!
# What loading never reports

A text goes through several stages before it is a grammar: its rule lines fall into lexemes, the
lexemes into alternatives, names are checked line by line, and the rules that are left are checked
once more where the grammar is made. Each stage has an error for what the stage before should never
pass on (`Internal`), and whoever saw one would look for a mistake in the wrong place.

None of them is ever reported, as the stages agree (`stagesAgree`). The last two checks are made
apart and by different code. They come to the same for rules that were read off lines, since a line
with an empty terminal reads as no rule (`problems_ruleset_eq_nil_iff`).
-/

namespace ContextFree.Notation

/-- The errors that are about loading and not about what is loaded. -/
inductive Internal : LoadError → Prop where
  | invalidGrammar (cause : GrammarError) : Internal (.invalidGrammar cause)
  | unsplitAlternatives : Internal .unsplitAlternatives
  | unexpectedBlankLine : Internal .unexpectedBlankLine

/-- A rule that some line gives. -/
def Rule.IsParsed (rule : Rule) : Prop :=
  ∃ location line, parseLine location line = .ok rule

/-- What one stage of loading passes on, the next can take, so that none of them ever finds fault with
the stage before. -/
structure StagesAgree (path : String) : Prop where
  /-- A rule line that is read has lexemes. -/
  ne_nil_of_lex : ∀ line lexemes, isRuleLine line = true → lex line = .ok lexemes → lexemes ≠ []
  /-- No bar is left where lexemes are cut into alternatives. -/
  bar_not_mem : ∀ lexemes : List Lexeme, ∀ group ∈ lexemes.splitOn .bar, .bar ∉ group
  /-- The check of names line by line and the check of the whole come to the same. -/
  problems_iff : ∀ rules : List Rule, (∀ rule ∈ rules, rule.IsParsed) →
    ((ruleset rules).problems = [] ↔ undefinedUses (collect rules) = [])
  /-- Rules that pass make a grammar, and the first of them is for the start symbol. -/
  exists_grammar : ∀ rules : List Rule, (∀ rule ∈ rules, rule.IsParsed) → rules ≠ [] →
    undefinedUses (collect rules) = [] → ∃ grammar, Grammar.ofRules (ruleset rules) = .ok grammar ∧
      (rules.map Rule.lhs).head? = some grammar.startSymbol ∧
      (ruleset rules).contains grammar.startSymbol = true
  load : ∀ firstLine text errors, load path firstLine text = .error errors →
    ∀ located ∈ errors, ¬ Internal located.error
  loadFile : ∀ content errors, loadFile path content = .error errors →
    ∀ located ∈ errors, ¬ Internal located.error

variable {path : String} {line : List Char} {lexemes : List Lexeme} {place : Nat}
  {error : LoadError} {rules : List Rule} {lines : List NumberedLine}
  {located : Located LoadError} {errors : List (Located LoadError)}

/-! ## Errors of lines -/

theorem AtFault.not_internal (h : AtFault lexemes place error) : ¬ Internal error := by
  cases h with
  | arrow => exact nofun
  | epsilon => exact nofun
  | terminal => exact nofun

/-- The check that a rule line fails first is one of the line. -/
theorem FirstFault.not_internal (h : FirstFault line error) : ¬ Internal error := by
  cases h with
  | unmatchedQuote => exact nofun
  | missingNonterminal => exact nofun
  | missingArrow => exact nofun
  | leftmost _ hleftmost => exact hleftmost.1.not_internal

theorem not_internal_of_parseNumbered {line : NumberedLine} (hkept : isKept line = true)
    (h : parseNumbered path line = .error located) : ¬ Internal located.error := by
  obtain ⟨number, content⟩ := line
  cases content with
  | error fault =>
    obtain rfl := Except.error.inj h
    exact nofun
  | ok text => exact ((parseLine_eq_error_iff hkept).mp h).1.not_internal

theorem isParsed_of_parseNumbered {line : NumberedLine} {rule : Rule}
    (h : parseNumbered path line = .ok rule) : rule.IsParsed := by
  obtain ⟨number, content⟩ := line
  cases content with
  | error fault => cases h
  | ok text => exact ⟨⟨path, number⟩, text, h⟩

/-! ## The two checks on rules -/

/-- The alternatives that a line gives have no empty terminal. -/
theorem Rule.IsParsed.empty_not_mem {rule : Rule} (h : rule.IsParsed)
    {alternative : Alternative String} (hmem : alternative ∈ rule.alternatives) :
    .terminal "" ∉ alternative := by
  obtain ⟨location, line, hline⟩ := h
  have hreads := (parseLine_eq_ok_iff.mp hline).1
  exact fun hempty => (hreads.writable hmem _ hempty).ne_empty rfl

/-- Rules that lines give have no problem just if each name that is used is defined. -/
theorem problems_ruleset_eq_nil_iff (hparsed : ∀ rule ∈ rules, rule.IsParsed) :
    (ruleset rules).problems = [] ↔ undefinedUses (collect rules) = [] := by
  constructor
  · exact undefinedUses_eq_nil_of_problems
  · intro h
    rw [Definitions.problems_eq_nil_iff]
    intro entry hentry alternative halternative symbol hsymbol
    refine ⟨?_, ?_⟩
    · rintro rfl
      -- the alternative is one that some line gives, and that line has no empty terminal
      have hgathered : ∃ alternatives, (entry.1, alternatives) ∈ gather (rules.map Rule.entry) ∧
          alternative ∈ alternatives := ⟨entry.2, entries_ruleset rules ▸ hentry, halternative⟩
      obtain ⟨alternatives, hgiven, hmem⟩ := exists_mem_gather_iff.mp hgathered
      obtain ⟨rule, hrule, hsame⟩ := List.mem_map.mp hgiven
      obtain ⟨-, rfl⟩ := Prod.mk.inj hsame
      exact (hparsed rule hrule).empty_not_mem hmem hsymbol
    · rintro name rfl
      exact undefinedUses_eq_nil_iff.mp h entry hentry alternative halternative name hsymbol

/-- Rules that lines give make a grammar if there are any and each name that is used is defined. -/
theorem exists_ofRules_ruleset (hparsed : ∀ rule ∈ rules, rule.IsParsed) (hne : rules ≠ [])
    (h : undefinedUses (collect rules) = []) :
    ∃ grammar, Grammar.ofRules (ruleset rules) = .ok grammar := by
  apply Grammar.exists_ofRules_iff.mpr
  refine ⟨?_, (problems_ruleset_eq_nil_iff hparsed).mpr h⟩
  rw [entries_ruleset]
  exact gather_ne_nil fun hnil => hne (List.map_eq_nil_iff.mp hnil)

/-! ## Errors of whole texts -/

theorem error_of_mem_undefinedUses (h : located ∈ undefinedUses (collect rules)) :
    ∃ name, located.error = .undefinedNonterminal name := by
  simp only [undefinedUses, List.mem_flatMap, List.mem_filterMap] at h
  obtain ⟨_, -, _, -, name, -, hname⟩ := h
  by_cases hdefined : (collect rules).contains name = true
  · rw [if_pos hdefined] at hname
    cases hname
  · rw [if_neg hdefined] at hname
    exact ⟨name, congrArg Located.error (Option.some.inj hname).symm⟩

theorem not_internal_of_ofRules (hparsed : ∀ rule ∈ rules, rule.IsParsed)
    (h : ofRules path rules = .error errors) : ∀ located ∈ errors, ¬ Internal located.error := by
  intro located hlocated
  by_cases hdefined : undefinedUses (collect rules) = []
  · by_cases hne : rules = []
    · subst hne
      obtain rfl := Except.error.inj h
      obtain rfl := List.mem_singleton.mp hlocated
      exact nofun
    · obtain ⟨grammar, hgrammar⟩ := exists_ofRules_ruleset hparsed hne hdefined
      obtain ⟨hrules, hstart⟩ := Grammar.ofRules_eq_ok_iff.mp hgrammar
      have hok : ofRules path rules = .ok grammar := by
        rw [ofRules_eq_ok_iff, hrules, ← head?_names_ruleset]
        exact ⟨entries_ruleset rules, hstart⟩
      cases hok.symm.trans h
  · rw [ofRules_of_undefined hdefined] at h
    rw [← Except.error.inj h] at hlocated
    obtain ⟨name, hname⟩ := error_of_mem_undefinedUses hlocated
    rw [hname]
    exact nofun

theorem not_internal_of_ofLines (h : ofLines path lines = .error errors) :
    ∀ located ∈ errors, ¬ Internal located.error := by
  rw [ofLines_eq path rfl] at h
  split at h
  · refine not_internal_of_ofRules (fun rule hrule => ?_) h
    obtain ⟨line, -, hline⟩ := List.mem_map.mp (mem_valuesOf_iff.mp hrule)
    exact isParsed_of_parseNumbered hline
  · obtain rfl := Except.error.inj h
    intro located hlocated
    obtain ⟨line, hkept, hline⟩ := List.mem_map.mp (mem_errorsOf_iff.mp hlocated)
    exact not_internal_of_parseNumbered (List.mem_filter.mp hkept).2 hline

/-- The stages of loading agree on every text and every file, and no error of loading is one that finds
fault with them. -/
theorem stagesAgree (path : String) : StagesAgree path where
  ne_nil_of_lex _ _ := ne_nil_of_lex
  bar_not_mem _ _ := Text.not_mem_of_mem_splitOn
  problems_iff _ := problems_ruleset_eq_nil_iff
  exists_grammar rules hparsed hne hdefined := by
    obtain ⟨grammar, hgrammar⟩ := exists_ofRules_ruleset hparsed hne hdefined
    obtain ⟨hrules, hstart⟩ := Grammar.ofRules_eq_ok_iff.mp hgrammar
    rw [head?_names_ruleset] at hstart
    exact ⟨grammar, hgrammar, hstart, hrules ▸ grammar.start_defined⟩
  load _ _ _ := not_internal_of_ofLines
  loadFile content errors h := by
    cases content with
    | ok bytes => exact not_internal_of_ofLines h
    | error fault =>
      obtain rfl := Except.error.inj h
      intro located hlocated
      obtain rfl := List.mem_singleton.mp hlocated
      exact nofun

end ContextFree.Notation
