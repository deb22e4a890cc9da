import ContextFree.Notation.Printer
import ContextFree.Proofs.Notation.Loader

/-!
# Reading back what is written

A grammar whose names can be written bare, with alternatives for each nonterminal and no quotes in
its terminals, is written as a text that loads again (`exists_load_written`). What has been loaded is
such a grammar. The grammar that comes back has the same rules but for its terminals: one that has
to be quoted comes back as its quoted form shows it (`reread`), escapes and all. So it is the same
just if no quoted terminal has a character that is escaped.

What it takes for a grammar to come back is collected in `ComesBack`. It is exact
(`load_written_iff`): as what has been loaded can be written, a grammar that comes back could be.
-/

namespace ContextFree.Notation

/-- The text that a terminal comes back as. -/
def reread (text : String) : String :=
  if needsQuotes text.toList then String.ofList (text.toList.flatMap Text.escape) else text

/-- The symbol that a symbol comes back as. -/
def rereadSymbol : Symbol String → Symbol String
  | .terminal text => .terminal (reread text)
  | .nonterminal name => .nonterminal name

/-- The alternatives that a nonterminal's come back as. -/
def rereadAlternatives (alternatives : Alternatives String) : Alternatives String :=
  alternatives.map fun alternative => alternative.map rereadSymbol

variable {word text : List Char} {lhs : String} {symbol : Symbol String}
  {alternative : Alternative String} {alternatives : Alternatives String} {grammar : Grammar}

/-! ## Symbols -/

/-- A name is read as a nonterminal. -/
theorem lex_name (h : IsName word) : lex word = .ok [.nonterminal (String.ofList word)] := by
  have hne : word ≠ [] := by
    rintro rfl
    cases h.uppercase
  have hepsilon : word ≠ ['ε'] := by
    rintro rfl
    exact absurd h.uppercase (by decide)
  rw [lex_word h.bare, wordLexemes_of_no_arrow hne h.no_arrow, classify, if_neg hepsilon,
    if_pos h.uppercase]

/-- A terminal is quoted if it would be the sign of the empty alternative, would come apart at an
arrow, or has a character that ends a word or makes a name. -/
theorem needsQuotes_iff : needsQuotes text = true ↔ text = ['ε'] ∨ ['-', '>'] <:+: text ∨
    ∃ c ∈ text, Text.isWhiteSpace c = true ∨ Text.isUppercase c = true ∨ c = '|' := by
  simp only [needsQuotes, Bool.or_eq_true, beq_iff_eq, decide_eq_true_eq,
    one_lt_length_splitArrows_iff, List.any_eq_true, or_assoc]

/-- What is written bare is a word that stands for a terminal. -/
theorem bare_of_needsQuotes_eq_false (h : needsQuotes text = false) (hquote : '"' ∉ text) :
    (∀ c ∈ text, isWordChar c = true) ∧ ¬ ['-', '>'] <:+: text ∧
      classify text = .terminal (String.ofList text) := by
  rw [← Bool.not_eq_true, needsQuotes_iff, not_or, not_or] at h
  obtain ⟨hepsilon, harrow, hchars⟩ := h
  have hplain : ∀ c ∈ text, ¬ Text.isWhiteSpace c ∧ ¬ Text.isUppercase c ∧ c ≠ '|' := by
    intro c hc
    exact ⟨fun hblank => hchars ⟨c, hc, .inl hblank⟩, fun hupper => hchars ⟨c, hc, .inr (.inl hupper)⟩,
      fun hbar => hchars ⟨c, hc, .inr (.inr hbar)⟩⟩
  refine ⟨fun c hc => ?_, harrow, ?_⟩
  · obtain ⟨hblank, -, hbar⟩ := hplain c hc
    have hc' : c ≠ '"' := fun heq => hquote (heq ▸ hc)
    simp [isWordChar, hblank, hc', hbar]
  · have hname : isNonterminalName text = false := by
      cases text with
      | nil => rfl
      | cons c rest => exact Bool.eq_false_iff.mpr (hplain c List.mem_cons_self).2.1
    rw [classify, if_neg hepsilon, hname]
    rfl

/-- What is written for a symbol is read as what the symbol comes back as. -/
theorem lex_symbolText (h : Writable symbol) :
    lex (symbolText symbol) = .ok [lexemeOf (rereadSymbol symbol)] := by
  cases symbol with
  | nonterminal name =>
    have hname := lex_name h.wellFormed
    rwa [String.ofList_toList] at hname
  | terminal text =>
    cases hquotes : needsQuotes text.toList with
    | true =>
      simp only [symbolText, rereadSymbol, reread, lexemeOf, hquotes, if_true]
      exact lex_quoted (Text.quote_not_mem_flatMap_escape h.wellFormed)
    | false =>
      simp only [symbolText, rereadSymbol, reread, lexemeOf, hquotes, Bool.false_eq_true, if_false]
      have hne : text.toList ≠ [] := by
        intro hnil
        exact h.ne_empty (congrArg Symbol.terminal (String.toList_eq_nil_iff.mp hnil))
      obtain ⟨hbare, harrow, hterminal⟩ := bare_of_needsQuotes_eq_false hquotes h.wellFormed
      rw [lex_word hbare, wordLexemes_of_no_arrow hne harrow, hterminal, String.ofList_toList]

/-- Only an empty terminal comes back empty. -/
theorem eq_empty_of_reread {text : String} (h : reread text = "") : text = "" := by
  unfold reread at h
  split at h
  · have hlength := Text.length_le_length_flatMap_escape text.toList
    rw [← String.toList_eq_nil_iff, String.toList_ofList] at h
    rw [h] at hlength
    exact String.toList_eq_nil_iff.mp (List.eq_nil_of_length_eq_zero (Nat.le_zero.mp hlength))
  · exact h

theorem rereadSymbol_ne_empty (h : symbol ≠ .terminal "") :
    rereadSymbol symbol ≠ .terminal "" := by
  cases symbol with
  | nonterminal name => exact nofun
  | terminal text =>
    intro heq
    exact h (congrArg Symbol.terminal (eq_empty_of_reread (Symbol.terminal.inj heq)))

theorem isWordChar_ne_break {c : Char} (h : isWordChar c = true) : c ≠ '\n' ∧ c ≠ '\r' := by
  constructor <;> rintro rfl <;> exact absurd h (by decide)

/-- A symbol is written in one line. -/
theorem unbroken_symbolText (h : Writable symbol) :
    Text.Unbroken (symbolText symbol) := by
  cases symbol with
  | nonterminal name => exact fun c hc => isWordChar_ne_break (IsName.bare h.wellFormed c hc)
  | terminal text =>
    unfold symbolText
    dsimp only
    split
    · exact Text.unbroken_quoted _
    · next hquotes =>
      have hbare := (bare_of_needsQuotes_eq_false (Bool.eq_false_iff.mpr hquotes) h.wellFormed).1
      exact fun c hc => isWordChar_ne_break (hbare c hc)

/-! ## Rules -/

/-- The lexemes that an alternative is written as. -/
def alternativeLexemes (alternative : Alternative String) : List Lexeme :=
  if alternative = [] then [.epsilon] else alternative.map lexemeOf

theorem spells_alternativeLexemes (h : .terminal "" ∉ alternative) :
    Spells (alternativeLexemes alternative) alternative := by
  unfold alternativeLexemes
  split
  · next hnil =>
    subst hnil
    exact .epsilon
  · exact .symbols h

theorem lex_alternativeText (h : ∀ symbol ∈ alternative, Writable symbol) :
    lex (alternativeText alternative) =
      .ok (alternativeLexemes (alternative.map rereadSymbol)) := by
  by_cases hnil : alternative = []
  · subst hnil
    exact lex_word (List.all_eq_true.mp (by decide))
  · have hnil' : alternative.map rereadSymbol ≠ [] := fun heq => hnil (List.map_eq_nil_iff.mp heq)
    rw [alternativeText, if_neg hnil, alternativeLexemes, if_neg hnil', List.map_map]
    exact lex_spaces fun symbol hsymbol => lex_symbolText (h symbol hsymbol)

/-- A rule as it is written, without the end of its line. -/
def ruleLine (lhs : String) (alternatives : Alternatives String) : List Char :=
  lhs.toList ++ " -> ".toList ++ " | ".toList.intercalate (alternatives.map alternativeText)

theorem empty_not_mem_of_mem_rereadAlternatives
    (h : ∀ alternative ∈ alternatives, ∀ symbol ∈ alternative, Writable symbol)
    (hmem : alternative ∈ rereadAlternatives alternatives) : .terminal "" ∉ alternative := by
  obtain ⟨original, horiginal, rfl⟩ := List.mem_map.mp hmem
  intro hempty
  obtain ⟨symbol, hsymbol, heq⟩ := List.mem_map.mp hempty
  exact rereadSymbol_ne_empty (h original horiginal symbol hsymbol).ne_empty heq

/-- The line of a rule reads as what the rule comes back as. -/
theorem readsAs_ruleLine (hname : IsName lhs.toList) (hne : alternatives ≠ [])
    (h : ∀ alternative ∈ alternatives, ∀ symbol ∈ alternative, Writable symbol) :
    ReadsAs (ruleLine lhs alternatives) lhs (rereadAlternatives alternatives) := by
  have hright : lex (" | ".toList.intercalate (alternatives.map alternativeText)) =
      .ok ([.bar].intercalate (alternatives.map fun alternative =>
        alternativeLexemes (alternative.map rereadSymbol))) :=
    lex_bars fun alternative hmem => lex_alternativeText (h alternative hmem)
  have harrow : lex "->".toList = .ok [.arrow] := lex_word (List.all_eq_true.mp (by decide))
  have hline := lex_space (lex_space (lex_name hname) harrow) hright
  have htext : lhs.toList ++ ' ' :: "->".toList ++
      ' ' :: " | ".toList.intercalate (alternatives.map alternativeText) =
        ruleLine lhs alternatives := by
    simp [ruleLine]
  rw [htext, String.ofList_toList] at hline
  refine ⟨(rereadAlternatives alternatives).map alternativeLexemes, ?_, ?_, ?_⟩
  · simpa [rereadAlternatives] using hne
  · rw [List.forall₂_map_left_iff, List.forall₂_same]
    exact fun alternative hmem =>
      spells_alternativeLexemes (empty_not_mem_of_mem_rereadAlternatives h hmem)
  · rw [rereadAlternatives, List.map_map]
    exact hline

/-- A rule is written in one line. -/
theorem unbroken_ruleLine (hname : IsName lhs.toList)
    (h : ∀ alternative ∈ alternatives, ∀ symbol ∈ alternative, Writable symbol) :
    Text.Unbroken (ruleLine lhs alternatives) := by
  have hlhs : Text.Unbroken lhs.toList := fun c hc => isWordChar_ne_break (hname.bare c hc)
  have harrow : Text.Unbroken " -> ".toList := Text.unbroken_of_all (by decide)
  have hbar : Text.Unbroken " | ".toList := Text.unbroken_of_all (by decide)
  refine (hlhs.append harrow).append (Text.unbroken_intercalate hbar ?_)
  intro text htext
  obtain ⟨alternative, hmem, rfl⟩ := List.mem_map.mp htext
  unfold alternativeText
  split
  · exact Text.unbroken_of_all (by decide)
  · refine Text.unbroken_intercalate (Text.unbroken_of_all (by decide)) ?_
    intro text htext
    obtain ⟨symbol, hsymbol, rfl⟩ := List.mem_map.mp htext
    exact unbroken_symbolText (h alternative hmem symbol hsymbol)

/-! ## Grammars -/

/-- A grammar can be written so that it loads again. -/
structure Loadable (grammar : Grammar) : Prop where
  isName : ∀ entry ∈ grammar.rules.entries, IsName entry.1.toList
  alternatives_ne_nil : ∀ entry ∈ grammar.rules.entries, entry.2 ≠ []
  quote_not_mem : ∀ text ∈ grammar.terminals, '"' ∉ text.toList

theorem Loadable.writable (h : Loadable grammar) :
    ∀ entry ∈ grammar.rules.entries,
      ∀ alternative ∈ entry.2, ∀ symbol ∈ alternative, Writable symbol := by
  intro entry hentry alternative halternative symbol hsymbol
  obtain ⟨hne, hdefined⟩ := Definitions.problems_eq_nil_iff.mp grammar.closed entry hentry
    alternative halternative symbol hsymbol
  refine ⟨hne, ?_⟩
  cases symbol with
  | terminal text =>
    exact h.quote_not_mem text (Grammar.mem_terminals_iff.mpr
      ⟨entry, hentry, alternative, halternative, hsymbol⟩)
  | nonterminal name =>
    have hcontains := Definitions.contains_iff.mp (hdefined name rfl)
    obtain ⟨rule, hrule, rfl⟩ := List.mem_map.mp hcontains
    exact h.isName rule hrule

/-- What has been loaded can be written so that it loads again, and starts from its first rule. -/
theorem loadable_of_load {path : String} {firstLine : Nat}
    (h : load path firstLine text = .ok grammar) :
    Loadable grammar ∧ grammar.rules.names.head? = some grammar.startSymbol := by
  obtain ⟨rules, hread, hentries, hstart⟩ := load_eq_ok_iff.mp h
  refine ⟨⟨?_, ?_, ?_⟩, ?_⟩
  · rintro ⟨name, alternatives⟩ hentry
    rw [hentries, mem_gather_iff] at hentry
    obtain ⟨rule, hrule, rfl⟩ := List.mem_map.mp hentry.1
    obtain ⟨line, -, hline⟩ := exists_of_mem_right hread hrule
    exact hline.isName
  · rintro ⟨name, alternatives⟩ hentry hnil
    obtain rfl : alternatives = [] := hnil
    rw [hentries] at hentry
    obtain ⟨⟨_, given⟩, hrule, rfl⟩ := List.mem_map.mp (mem_gather_iff.mp hentry).1
    obtain ⟨line, -, hline⟩ := exists_of_mem_right hread hrule
    obtain ⟨alternative, hmem⟩ := List.exists_mem_of_ne_nil given hline.alternatives_ne_nil
    obtain ⟨values, hvalues, hmem⟩ := exists_mem_gather_iff.mpr ⟨given, hrule, hmem⟩
    rw [(mem_gather_iff.mp hvalues).2, ← (mem_gather_iff.mp hentry).2] at hmem
    exact List.not_mem_nil hmem
  · intro text htext
    obtain ⟨⟨name, alternatives⟩, hentry, alternative, halternative, hsymbol⟩ :=
      Grammar.mem_terminals_iff.mp htext
    rw [hentries] at hentry
    obtain ⟨given, hrule, hmem⟩ := exists_mem_gather_iff.mp ⟨alternatives, hentry, halternative⟩
    obtain ⟨line, -, hline⟩ := exists_of_mem_right hread hrule
    exact (hline.writable hmem _ hsymbol).wellFormed
  · rw [Definitions.names, hentries, head?_map_fst_gather, hstart]

/-- The rules that a grammar's come back as. -/
def rereadRules (grammar : Grammar) : Ruleset :=
  grammar.rules.map rereadAlternatives

theorem problems_rereadRules (grammar : Grammar) : (rereadRules grammar).problems = [] := by
  rw [Definitions.problems_eq_nil_iff]
  intro entry hentry alternative halternative symbol hsymbol
  obtain ⟨original, horiginal, rfl⟩ := List.mem_map.mp hentry
  obtain ⟨written, hwritten, rfl⟩ := List.mem_map.mp halternative
  obtain ⟨symbol, hmem, rfl⟩ := List.mem_map.mp hsymbol
  obtain ⟨hne, hdefined⟩ := Definitions.problems_eq_nil_iff.mp grammar.closed original horiginal
    written hwritten symbol hmem
  refine ⟨rereadSymbol_ne_empty hne, fun name hname => ?_⟩
  rw [rereadRules, Definitions.contains_map]
  cases symbol with
  | terminal text => cases hname
  | nonterminal callee => exact hdefined name hname

/-- The rule lines of a written grammar are those of its rules. -/
theorem ruleLines_written (h : Loadable grammar) : ruleLines grammar.written.toList =
    grammar.rules.entries.map fun entry => ruleLine entry.1 entry.2 := by
  have htext : grammar.written.toList =
      (grammar.rules.entries.map fun entry => ruleLine entry.1 entry.2).flatMap (· ++ ['\n']) := by
    rw [Grammar.written, String.toList_ofList, List.flatMap_map]
    rfl
  have hunbroken : ∀ line ∈ grammar.rules.entries.map fun entry => ruleLine entry.1 entry.2,
      Text.Unbroken line := by
    intro line hline
    obtain ⟨entry, hentry, rfl⟩ := List.mem_map.mp hline
    exact unbroken_ruleLine (h.isName entry hentry) (h.writable entry hentry)
  rw [ruleLines, htext, Text.lines_flatMap hunbroken, List.filter_eq_self]
  intro line hline
  obtain ⟨entry, hentry, rfl⟩ := List.mem_map.mp hline
  exact (readsAs_ruleLine (h.isName entry hentry) (h.alternatives_ne_nil entry hentry)
    (h.writable entry hentry)).isRuleLine

/-- A grammar that can be written loads again, with the rules that its own come back as, and from
its first rule. -/
theorem exists_load_written (h : Loadable grammar) : ∃ again,
    loadString grammar.written = .ok again ∧ again.rules = rereadRules grammar ∧
      grammar.rules.names.head? = some again.startSymbol := by
  have hsome : (rereadRules grammar).entries ≠ [] :=
    fun hnil => grammar.entries_ne_nil (List.map_eq_nil_iff.mp hnil)
  obtain ⟨again, hagain⟩ := Grammar.exists_ofRules_iff.mpr ⟨hsome, problems_rereadRules grammar⟩
  obtain ⟨hrules, hstart⟩ := Grammar.ofRules_eq_ok_iff.mp hagain
  have hnames : (rereadRules grammar).names = grammar.rules.names := Definitions.names_map _ _
  refine ⟨again, load_eq_ok_iff.mpr ⟨(rereadRules grammar).entries, ?_, ?_, hstart⟩, hrules,
    hnames ▸ hstart⟩
  · rw [ruleLines_written h, ReadAs, rereadRules, Definitions.map, List.forall₂_map_left_iff,
      List.forall₂_map_right_iff, List.forall₂_same]
    exact fun entry hentry => readsAs_ruleLine (h.isName entry hentry)
      (h.alternatives_ne_nil entry hentry) (h.writable entry hentry)
  · rw [hrules]
    exact (gather_of_nodup (rereadRules grammar).names_nodup).symm

theorem reread_eq_self_iff {text : String} : reread text = text ↔
    (needsQuotes text.toList = true → ∀ c ∈ text.toList, Text.escape c = [c]) := by
  unfold reread
  split
  · next hquotes =>
    simp only [hquotes, true_implies, ← Text.flatMap_escape_eq_self_iff]
    constructor
    · intro h
      have htext := congrArg String.toList h
      rwa [String.toList_ofList] at htext
    · intro h
      rw [h, String.ofList_toList]
  · next hbare => simp [hbare]

theorem map_eq_self_iff {α : Type} {f : α → α} {xs : List α} :
    xs.map f = xs ↔ ∀ x ∈ xs, f x = x := by
  have hinj : xs.map f = xs.map id ↔ ∀ x ∈ xs, f x = id x := List.map_inj_left
  rwa [List.map_id] at hinj

/-- Alternatives come back as they are just if each terminal does. -/
theorem rereadAlternatives_eq_self_iff : rereadAlternatives alternatives = alternatives ↔
    ∀ alternative ∈ alternatives, ∀ text, .terminal text ∈ alternative → reread text = text := by
  simp only [rereadAlternatives, map_eq_self_iff]
  refine forall₂_congr fun alternative _ => ?_
  constructor
  · exact fun h text htext => Symbol.terminal.inj (h _ htext)
  · intro h symbol hsymbol
    cases symbol with
    | terminal text => exact congrArg Symbol.terminal (h text hsymbol)
    | nonterminal name => rfl

/-- What comes back is the grammar that was written just if each quoted terminal stands as it is. -/
theorem beq_iff_of_reread {again : Grammar} (hrules : again.rules = rereadRules grammar)
    (hstart : again.startSymbol = grammar.startSymbol) : (again == grammar) = true ↔
      ∀ text ∈ grammar.terminals, needsQuotes text.toList = true →
        ∀ c ∈ text.toList, Text.escape c = [c] := by
  have hsame : (again == grammar) = true ↔
      ∀ entry ∈ grammar.rules.entries, rereadAlternatives entry.2 = entry.2 := by
    show Grammar.agree again grammar = true ↔ _
    rw [Grammar.agree, hstart, beq_self_eq_true, Bool.true_and, hrules, rereadRules,
      Definitions.map_beq_iff]
  simp only [hsame, rereadAlternatives_eq_self_iff, reread_eq_self_iff, Grammar.mem_terminals_iff]
  constructor
  · rintro h text ⟨entry, hentry, alternative, halternative, htext⟩
    exact h entry hentry alternative halternative text htext
  · exact fun h entry hentry alternative halternative text htext =>
      h text ⟨entry, hentry, alternative, halternative, htext⟩

/-! ## Which grammars come back -/

/-- What it takes for a grammar to come back from its written form: it starts from its first rule,
each rule has an alternative, its names can be written bare, and its terminals have no quotes, nor
anything to be escaped where they have to be quoted. -/
structure ComesBack (grammar : Grammar) : Prop where
  starts_first : grammar.rules.names.head? = some grammar.startSymbol
  alternatives_ne_nil : ∀ entry ∈ grammar.rules.entries, entry.2 ≠ []
  uppercase : ∀ name ∈ grammar.rules.names,
    ∃ c rest, name.toList = c :: rest ∧ Text.isUppercase c = true
  unseparated : ∀ name ∈ grammar.rules.names, ∀ c ∈ name.toList,
    Text.isWhiteSpace c = false ∧ c ≠ '|' ∧ c ≠ '"'
  no_arrow : ∀ name ∈ grammar.rules.names, ¬ ['-', '>'] <:+: name.toList
  quote_not_mem : ∀ text ∈ grammar.terminals, '"' ∉ text.toList
  not_escaped : ∀ text ∈ grammar.terminals,
    (text.toList = ['ε'] ∨ ['-', '>'] <:+: text.toList ∨ ∃ c ∈ text.toList,
      Text.isWhiteSpace c = true ∨ Text.isUppercase c = true ∨ c = '|') →
    ∀ c ∈ text.toList, Text.escape c = [c]

/-- A name can be written bare if it starts with an uppercase character and nothing in it separates
words. -/
theorem isName_iff : IsName word ↔ (∃ c rest, word = c :: rest ∧ Text.isUppercase c = true) ∧
    (∀ c ∈ word, Text.isWhiteSpace c = false ∧ c ≠ '|' ∧ c ≠ '"') ∧ ¬ ['-', '>'] <:+: word := by
  have hfirst : isNonterminalName word = true ↔
      ∃ c rest, word = c :: rest ∧ Text.isUppercase c = true := by
    cases word <;> simp [isNonterminalName]
  have hchar : ∀ c, isWordChar c = true ↔ Text.isWhiteSpace c = false ∧ c ≠ '|' ∧ c ≠ '"' := by
    intro c
    simp only [isWordChar, Bool.and_eq_true, Bool.not_eq_true', bne_iff_ne, and_assoc]
  simp only [← hfirst, ← hchar]
  exact ⟨fun h => ⟨h.uppercase, h.bare, h.no_arrow⟩, fun h => ⟨h.1, h.2.1, h.2.2⟩⟩

/-- Whether a grammar can be written so that it loads again does not depend on the order of its
rules. -/
theorem Loadable.of_perm {other : Grammar} (h : Loadable grammar)
    (hperm : grammar.rules.entries.Perm other.rules.entries) : Loadable other where
  isName entry hentry := h.isName entry (hperm.mem_iff.mpr hentry)
  alternatives_ne_nil entry hentry := h.alternatives_ne_nil entry (hperm.mem_iff.mpr hentry)
  quote_not_mem text htext := by
    obtain ⟨entry, hentry, halternative⟩ := Grammar.mem_terminals_iff.mp htext
    exact h.quote_not_mem text (Grammar.mem_terminals_iff.mpr
      ⟨entry, hperm.mem_iff.mpr hentry, halternative⟩)

/-- A grammar comes back if it can be written so that it loads again, starts from its first rule, and
has nothing to be escaped in a quoted terminal. -/
theorem comesBack_iff : ComesBack grammar ↔ Loadable grammar ∧
    grammar.rules.names.head? = some grammar.startSymbol ∧
    ∀ text ∈ grammar.terminals, needsQuotes text.toList = true →
      ∀ c ∈ text.toList, Text.escape c = [c] := by
  simp only [needsQuotes_iff]
  constructor
  · intro h
    refine ⟨⟨?_, h.alternatives_ne_nil, h.quote_not_mem⟩, h.starts_first, h.not_escaped⟩
    intro entry hentry
    have hname : entry.1 ∈ grammar.rules.names := List.mem_map_of_mem hentry
    exact isName_iff.mpr ⟨h.uppercase _ hname, h.unseparated _ hname, h.no_arrow _ hname⟩
  · intro h
    obtain ⟨hloadable, hfirst, hescaped⟩ := h
    have hname : ∀ name ∈ grammar.rules.names, IsName name.toList := by
      intro name hmem
      obtain ⟨entry, hentry, rfl⟩ := List.mem_map.mp hmem
      exact hloadable.isName entry hentry
    exact
      { starts_first := hfirst
        alternatives_ne_nil := hloadable.alternatives_ne_nil
        uppercase := fun name hmem => (isName_iff.mp (hname name hmem)).1
        unseparated := fun name hmem => (isName_iff.mp (hname name hmem)).2.1
        no_arrow := fun name hmem => (isName_iff.mp (hname name hmem)).2.2
        quote_not_mem := hloadable.quote_not_mem
        not_escaped := hescaped }

/-- A grammar whose written form loads as the same grammar comes back: what has been loaded can be
written, and the same rules are loaded from what is written. -/
theorem comesBack_of_load {again : Grammar} (hload : loadString grammar.written = .ok again)
    (hsame : (again == grammar) = true) : ComesBack grammar := by
  obtain ⟨hstart, hperm⟩ := Grammar.beq_iff.mp hsame
  have hloadable : Loadable grammar := (loadable_of_load hload).1.of_perm hperm
  obtain ⟨other, hother, hrules, hfirst⟩ := exists_load_written hloadable
  obtain rfl : again = other := Except.ok.inj (hload.symm.trans hother)
  rw [hstart] at hfirst
  exact comesBack_iff.mpr ⟨hloadable, hfirst, (beq_iff_of_reread hrules hstart).mp hsame⟩

/-- A grammar that comes back loads from its written form, as the same grammar. -/
theorem ComesBack.exists_load (h : ComesBack grammar) :
    ∃ again, loadString grammar.written = .ok again ∧ (again == grammar) = true := by
  obtain ⟨hloadable, hfirst, hescaped⟩ := comesBack_iff.mp h
  obtain ⟨again, hload, hrules, hstart⟩ := exists_load_written hloadable
  have hsame : again.startSymbol = grammar.startSymbol :=
    Option.some.inj (hstart.symm.trans hfirst)
  exact ⟨again, hload, (beq_iff_of_reread hrules hsame).mpr hescaped⟩

/-- The grammars that load from their written form as the same grammar are those that start from
their first rule, with an alternative in each, bare names, and terminals that are quoted only where
the quoted form shows them as they are. -/
theorem load_written_iff (grammar : Grammar) :
    (∃ again, loadString grammar.written = .ok again ∧ (again == grammar) = true) ↔
      ComesBack grammar := by
  constructor
  · intro h
    obtain ⟨again, hload, hsame⟩ := h
    exact comesBack_of_load hload hsame
  · exact ComesBack.exists_load

/-! ## What comes back of a loaded grammar -/

/-- What has been loaded from a text loads again once it is written, and from the same start symbol.
It is the same grammar just if no terminal that has to be quoted has a character to be escaped. -/
theorem reload_written {text : String} (h : loadString text = .ok grammar) : ∃ again,
    loadString grammar.written = .ok again ∧ again.startSymbol = grammar.startSymbol ∧
      again.rules = rereadRules grammar ∧
      ((again == grammar) = true ↔ ∀ text ∈ grammar.terminals, needsQuotes text.toList = true →
        ∀ c ∈ text.toList, Text.escape c = [c]) := by
  obtain ⟨hloadable, hfirst⟩ := loadable_of_load h
  obtain ⟨again, hagain, hrules, hstart⟩ := exists_load_written hloadable
  have hsame : again.startSymbol = grammar.startSymbol :=
    Option.some.inj (hstart.symm.trans hfirst)
  exact ⟨again, hagain, hsame, hrules, beq_iff_of_reread hrules hsame⟩

/-- A grammar of one tab. -/
def tab : Grammar where
  startSymbol := "S"
  rules := ⟨[("S", [[.terminal "\t"]])], by decide⟩
  closed := by decide
  start_defined := by decide

/-- A grammar of a backslash and a letter, which is how a tab is escaped. -/
def spelledTab : Grammar where
  startSymbol := "S"
  rules := ⟨[("S", [[.terminal "\\t"]])], by decide⟩
  closed := by decide
  start_defined := by decide

theorem loadString_tab : loadString "S -> \"\t\"" = .ok tab := by
  have hlines : ruleLines "S -> \"\t\"".toList = ["S -> \"\t\"".toList] := by decide
  have hname : IsName ['S'] := ⟨by decide, List.all_eq_true.mp (by decide), by decide⟩
  have harrow : lex ['-', '>'] = .ok [.arrow] := lex_word (List.all_eq_true.mp (by decide))
  have htab : lex ['"', '\t', '"'] = .ok [.terminal "\t"] :=
    lex_quoted fun h => absurd (List.mem_singleton.mp h) (by decide)
  have hline := lex_space (lex_space (lex_name hname) harrow) htab
  have hspells : Spells ([Symbol.terminal "\t"].map lexemeOf) [.terminal "\t"] :=
    .symbols (by decide)
  have hreads : ReadsAs "S -> \"\t\"".toList "S" [[.terminal "\t"]] :=
    ⟨_, List.cons_ne_nil _ _, .cons hspells .nil, hline⟩
  refine load_eq_ok_iff.mpr ⟨[("S", [[.terminal "\t"]])], ?_, rfl, rfl⟩
  rw [hlines]
  exact .cons hreads .nil

/-- The grammar of one tab is loaded, and comes back as another. -/
theorem tab_comes_back_spelled : loadString "S -> \"\t\"" = .ok tab ∧
    loadString tab.written = .ok spelledTab ∧ (spelledTab == tab) = false := by
  obtain ⟨hloadable, -⟩ := loadable_of_load loadString_tab
  obtain ⟨again, hagain, hrules, hstart⟩ := exists_load_written hloadable
  have hspelled : again = spelledTab := by
    refine Grammar.ext (Option.some.inj (hstart.symm.trans rfl)) (hrules.trans ?_)
    exact Definitions.ext (by decide)
  exact ⟨loadString_tab, hspelled ▸ hagain, by decide⟩

/-- What comes back for the grammar of one tab is not the same, as a tab is escaped. -/
theorem tab_reloads : loadString "S -> \"\t\"" = .ok tab ∧
    ∃ again, loadString tab.written = .ok again ∧ again.startSymbol = "S" ∧
      ¬ (again == tab) = true := by
  obtain ⟨again, hagain, hstart, -, hsame⟩ := reload_written loadString_tab
  refine ⟨loadString_tab, again, hagain, hstart, ?_⟩
  rw [hsame]
  exact fun h => absurd (h "\t" (by decide) (by decide) '\t' (by decide)) (by decide)

end ContextFree.Notation
