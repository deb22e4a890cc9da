import ContextFree.Notation.Rule
import ContextFree.Proofs.Notation.Lexeme
import ContextFree.Proofs.Text

/-!
# What a rule line says

`ReadsAs line lhs alternatives` is the notation of rule lines without its reader: the lexemes of the
line are a nonterminal, an arrow, and one group of lexemes for each alternative, with bars between
the groups. A group is a lone epsilon, or it is the symbols of its alternative one by one, none of
them an empty terminal (`Spells`). `parseLine` finds the rule of just these lines
(`parseLine_eq_ok_iff`), and each of them counts as a rule line (`ReadsAs.isRuleLine`).
-/

namespace ContextFree.Notation

/-- The lexeme that a symbol is read from. -/
def lexemeOf : Symbol String → Lexeme
  | .nonterminal name => .nonterminal name
  | .terminal text => .terminal text

/-- A symbol that can be on a rule line: a name that can be written bare, or a text without quotes,
and that not empty. -/
structure Writable (symbol : Symbol String) : Prop where
  ne_empty : symbol ≠ .terminal ""
  wellFormed : (lexemeOf symbol).WellFormed

/-- Lexemes spell an alternative. A lone epsilon spells the empty one, and so do no lexemes. -/
inductive Spells : List Lexeme → Alternative String → Prop where
  | epsilon : Spells [.epsilon] []
  | symbols {alternative : Alternative String} (nonempty : .terminal "" ∉ alternative) :
    Spells (alternative.map lexemeOf) alternative

/-- A line gives a nonterminal some alternatives. -/
def ReadsAs (line : List Char) (lhs : String) (alternatives : Alternatives String) : Prop :=
  ∃ groups : List (List Lexeme), groups ≠ [] ∧ List.Forall₂ Spells groups alternatives ∧
    lex line = .ok (.nonterminal lhs :: .arrow :: [.bar].intercalate groups)

variable {line : List Char} {lhs : String} {alternative : Alternative String}
  {alternatives : Alternatives String} {lexeme : Lexeme} {lexemes : List Lexeme}

/-! ## Alternatives -/

theorem symbolOf_eq_ok_iff {symbol : Symbol String} :
    symbolOf lexeme = .ok symbol ↔ symbol ≠ .terminal "" ∧ lexeme = lexemeOf symbol := by
  cases lexeme <;> cases symbol <;> simp [symbolOf, lexemeOf] <;> grind

theorem mapM_symbolOf_eq_ok_iff : lexemes.mapM symbolOf = .ok alternative ↔
    .terminal "" ∉ alternative ∧ lexemes = alternative.map lexemeOf := by
  rw [mapM_eq_ok_iff]
  simp only [symbolOf_eq_ok_iff]
  induction alternative generalizing lexemes with
  | nil => simp
  | cons symbol rest ih =>
    rw [List.forall₂_cons_right_iff]
    simp only [ih]
    grind

theorem alternativeOf_eq_ok_iff : alternativeOf lexemes = .ok alternative ↔
    Spells lexemes alternative := by
  unfold alternativeOf
  split
  · next hlone =>
    subst hlone
    constructor
    · intro h
      obtain rfl := Except.ok.inj h
      exact .epsilon
    · generalize hepsilon : [Lexeme.epsilon] = lexemes
      intro h
      cases h with
      | epsilon => rfl
      | @symbols alternative =>
        -- no symbol is read from an epsilon
        cases alternative with
        | nil => cases hepsilon
        | cons symbol rest => cases symbol <;> cases hepsilon
  · next hlone =>
    rw [mapM_symbolOf_eq_ok_iff]
    constructor
    · rintro ⟨hnonempty, rfl⟩
      exact .symbols hnonempty
    · intro h
      cases h with
      | epsilon => exact absurd rfl hlone
      | symbols hnonempty => exact ⟨hnonempty, rfl⟩

/-- No bar is left inside an alternative. -/
theorem Spells.bar_not_mem (h : Spells lexemes alternative) : Lexeme.bar ∉ lexemes := by
  cases h with
  | epsilon => decide
  | symbols =>
    intro hmem
    obtain ⟨symbol, -, hbar⟩ := List.mem_map.mp hmem
    cases symbol <;> cases hbar

theorem alternativesOf_eq_ok_iff : alternativesOf lexemes = .ok alternatives ↔
    ∃ groups : List (List Lexeme), groups ≠ [] ∧ List.Forall₂ Spells groups alternatives ∧
      lexemes = [.bar].intercalate groups := by
  simp only [alternativesOf, mapM_eq_ok_iff, alternativeOf_eq_ok_iff]
  constructor
  · intro h
    exact ⟨_, List.splitOn_ne_nil _ _, h, (List.intercalate_splitOn _).symm⟩
  · rintro ⟨groups, hne, h, rfl⟩
    have hbars : ∀ group ∈ groups, Lexeme.bar ∉ group := by
      intro group hgroup
      obtain ⟨i, hi, rfl⟩ := List.getElem_of_mem hgroup
      exact (h.get hi (h.length_eq ▸ hi)).bar_not_mem
    rwa [List.splitOn_intercalate _ hbars hne]

theorem lex_dropWhile_whiteSpace (line : List Char) :
    lex (line.dropWhile Text.isWhiteSpace) = lex line := by
  induction line with
  | nil => rfl
  | cons c rest ih =>
    rw [List.dropWhile_cons]
    split
    · next hblank => rw [ih, lex_whiteSpace_cons hblank]
    · rfl

/-- What makes a rule line is its first character that is not white space. -/
theorem isRuleLine_iff : isRuleLine line = true ↔
    ∃ c rest, line.dropWhile Text.isWhiteSpace = c :: rest ∧ c ≠ ';' := by
  unfold isRuleLine
  cases hline : line.dropWhile Text.isWhiteSpace with
  | nil =>
    rw [Text.trim_of_dropWhile_eq_nil hline]
    exact ⟨nofun, fun ⟨_, _, h, _⟩ => nomatch h⟩
  | cons c rest =>
    obtain ⟨rest', htrim⟩ := Text.trim_of_dropWhile_eq_cons hline
    rw [htrim]
    constructor
    · exact fun h => ⟨c, rest, rfl, bne_iff_ne.mp h⟩
    · rintro ⟨_, _, hcons, hne⟩
      obtain ⟨rfl, rfl⟩ := List.cons.inj hcons
      exact bne_iff_ne.mpr hne

theorem isRuleLine_concat_whiteSpace {c : Char} (h : Text.isWhiteSpace c = true)
    (line : List Char) : isRuleLine (line ++ [c]) = isRuleLine line := by
  rw [Bool.eq_iff_iff, isRuleLine_iff, isRuleLine_iff, List.dropWhile_append]
  cases hline : line.dropWhile Text.isWhiteSpace with
  | nil => simp [h]
  | cons first rest => simp

/-- A rule line that is read has lexemes. -/
theorem ne_nil_of_lex (hrule : isRuleLine line = true) (h : lex line = .ok lexemes) :
    lexemes ≠ [] := by
  obtain ⟨c, rest, hline, -⟩ := isRuleLine_iff.mp hrule
  have hblank : Text.isWhiteSpace c = false := Text.eq_false_of_dropWhile_eq_cons hline
  rw [← lex_dropWhile_whiteSpace, hline, lex, hblank] at h
  rintro rfl
  split at h
  · obtain ⟨_, -, hnil⟩ := map_eq_ok_iff.mp h
    exact List.cons_ne_nil _ _ hnil
  split at h
  · split at h
    · cases h
    · obtain ⟨_, -, hnil⟩ := map_eq_ok_iff.mp h
      exact List.cons_ne_nil _ _ hnil
  · obtain ⟨_, -, hnil⟩ := map_eq_ok_iff.mp h
    exact wordLexemes_ne_nil (List.cons_ne_nil _ _) (List.append_eq_nil_iff.mp hnil).1

/-- A line whose first lexeme names a nonterminal is a rule line. -/
theorem isRuleLine_of_lex (h : lex line = .ok (.nonterminal lhs :: lexemes)) :
    isRuleLine line = true := by
  rw [← lex_dropWhile_whiteSpace] at h
  rw [isRuleLine_iff]
  cases hline : line.dropWhile Text.isWhiteSpace with
  | nil =>
    rw [hline, lex_nil] at h
    cases h
  | cons c rest =>
    refine ⟨c, rest, rfl, ?_⟩
    rintro rfl
    -- the first lexeme of a comment would be a terminal
    have hnotArrow : ¬ ['-', '>'] <+: ';' :: rest.takeWhile isWordChar := by
      intro hprefix
      exact absurd (List.cons_prefix_cons.mp hprefix).1 (by decide)
    obtain ⟨part, later, hword⟩ := wordLexemes_cons hnotArrow
    have hterminal : classify (';' :: part) = .terminal (String.ofList (';' :: part)) := by
      have hname : isNonterminalName (';' :: part) = false := by
        show Text.isUppercase ';' = false
        decide
      rw [classify, if_neg (by simp), if_neg (by simp [hname])]
    rw [hline, lex, if_neg (by decide), if_neg (by decide), if_neg (by decide), hword,
      hterminal] at h
    obtain ⟨_, -, hcons⟩ := map_eq_ok_iff.mp h
    cases (List.cons.inj hcons).1

theorem ruleOf_eq_ok_iff : ruleOf lexemes = .ok (lhs, alternatives) ↔
    ∃ rest, lexemes = .nonterminal lhs :: .arrow :: rest ∧
      alternativesOf rest = .ok alternatives := by
  unfold ruleOf
  split
  · simp
  · simp [map_eq_ok_iff]
    grind
  · next hne => simp; grind
  · next hne => simp; grind

/-- A line comes to a rule just where it reads as one. -/
theorem lex_bind_ruleOf_eq_ok_iff :
    lex line >>= ruleOf = .ok (lhs, alternatives) ↔ ReadsAs line lhs alternatives := by
  simp only [bind_eq_ok_iff, ruleOf_eq_ok_iff, alternativesOf_eq_ok_iff]
  constructor
  · rintro ⟨_, hlex, _, rfl, groups, hne, hspells, rfl⟩
    exact ⟨groups, hne, hspells, hlex⟩
  · rintro ⟨groups, hne, hspells, hlex⟩
    exact ⟨_, hlex, _, rfl, groups, hne, hspells, rfl⟩

/-- The rule of a line is at the line's location. -/
theorem parseLine_eq_ok_iff {location : Location} {rule : Rule} :
    parseLine location line = .ok rule ↔
      ReadsAs line rule.lhs rule.alternatives ∧ rule.location = location := by
  rw [← lex_bind_ruleOf_eq_ok_iff]
  unfold parseLine
  split
  · next lhs alternatives h =>
    constructor
    · intro hrule
      obtain rfl := Except.ok.inj hrule
      exact ⟨h, rfl⟩
    · rintro ⟨hread, rfl⟩
      obtain ⟨rfl, rfl⟩ := Prod.mk.inj (Except.ok.inj (h.symm.trans hread))
      rfl
  · next h =>
    rw [h]
    exact ⟨nofun, fun hread => nomatch hread.1⟩

namespace ReadsAs

theorem unique {lhs' : String} {alternatives' : Alternatives String}
    (h : ReadsAs line lhs alternatives) (h' : ReadsAs line lhs' alternatives') :
    lhs = lhs' ∧ alternatives = alternatives' := by
  have hread := (lex_bind_ruleOf_eq_ok_iff.mpr h).symm.trans (lex_bind_ruleOf_eq_ok_iff.mpr h')
  exact Prod.mk.inj (Except.ok.inj hread)

theorem alternatives_ne_nil (h : ReadsAs line lhs alternatives) : alternatives ≠ [] := by
  obtain ⟨groups, hne, hspells, -⟩ := h
  rintro rfl
  exact hne (List.forall₂_nil_right_iff.mp hspells)

/-- The nonterminal of the line can be written bare. -/
theorem isName (h : ReadsAs line lhs alternatives) : IsName lhs.toList := by
  obtain ⟨groups, -, -, hlex⟩ := h
  exact wellFormed_of_lex hlex (.nonterminal lhs) List.mem_cons_self

/-- Each alternative is spelt by lexemes of the line. -/
theorem exists_spells (h : ReadsAs line lhs alternatives) (hmem : alternative ∈ alternatives) :
    ∃ group, Spells group alternative ∧ ∀ lexeme ∈ group, lexeme.WellFormed := by
  obtain ⟨groups, -, hspells, hlex⟩ := h
  obtain ⟨group, hgroup, hspell⟩ := exists_of_mem_right hspells hmem
  refine ⟨group, hspell, fun lexeme hlexeme => wellFormed_of_lex hlex lexeme ?_⟩
  have hin : lexeme ∈ [Lexeme.bar].intercalate groups :=
    (Text.infix_intercalate hgroup).subset hlexeme
  exact List.mem_cons_of_mem _ (List.mem_cons_of_mem _ hin)

/-- The symbols of the alternatives are such as can be on a line. -/
theorem writable (h : ReadsAs line lhs alternatives) (hmem : alternative ∈ alternatives) :
    ∀ symbol ∈ alternative, Writable symbol := by
  intro symbol hsymbol
  obtain ⟨group, hspell, hgroup⟩ := h.exists_spells hmem
  cases hspell with
  | epsilon => exact absurd hsymbol List.not_mem_nil
  | symbols hnonempty =>
    exact ⟨fun heq => hnonempty (heq ▸ hsymbol), hgroup _ (List.mem_map_of_mem hsymbol)⟩

/-- A line that reads as a rule is a rule line. -/
theorem isRuleLine (h : ReadsAs line lhs alternatives) : isRuleLine line = true := by
  obtain ⟨groups, -, -, hlex⟩ := h
  exact isRuleLine_of_lex hlex

end ReadsAs

end ContextFree.Notation
