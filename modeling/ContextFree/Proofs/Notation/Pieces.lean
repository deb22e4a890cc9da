import ContextFree.Proofs.Notation.Lexeme

/-!
# Lines read in pieces

Outside of quotes a line can be cut anywhere at what separates: at white space, at a bar, at an arrow,
even one that is glued to words, and at a quoted terminal. Each side of the cut is then read on its own
and the separator stands for its own lexemes in between. What has no separator in it is one lexeme.

This leaves nothing open. A line without such a cut is empty, has a quote that is never closed, or is a
piece (`exists_cut`), so the laws of `ReadsInPieces` are those of one reader only, and that reader is
`lex` (`readsInPieces_iff`).
-/

namespace ContextFree.Notation

/-- A text that separates what is on its sides in a line, and the lexemes that it stands for. -/
inductive Separates : List Char → List Lexeme → Prop where
  | whiteSpace {c : Char} (h : Text.isWhiteSpace c = true) : Separates [c] []
  | bar : Separates ['|'] [.bar]
  | arrow : Separates ['-', '>'] [.arrow]
  | quoted {text : List Char} (h : '"' ∉ text) :
      Separates ('"' :: text ++ ['"']) [.terminal (String.ofList text)]

/-- A text with nothing in it that separates. -/
structure IsPiece (text : List Char) : Prop where
  ne_nil : text ≠ []
  plain : ∀ c ∈ text, Text.isWhiteSpace c = false ∧ c ≠ '|' ∧ c ≠ '"'
  no_arrow : ¬ ['-', '>'] <:+: text

/-- What a piece of a line stands for, which its text and its first character tell. -/
inductive StandsFor : List Char → Lexeme → Prop where
  | epsilon : StandsFor ['ε'] .epsilon
  | nonterminal {c : Char} (rest : List Char) (h : Text.isUppercase c = true) :
      StandsFor (c :: rest) (.nonterminal (String.ofList (c :: rest)))
  | terminal {c : Char} {rest : List Char} (h : Text.isUppercase c = false)
      (hepsilon : c :: rest ≠ ['ε']) :
      StandsFor (c :: rest) (.terminal (String.ofList (c :: rest)))

/-- Reading lines in pieces. The only error is that the quotes of a line do not pair up. Where they do
in front of a separator, the front is read on its own, and so is what comes after the separator. -/
structure ReadsInPieces (read : List Char → Except LoadError (List Lexeme)) : Prop where
  error_iff : ∀ line error, read line = .error error ↔
    error = .unmatchedQuote ∧ line.count '"' % 2 = 1
  empty : read [] = .ok []
  piece : ∀ text, IsPiece text → ∃ lexeme, read text = .ok [lexeme] ∧ StandsFor text lexeme
  separated : ∀ front, front.count '"' % 2 = 0 → ∃ left, read front = .ok left ∧
    ∀ between lexemes rest, Separates between lexemes →
      read (front ++ between ++ rest) = (read rest).map (left ++ lexemes ++ ·)

variable {c : Char} {text line rest front between : List Char} {lexeme lexeme' : Lexeme}
  {lexemes left : List Lexeme} {read read' : List Char → Except LoadError (List Lexeme)}

theorem isWordChar_iff :
    isWordChar c = true ↔ Text.isWhiteSpace c = false ∧ c ≠ '|' ∧ c ≠ '"' := by
  simp [isWordChar, and_assoc]

theorem StandsFor.unique (h : StandsFor text lexeme) (h' : StandsFor text lexeme') :
    lexeme = lexeme' := by
  cases h with
  | epsilon =>
    cases h' with
    | epsilon => rfl
    | nonterminal _ hname => exact absurd hname (by decide)
    | terminal _ hepsilon => exact absurd rfl hepsilon
  | nonterminal _ hname =>
    cases h' with
    | epsilon => exact absurd hname (by decide)
    | nonterminal => rfl
    | terminal hname' => exact absurd (hname'.symm.trans hname) (by decide)
  | terminal hname hepsilon =>
    cases h' with
    | epsilon => exact absurd rfl hepsilon
    | nonterminal _ hname' => exact absurd (hname.symm.trans hname') (by decide)
    | terminal => rfl

/-! ## What the reader makes of a cut -/

/-- A bare word that an arrow goes on is cut at the arrow, whatever comes after it. -/
theorem lex_append_arrow (h : lex line = .ok lexemes) (rest : List Char) :
    lex (line ++ '-' :: '>' :: rest) = (lex rest).map (lexemes ++ .arrow :: ·) := by
  obtain ⟨front, settled, word, rfl, hword, rfl, hfront⟩ := exists_last_word h
  let next := rest.takeWhile isWordChar
  let later := rest.dropWhile isWordChar
  have hnext : ∀ c ∈ next, isWordChar c = true := fun c hc => List.mem_takeWhile_imp hc
  have hlater : AtBoundary later := atBoundary_dropWhile rest
  have hrest : next ++ later = rest := List.takeWhile_append_dropWhile
  -- the arrow and the word after it make one word with what is in front of them
  have hglued : ∀ c ∈ word ++ '-' :: '>' :: next, isWordChar c = true := by
    refine List.forall_mem_append.mpr ⟨hword, ?_⟩
    exact List.forall_mem_cons.mpr ⟨by decide, List.forall_mem_cons.mpr ⟨by decide, hnext⟩⟩
  have hline : front ++ word ++ '-' :: '>' :: rest =
      front ++ (word ++ '-' :: '>' :: next ++ later) := by
    rw [← hrest]
    simp
  rw [hline, hfront, lex_word_append hglued hlater, wordLexemes_append_arrow, ← hrest,
    lex_word_append hnext hlater, map_map, map_map]
  simp [Function.comp_def]

/-- A line that is read is read up to a separator as it is on its own. -/
theorem lex_separated (h : lex line = .ok left) (hseparates : Separates between lexemes)
    (rest : List Char) :
    lex (line ++ between ++ rest) = (lex rest).map (left ++ lexemes ++ ·) := by
  cases hseparates with
  | @whiteSpace c hblank =>
    have hboundary : AtBoundary ([c] ++ rest) := atBoundary_cons (by simp [isWordChar, hblank])
    rw [List.append_assoc, lex_append h hboundary, List.singleton_append,
      lex_whiteSpace_cons hblank, List.append_nil]
  | bar =>
    have hboundary : AtBoundary (['|'] ++ rest) := atBoundary_cons (by decide)
    rw [List.append_assoc, lex_append h hboundary, List.singleton_append, lex_bar_cons, map_map]
    simp [Function.comp_def]
  | arrow =>
    rw [List.append_assoc]
    apply (lex_append_arrow h rest).trans
    simp
  | @quoted text hquote =>
    have hboundary : AtBoundary ('"' :: (text ++ '"' :: rest)) := atBoundary_cons (by decide)
    have hline : line ++ ('"' :: text ++ ['"']) ++ rest = line ++ '"' :: (text ++ '"' :: rest) := by
      simp
    rw [hline, lex_append h hboundary, lex_quote_append hquote, map_map]
    simp [Function.comp_def]

theorem standsFor_classify (hne : text ≠ []) : StandsFor text (classify text) := by
  obtain ⟨c, rest, rfl⟩ := List.exists_cons_of_ne_nil hne
  unfold classify
  by_cases hepsilon : c :: rest = ['ε']
  · rw [if_pos hepsilon, hepsilon]
    exact .epsilon
  rw [if_neg hepsilon]
  cases hname : Text.isUppercase c with
  | true =>
    rw [if_pos (show isNonterminalName (c :: rest) = true from hname)]
    exact .nonterminal rest hname
  | false =>
    rw [if_neg (Bool.eq_false_iff.mp (show isNonterminalName (c :: rest) = false from hname))]
    exact .terminal hname hepsilon

theorem lex_piece (h : IsPiece text) : lex text = .ok [classify text] := by
  have hword : ∀ c ∈ text, isWordChar c = true := fun c hc => isWordChar_iff.mpr (h.plain c hc)
  rw [lex_word hword, wordLexemes_of_no_arrow h.ne_nil h.no_arrow]

theorem exists_lex_of_even (h : line.count '"' % 2 = 0) : ∃ lexemes, lex line = .ok lexemes := by
  cases hlex : lex line with
  | ok lexemes => exact ⟨lexemes, rfl⟩
  | error error =>
    have hodd := (lex_eq_error_iff.mp hlex).2
    omega

/-! ## Where a line can be cut -/

/-- What no bare word goes on with separates, unless it is a quote that is never closed. -/
theorem exists_separates (hc : isWordChar c = false) (heven : (c :: rest).count '"' % 2 = 0) :
    ∃ between lexemes later, c :: rest = between ++ later ∧ Separates between lexemes := by
  by_cases hquote : c = '"'
  · subst hquote
    -- the quotes pair up, so another one comes after this one
    have hclosed : '"' ∈ rest := by
      rw [List.count_cons_self] at heven
      exact List.count_pos_iff.mp (by omega)
    obtain ⟨text, later, rfl, htext⟩ := List.eq_append_cons_of_mem hclosed
    exact ⟨_, _, later, by simp, .quoted htext⟩
  by_cases hbar : c = '|'
  · subst hbar
    exact ⟨_, _, rest, rfl, .bar⟩
  · have hblank : Text.isWhiteSpace c = true := by simpa [isWordChar, hbar, hquote] using hc
    exact ⟨[c], _, rest, rfl, .whiteSpace hblank⟩

/-- A bare word is empty, a piece, or cut by an arrow. -/
theorem word_cases (hword : ∀ c ∈ text, isWordChar c = true) :
    text = [] ∨ IsPiece text ∨ ∃ front rest, text = front ++ ['-', '>'] ++ rest := by
  by_cases hne : text = []
  · exact .inl hne
  by_cases harrow : ['-', '>'] <:+: text
  · obtain ⟨front, rest, heq⟩ := harrow
    exact .inr (.inr ⟨front, rest, heq.symm⟩)
  · exact .inr (.inl ⟨hne, fun c hc => isWordChar_iff.mp (hword c hc), harrow⟩)

theorem quote_not_mem_of_word (hword : ∀ c ∈ text, isWordChar c = true) : '"' ∉ text :=
  fun hmem => absurd (hword _ hmem) (by decide)

/-- A line whose quotes pair up is empty, a piece, or cut by a separator that has no open quote in
front of it. -/
theorem exists_cut (heven : line.count '"' % 2 = 0) : line = [] ∨ IsPiece line ∨
    ∃ front between lexemes rest, line = front ++ between ++ rest ∧ Separates between lexemes ∧
      front.count '"' % 2 = 0 := by
  have hword : ∀ c ∈ line.takeWhile isWordChar, isWordChar c = true :=
    fun c hc => List.mem_takeWhile_imp hc
  have hline : line.takeWhile isWordChar ++ line.dropWhile isWordChar = line :=
    List.takeWhile_append_dropWhile
  have hfront : (line.takeWhile isWordChar).count '"' = 0 :=
    List.count_eq_zero.mpr (quote_not_mem_of_word hword)
  cases hrest : line.dropWhile isWordChar with
  | nil =>
    rw [hrest, List.append_nil] at hline
    rw [hline] at hword
    rcases word_cases hword with hnil | hpiece | ⟨front, rest, rfl⟩
    · exact .inl hnil
    · exact .inr (.inl hpiece)
    · refine .inr (.inr ⟨front, _, _, rest, rfl, .arrow, ?_⟩)
      have hnone := quote_not_mem_of_word hword
      rw [List.append_assoc, List.mem_append, not_or] at hnone
      rw [List.count_eq_zero.mpr hnone.1]
  | cons c rest =>
    have hc : isWordChar c = false := Text.eq_false_of_dropWhile_eq_cons hrest
    have hrestEven : (c :: rest).count '"' % 2 = 0 := by
      rw [← hline, hrest, List.count_append, hfront, Nat.zero_add] at heven
      exact heven
    obtain ⟨between, lexemes, later, hcut, hseparates⟩ := exists_separates hc hrestEven
    refine .inr (.inr ⟨_, between, lexemes, later, ?_, hseparates, by rw [hfront]⟩)
    rw [List.append_assoc, ← hcut, ← hrest]
    exact hline.symm

theorem Separates.length_pos (h : Separates between lexemes) : 0 < between.length := by
  cases h <;> simp

/-- The laws of reading in pieces leave one result for each line. -/
theorem ReadsInPieces.unique (h : ReadsInPieces read) (h' : ReadsInPieces read')
    (line : List Char) : read line = read' line := by
  induction hlength : line.length using Nat.strongRecOn generalizing line with
  | ind _ ih =>
    by_cases heven : line.count '"' % 2 = 0
    · rcases exists_cut heven with rfl | hpiece | ⟨front, between, lexemes, rest, rfl, hcut, hfront⟩
      · rw [h.empty, h'.empty]
      · obtain ⟨lexeme, hread, hlexeme⟩ := h.piece line hpiece
        obtain ⟨lexeme', hread', hlexeme'⟩ := h'.piece line hpiece
        rw [hread, hread', hlexeme.unique hlexeme']
      · have hpos := hcut.length_pos
        rw [List.length_append, List.length_append] at hlength
        have hsameFront := ih front.length (by omega) front rfl
        have hsameRest := ih rest.length (by omega) rest rfl
        obtain ⟨left, hread, hseparated⟩ := h.separated front hfront
        obtain ⟨left', hread', hseparated'⟩ := h'.separated front hfront
        obtain rfl : left = left' := by
          rw [hread, hread'] at hsameFront
          exact Except.ok.inj hsameFront
        rw [hseparated _ _ _ hcut, hseparated' _ _ _ hcut, hsameRest]
    · have hodd : line.count '"' % 2 = 1 := by omega
      rw [(h.error_iff line _).mpr ⟨rfl, hodd⟩, (h'.error_iff line _).mpr ⟨rfl, hodd⟩]

theorem readsInPieces_lex : ReadsInPieces lex where
  error_iff _ _ := lex_eq_error_iff
  empty := lex_nil
  piece text h := ⟨classify text, lex_piece h, standsFor_classify h.ne_nil⟩
  separated front heven := by
    obtain ⟨left, hleft⟩ := exists_lex_of_even heven
    exact ⟨left, hleft, fun _ _ rest hcut => lex_separated hleft hcut rest⟩

/-- Lines are read in pieces, at every cut of every line, and no other reader does so: the laws say
which lexemes a line has, and when it has none. -/
theorem readsInPieces_iff : ReadsInPieces read ↔ read = lex := by
  constructor
  · intro h
    funext line
    exact h.unique readsInPieces_lex line
  · intro h
    rw [h]
    exact readsInPieces_lex

end ContextFree.Notation
