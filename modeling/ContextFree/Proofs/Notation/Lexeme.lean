import ContextFree.Notation.Lexeme
import ContextFree.Proofs.Results
import ContextFree.Proofs.Text
import Mathlib.Data.List.Infix
import Mathlib.Data.List.TakeWhile

/-!
# How a line falls into lexemes

A line is read from its front, and one equation for each way in which it can start says how:
`lex_whiteSpace_cons`, `lex_bar_cons`, `lex_quote_append` and `lex_word_append`. A bare word ends
where no further character belongs to it, so its equation holds at a boundary (`AtBoundary`).

A line is not read just if its quotes do not pair up (`lex_eq_error_iff`). One that is read does not
mind what comes after it, but for the bare word at its end, which may go on (`exists_last_word`); at a
boundary it does not (`lex_append`). So lines can be put together, with spaces or bars between them,
which is how a printer is shown to write what is read back.

In the other direction, the lexemes of a line are limited: what names a nonterminal is a word that
could be written bare (`IsName`), and no terminal has a quote (`wellFormed_of_lex`).
-/

namespace ContextFree.Notation

variable {c : Char} {word line text rest : List Char} {lexeme : Lexeme} {lexemes : List Lexeme}

/-! ## The front of a line -/

/-- No bare word goes on with what follows. -/
def AtBoundary (rest : List Char) : Prop :=
  ∀ c ∈ rest.head?, isWordChar c = false

theorem atBoundary_nil : AtBoundary [] :=
  fun _ h => absurd h (Option.not_mem_none _)

theorem atBoundary_cons (h : isWordChar c = false) : AtBoundary (c :: rest) :=
  fun _ hmem => Option.some.inj hmem ▸ h

theorem atBoundary_dropWhile (line : List Char) : AtBoundary (line.dropWhile isWordChar) := by
  intro c hc
  obtain ⟨later, hrest⟩ := List.head?_eq_some_iff.mp hc
  exact Text.eq_false_of_dropWhile_eq_cons hrest

@[simp] theorem lex_nil : lex [] = .ok [] := by
  rw [lex]

theorem lex_whiteSpace_cons (h : Text.isWhiteSpace c = true) : lex (c :: rest) = lex rest := by
  have hbar : c ≠ '|' := by
    rintro rfl
    exact absurd h (by decide)
  have hquote : c ≠ '"' := by
    rintro rfl
    exact absurd h (by decide)
  rw [lex, if_neg hbar, if_neg hquote, if_pos h]

theorem lex_bar_cons : lex ('|' :: rest) = (lex rest).map (Lexeme.bar :: ·) := by
  rw [lex, if_pos rfl]

/-- A quoted terminal is read as it stands. -/
theorem lex_quote_append (h : '"' ∉ text) : lex ('"' :: (text ++ '"' :: rest)) =
    (lex rest).map (Lexeme.terminal (String.ofList text) :: ·) := by
  have hinside : ∀ c ∈ text, (c != '"') = true := fun c hc => by
    rw [bne_iff_ne]
    exact fun heq => h (heq ▸ hc)
  have hdrop : (text ++ '"' :: rest).dropWhile (· != '"') = '"' :: rest := by
    rw [List.dropWhile_append_of_pos hinside]
    rfl
  have htake : (text ++ '"' :: rest).takeWhile (· != '"') = text := by
    rw [List.takeWhile_append_of_pos hinside]
    exact List.append_nil text
  rw [lex, if_neg (by decide), if_pos rfl]
  split
  · next hnil => exact absurd (hdrop.symm.trans hnil) (List.cons_ne_nil _ _)
  · next hcons =>
    obtain ⟨-, rfl⟩ := List.cons.inj (hdrop.symm.trans hcons)
    rw [htake]

theorem takeWhile_word_append (hword : ∀ c ∈ word, isWordChar c = true) (hrest : AtBoundary rest) :
    (word ++ rest).takeWhile isWordChar = word := by
  rw [List.takeWhile_append_of_pos hword]
  cases rest with
  | nil => exact List.append_nil word
  | cons c rest => rw [List.takeWhile_cons_of_neg (by simp [hrest c rfl]), List.append_nil]

theorem dropWhile_word_append (hword : ∀ c ∈ word, isWordChar c = true) (hrest : AtBoundary rest) :
    (word ++ rest).dropWhile isWordChar = rest := by
  rw [List.dropWhile_append_of_pos hword]
  cases rest with
  | nil => rfl
  | cons c rest => rw [List.dropWhile_cons_of_neg (by simp [hrest c rfl])]

/-- A bare word is read up to the next boundary. -/
theorem lex_word_append (hword : ∀ c ∈ word, isWordChar c = true) (hrest : AtBoundary rest) :
    lex (word ++ rest) = (lex rest).map (wordLexemes word ++ ·) := by
  cases word with
  | nil =>
    have hnone : wordLexemes [] = [] := by decide
    cases h : lex rest <;> simp [Except.map, hnone, h]
  | cons c word =>
    obtain ⟨hfirst, hothers⟩ := List.forall_mem_cons.mp hword
    have hbar : c ≠ '|' := by
      rintro rfl
      exact absurd hfirst (by decide)
    have hquote : c ≠ '"' := by
      rintro rfl
      exact absurd hfirst (by decide)
    have hblank : ¬ Text.isWhiteSpace c = true := by
      intro h
      simp [isWordChar, h] at hfirst
    rw [List.cons_append, lex, if_neg hbar, if_neg hquote, if_neg hblank,
      takeWhile_word_append hothers hrest, dropWhile_word_append hothers hrest]

/-! ## Lines that are not read -/

/-- What does not fit a character is nowhere before the first place where it does not. -/
theorem count_takeWhile_eq_zero {p : Char → Bool} (h : p c = false) (text : List Char) :
    (text.takeWhile p).count c = 0 := by
  rw [List.count_eq_zero]
  intro hmem
  exact absurd (List.mem_takeWhile_imp hmem) (by simp [h])

theorem count_dropWhile {p : Char → Bool} (h : p c = false) (text : List Char) :
    (text.dropWhile p).count c = text.count c := by
  conv_rhs => rw [← List.takeWhile_append_dropWhile (p := p) (l := text), List.count_append]
  rw [count_takeWhile_eq_zero h, Nat.zero_add]

/-- Quotes are counted in and out: what is not read has an odd number of them. -/
theorem lex_eq_error_iff {error : LoadError} : lex line = .error error ↔
    error = .unmatchedQuote ∧ line.count '"' % 2 = 1 := by
  fun_induction lex line with
  | case1 => simp
  | case2 rest ih =>
    rw [map_eq_error_iff, ih, List.count_cons_of_ne (by decide)]
  | case3 rest hopen _ =>
    have hnone : rest.count '"' = 0 := by
      rw [← count_dropWhile (p := (· != '"')) (by decide) rest, hopen]
      rfl
    rw [List.count_cons_self, hnone]
    simp [eq_comm]
  | case4 rest last after hclosed _ ih =>
    have hlast : last = '"' := by simpa using Text.eq_false_of_dropWhile_eq_cons hclosed
    have hcount : rest.count '"' = after.count '"' + 1 := by
      rw [← count_dropWhile (p := (· != '"')) (by decide) rest, hclosed, hlast,
        List.count_cons_self]
    rw [map_eq_error_iff, ih, List.count_cons_self, hcount, Nat.add_assoc,
      Nat.add_mod_right]
  | case5 c rest _ hquote hblank ih =>
    rw [ih, List.count_cons_of_ne (by simpa [eq_comm] using hquote)]
  | case6 c rest hbar hquote hblank ih =>
    rw [map_eq_error_iff, ih, List.count_cons_of_ne (by simpa [eq_comm] using hquote),
      count_dropWhile (by decide)]

/-! ## Lines put together -/

variable {first second : List Char} {left right : List Lexeme}

/-- A line that is read has a bare word at its end, if an empty one. What stands in front of the word
is read on its own, whatever the line ends in. -/
theorem exists_last_word (h : lex line = .ok lexemes) :
    ∃ front settled word, line = front ++ word ∧ (∀ c ∈ word, isWordChar c = true) ∧
      lexemes = settled ++ wordLexemes word ∧
      ∀ rest, lex (front ++ rest) = (lex rest).map (settled ++ ·) := by
  fun_induction lex line generalizing lexemes with
  | case1 =>
    obtain rfl := Except.ok.inj h
    refine ⟨[], [], [], rfl, List.forall_mem_nil _, by decide, fun rest => ?_⟩
    exact (map_nil_append (lex rest)).symm
  | case2 after ih =>
    obtain ⟨later, hlater, rfl⟩ := map_eq_ok_iff.mp h
    obtain ⟨front, settled, word, rfl, hword, rfl, hfront⟩ := ih hlater
    refine ⟨'|' :: front, .bar :: settled, word, rfl, hword, rfl, fun rest => ?_⟩
    rw [List.cons_append, lex_bar_cons, hfront, map_map]
    rfl
  | case3 => cases h
  | case4 after last beyond hclosed _ ih =>
    obtain ⟨later, hlater, rfl⟩ := map_eq_ok_iff.mp h
    obtain ⟨front, settled, word, hbeyond, hword, rfl, hfront⟩ := ih hlater
    obtain rfl : last = '"' := by simpa using Text.eq_false_of_dropWhile_eq_cons hclosed
    have hinside : '"' ∉ after.takeWhile (· != '"') :=
      fun hmem => absurd (List.mem_takeWhile_imp hmem) (by decide)
    have hafter : after.takeWhile (· != '"') ++ '"' :: beyond = after := by
      rw [← hclosed]
      exact List.takeWhile_append_dropWhile
    refine ⟨'"' :: (after.takeWhile (· != '"') ++ '"' :: front), _ :: settled, word, ?_, hword, rfl,
      fun rest => ?_⟩
    · conv_lhs => rw [← hafter, hbeyond]
      simp
    · rw [List.cons_append, List.append_assoc, List.cons_append, lex_quote_append hinside, hfront,
        map_map]
      rfl
  | case5 c after _ _ hblank ih =>
    obtain ⟨front, settled, word, rfl, hword, rfl, hfront⟩ := ih h
    refine ⟨c :: front, settled, word, rfl, hword, rfl, fun rest => ?_⟩
    rw [List.cons_append, lex_whiteSpace_cons hblank, hfront]
  | case6 c after hbar hquote hblank ih =>
    obtain ⟨later, hlater, rfl⟩ := map_eq_ok_iff.mp h
    obtain ⟨front, settled, word, hafter, hword, rfl, hfront⟩ := ih hlater
    have hfirst : ∀ d ∈ c :: after.takeWhile isWordChar, isWordChar d = true := by
      refine List.forall_mem_cons.mpr ⟨?_, fun d hd => List.mem_takeWhile_imp hd⟩
      simp [isWordChar, hbar, hquote, hblank]
    have hline : c :: after = c :: after.takeWhile isWordChar ++ (front ++ word) := by
      rw [← hafter, List.cons_append, List.takeWhile_append_dropWhile]
    have hboundary : AtBoundary (front ++ word) := hafter ▸ atBoundary_dropWhile after
    cases front with
    | nil =>
      -- a word has just ended, so what is after it is no word, and the word that ended is the last
      obtain rfl : word = [] := by
        cases word with
        | nil => rfl
        | cons d word => cases (hboundary d rfl).symm.trans (hword d List.mem_cons_self)
      obtain rfl : settled = [] := by
        have hnone := hfront []
        rw [List.append_nil, lex_nil] at hnone
        simpa [Except.map] using hnone.symm
      refine ⟨[], [], c :: after.takeWhile isWordChar, ?_, hfirst, ?_, fun rest => ?_⟩
      · simpa using hline
      · exact List.append_nil _
      · exact (map_nil_append (lex rest)).symm
    | cons d front =>
      refine ⟨c :: after.takeWhile isWordChar ++ d :: front, _ ++ settled, word, ?_, hword,
        (List.append_assoc _ _ _).symm, fun rest => ?_⟩
      · rw [hline, List.append_assoc]
      · have hrest : AtBoundary (d :: front ++ rest) := atBoundary_cons (hboundary d rfl)
        rw [List.append_assoc, lex_word_append hfirst hrest, hfront, map_map]
        simp only [Function.comp_def, List.append_assoc]

/-- What follows a line at a boundary is read on its own. -/
theorem lex_append (h : lex line = .ok lexemes) (hrest : AtBoundary rest) :
    lex (line ++ rest) = (lex rest).map (lexemes ++ ·) := by
  obtain ⟨front, settled, word, rfl, hword, rfl, hfront⟩ := exists_last_word h
  rw [List.append_assoc, hfront, lex_word_append hword hrest, map_map]
  simp only [Function.comp_def, List.append_assoc]

theorem lex_append_of_ok (hfirst : lex first = .ok left) (hsecond : lex second = .ok right)
    (hboundary : AtBoundary second) : lex (first ++ second) = .ok (left ++ right) := by
  rw [lex_append hfirst hboundary, hsecond]
  rfl

theorem lex_word (hword : ∀ c ∈ word, isWordChar c = true) : lex word = .ok (wordLexemes word) := by
  have hlex := lex_word_append hword atBoundary_nil
  rw [List.append_nil, lex_nil] at hlex
  rw [hlex]
  exact congrArg Except.ok (List.append_nil _)

theorem lex_quoted (h : '"' ∉ text) :
    lex ('"' :: text ++ ['"']) = .ok [.terminal (String.ofList text)] := by
  have hlex : lex ('"' :: (text ++ '"' :: [])) = _ := lex_quote_append h
  rw [lex_nil] at hlex
  exact hlex

/-- White space at the end of a line is not read. -/
theorem lex_concat_whiteSpace (h : Text.isWhiteSpace c = true) (line : List Char) :
    lex (line ++ [c]) = lex line := by
  have hquote : c ≠ '"' := by
    rintro rfl
    exact absurd h (by decide)
  cases hline : lex line with
  | ok lexemes =>
    have hblank : lex [c] = .ok [] := by rw [lex_whiteSpace_cons h, lex_nil]
    rw [lex_append_of_ok hline hblank (atBoundary_cons (by simp [isWordChar, h])), List.append_nil]
  | error error =>
    rw [lex_eq_error_iff] at hline ⊢
    rw [List.count_append, List.count_singleton, beq_false_of_ne hquote]
    exact hline

/-- Two lines with a space between them are read as the lexemes of both. -/
theorem lex_space (hfirst : lex first = .ok left) (hsecond : lex second = .ok right) :
    lex (first ++ ' ' :: second) = .ok (left ++ right) := by
  refine lex_append_of_ok hfirst ?_ (atBoundary_cons (by decide))
  rw [lex_whiteSpace_cons (by decide), hsecond]

/-- Two lines with a bar between them are read as the lexemes of both and a bar between them. -/
theorem lex_bar (hfirst : lex first = .ok left) (hsecond : lex second = .ok right) :
    lex (first ++ '|' :: second) = .ok (left ++ .bar :: right) := by
  refine lex_append_of_ok hfirst ?_ (atBoundary_cons (by decide))
  rw [lex_bar_cons, hsecond]
  rfl

/-- Texts with spaces between them are read as their lexemes. -/
theorem lex_spaces {α : Type} {write : α → List Char} {read : α → Lexeme} {xs : List α}
    (h : ∀ x ∈ xs, lex (write x) = .ok [read x]) :
    lex ([' '].intercalate (xs.map write)) = .ok (xs.map read) := by
  induction xs with
  | nil => exact lex_nil
  | cons x rest ih =>
    obtain ⟨hfirst, hothers⟩ := List.forall_mem_cons.mp h
    cases rest with
    | nil => simpa using hfirst
    | cons y rest =>
      rw [List.map_cons, List.map_cons, List.intercalate_cons_cons, List.append_assoc,
        List.singleton_append]
      exact lex_space hfirst (ih hothers)

/-- Texts with bars between them are read as their lexemes with bars between them. -/
theorem lex_bars {α : Type} {write : α → List Char} {read : α → List Lexeme} {xs : List α}
    (h : ∀ x ∈ xs, lex (write x) = .ok (read x)) :
    lex (" | ".toList.intercalate (xs.map write)) = .ok ([.bar].intercalate (xs.map read)) := by
  induction xs with
  | nil => exact lex_nil
  | cons x rest ih =>
    obtain ⟨hfirst, hothers⟩ := List.forall_mem_cons.mp h
    cases rest with
    | nil => simpa using hfirst
    | cons y rest =>
      have hbar := lex_bar (lex_space hfirst lex_nil) (lex_space lex_nil (ih hothers))
      rw [List.map_cons, List.map_cons, List.map_cons, List.map_cons, List.intercalate_cons_cons,
        List.intercalate_cons_cons]
      simpa using hbar

/-! ## Arrows inside words -/

theorem splitArrows_ne_nil (word : List Char) : splitArrows word ≠ [] := by
  fun_induction splitArrows word with
  | case1 => exact List.cons_ne_nil _ _
  | case2 => exact List.cons_ne_nil _ _
  | case3 => exact List.cons_ne_nil _ _
  | case4 => exact List.cons_ne_nil _ _

/-- A character in front belongs to the first part, unless it starts an arrow. -/
theorem splitArrows_cons (h : ¬ ['-', '>'] <+: c :: word) :
    ∃ part parts, splitArrows word = part :: parts ∧
      splitArrows (c :: word) = (c :: part) :: parts := by
  obtain ⟨part, parts, hparts⟩ := List.exists_cons_of_ne_nil (splitArrows_ne_nil word)
  refine ⟨part, parts, hparts, ?_⟩
  rw [splitArrows, hparts]
  intro rest hc hword
  exact h ⟨rest, by rw [hc, hword]; rfl⟩

/-- A word is all in one part unless it has an arrow, and then it is in several. -/
theorem splitArrows_one_or_several (word : List Char) :
    ¬ ['-', '>'] <:+: word ∧ splitArrows word = [word] ∨
      ['-', '>'] <:+: word ∧ 1 < (splitArrows word).length := by
  induction word with
  | nil => exact .inl (by decide)
  | cons c word ih =>
    rw [List.infix_cons_iff]
    by_cases harrow : ['-', '>'] <+: c :: word
    · obtain ⟨rest, hrest⟩ := harrow
      refine .inr ⟨.inl ⟨rest, hrest⟩, ?_⟩
      rw [← hrest]
      exact Nat.succ_lt_succ (List.length_pos_of_ne_nil (splitArrows_ne_nil rest))
    · obtain ⟨part, parts, hword, hcons⟩ := splitArrows_cons harrow
      rw [hword] at ih
      rw [hcons]
      refine ih.imp (fun h => ⟨not_or.mpr ⟨harrow, h.1⟩, ?_⟩) (fun h => ⟨.inr h.1, h.2⟩)
      obtain ⟨rfl, rfl⟩ := List.cons.inj h.2
      rfl

theorem splitArrows_of_no_arrow (h : ¬ ['-', '>'] <:+: word) : splitArrows word = [word] :=
  ((splitArrows_one_or_several word).resolve_right fun hseveral => h hseveral.1).2

theorem one_lt_length_splitArrows_iff :
    1 < (splitArrows word).length ↔ ['-', '>'] <:+: word := by
  rcases splitArrows_one_or_several word with ⟨hnone, hone⟩ | ⟨hsome, hseveral⟩
  · simp [hone, hnone]
  · exact iff_of_true hseveral hsome

theorem prefix_of_splitArrows_eq_cons {part : List Char} {parts : List (List Char)}
    (h : splitArrows word = part :: parts) : part <+: word := by
  fun_induction splitArrows word generalizing part parts with
  | case1 =>
    obtain ⟨rfl, -⟩ := List.cons.inj h
    exact List.prefix_rfl
  | case2 =>
    obtain ⟨rfl, -⟩ := List.cons.inj h
    exact List.nil_prefix
  | case3 _ rest _ hnil => exact absurd hnil (splitArrows_ne_nil rest)
  | case4 c rest _ first others hothers ih =>
    obtain ⟨rfl, -⟩ := List.cons.inj h
    exact List.cons_prefix_cons.mpr ⟨rfl, ih hothers⟩

/-- The parts between arrows have no arrow, and no characters of their own. -/
theorem of_mem_splitArrows {part : List Char} (h : part ∈ splitArrows word) :
    ¬ ['-', '>'] <:+: part ∧ ∀ c ∈ part, c ∈ word := by
  fun_induction splitArrows word generalizing part with
  | case1 =>
    obtain rfl := List.mem_singleton.mp h
    exact ⟨by decide, List.forall_mem_nil _⟩
  | case2 rest ih =>
    rcases List.mem_cons.mp h with rfl | h
    · exact ⟨by decide, List.forall_mem_nil _⟩
    · obtain ⟨harrow, hmem⟩ := ih h
      exact ⟨harrow, fun c hc => List.mem_cons_of_mem _ (List.mem_cons_of_mem _ (hmem c hc))⟩
  | case3 c rest _ hnil => exact absurd hnil (splitArrows_ne_nil rest)
  | case4 c rest hnotArrow first others hothers ih =>
    rw [hothers] at ih
    rcases List.mem_cons.mp h with rfl | h
    · obtain ⟨harrow, hmem⟩ := ih List.mem_cons_self
      refine ⟨?_, List.forall_mem_cons.mpr
        ⟨List.mem_cons_self, fun c hc => List.mem_cons_of_mem _ (hmem c hc)⟩⟩
      rw [List.infix_cons_iff, not_or]
      refine ⟨fun hprefix => ?_, harrow⟩
      -- an arrow at the front would have been cut out, as the first part starts as the word does
      obtain ⟨rfl, hsecond⟩ := List.cons_prefix_cons.mp hprefix
      obtain ⟨later, rfl⟩ := hsecond.trans (prefix_of_splitArrows_eq_cons hothers)
      exact hnotArrow later rfl rfl
    · obtain ⟨harrow, hmem⟩ := ih (List.mem_cons_of_mem _ h)
      exact ⟨harrow, fun c hc => List.mem_cons_of_mem _ (hmem c hc)⟩

theorem wordLexemes_of_no_arrow (hne : word ≠ []) (h : ¬ ['-', '>'] <:+: word) :
    wordLexemes word = [classify word] := by
  rw [wordLexemes, splitArrows_of_no_arrow h, List.map_singleton, if_neg hne,
    List.intercalate_singleton]

/-- An arrow cuts a word wherever it stands. -/
theorem splitArrows_append_arrow (word rest : List Char) :
    splitArrows (word ++ '-' :: '>' :: rest) = splitArrows word ++ splitArrows rest := by
  fun_induction splitArrows word with
  | case1 => rfl
  | case2 later ih => exact congrArg ([] :: ·) ih
  | case3 _ later _ hnil => exact absurd hnil (splitArrows_ne_nil later)
  | case4 c later hnotArrow first others hothers ih =>
    have harrow : ¬ ['-', '>'] <+: c :: (later ++ '-' :: '>' :: rest) := by
      intro hprefix
      obtain ⟨rfl, hsecond⟩ := List.cons_prefix_cons.mp hprefix
      cases later with
      | nil => exact absurd (List.cons_prefix_cons.mp hsecond).1 (by decide)
      | cons d later =>
        obtain ⟨rfl, -⟩ := List.cons_prefix_cons.mp hsecond
        exact hnotArrow later rfl rfl
    obtain ⟨part, parts, hparts, hcons⟩ := splitArrows_cons harrow
    rw [ih, hothers, List.cons_append] at hparts
    obtain ⟨rfl, rfl⟩ := List.cons.inj hparts
    exact hcons

theorem wordLexemes_append_arrow (word rest : List Char) :
    wordLexemes (word ++ '-' :: '>' :: rest) = wordLexemes word ++ .arrow :: wordLexemes rest := by
  unfold wordLexemes
  rw [splitArrows_append_arrow, List.map_append, Text.intercalate_append]
  · exact List.append_cons _ _ _ |>.symm
  · exact fun hnil => splitArrows_ne_nil word (List.map_eq_nil_iff.mp hnil)
  · exact fun hnil => splitArrows_ne_nil rest (List.map_eq_nil_iff.mp hnil)

/-- A word has lexemes, if only arrows. -/
theorem wordLexemes_ne_nil (h : word ≠ []) : wordLexemes word ≠ [] := by
  unfold wordLexemes
  rcases splitArrows_one_or_several word with ⟨-, hone⟩ | ⟨-, hseveral⟩
  · rw [hone, List.map_singleton, if_neg h]
    simp
  · obtain ⟨first, others, hparts⟩ := List.exists_cons_of_ne_nil (splitArrows_ne_nil word)
    obtain ⟨second, others, rfl⟩ : ∃ second rest, others = second :: rest := by
      refine List.exists_cons_of_ne_nil fun hnil => ?_
      rw [hparts, hnil] at hseveral
      exact absurd hseveral (Nat.lt_irrefl 1)
    rw [hparts, List.map_cons, List.map_cons, List.intercalate_cons_cons]
    simp

/-- The first lexeme of a word that starts with no arrow has the word's first character in front. -/
theorem wordLexemes_cons (h : ¬ ['-', '>'] <+: c :: word) :
    ∃ part later, wordLexemes (c :: word) = classify (c :: part) :: later := by
  obtain ⟨part, parts, -, hcons⟩ := splitArrows_cons h
  unfold wordLexemes
  rw [hcons, List.map_cons, if_neg (List.cons_ne_nil c part)]
  cases parts with
  | nil => exact ⟨part, [], rfl⟩
  | cons second parts =>
    rw [List.map_cons, List.intercalate_cons_cons, List.append_assoc]
    exact ⟨part, _, rfl⟩

/-! ## What a line's lexemes can be -/

/-- A word that names a nonterminal when it is written bare. -/
structure IsName (word : List Char) : Prop where
  uppercase : isNonterminalName word = true
  bare : ∀ c ∈ word, isWordChar c = true
  no_arrow : ¬ ['-', '>'] <:+: word

/-- What a lexeme of a line is like: its name can be written bare, or its text has no quote. -/
def Lexeme.WellFormed : Lexeme → Prop
  | .nonterminal name => IsName name.toList
  | .terminal text => '"' ∉ text.toList
  | _ => True

theorem wellFormed_classify (hbare : ∀ c ∈ word, isWordChar c = true)
    (harrow : ¬ ['-', '>'] <:+: word) : (classify word).WellFormed := by
  unfold classify
  split
  · trivial
  split
  · next hname =>
    simp only [Lexeme.WellFormed, String.toList_ofList]
    exact ⟨hname, hbare, harrow⟩
  · simp only [Lexeme.WellFormed, String.toList_ofList]
    exact fun hmem => absurd (hbare _ hmem) (by decide)

theorem wellFormed_wordLexemes (hbare : ∀ c ∈ word, isWordChar c = true) :
    ∀ lexeme ∈ wordLexemes word, lexeme.WellFormed := by
  intro lexeme hlexeme
  rcases Text.mem_intercalate hlexeme with harrow | ⟨lexemes, hlexemes, hmem⟩
  · obtain rfl := List.mem_singleton.mp harrow
    trivial
  · obtain ⟨part, hpart, rfl⟩ := List.mem_map.mp hlexemes
    obtain ⟨harrow, hchars⟩ := of_mem_splitArrows hpart
    split at hmem
    · exact absurd hmem List.not_mem_nil
    · obtain rfl := List.mem_singleton.mp hmem
      exact wellFormed_classify (fun c hc => hbare c (hchars c hc)) harrow

/-- Every lexeme of a line is well formed. -/
theorem wellFormed_of_lex (h : lex line = .ok lexemes) : ∀ lexeme ∈ lexemes, lexeme.WellFormed := by
  fun_induction lex line generalizing lexemes with
  | case1 =>
    obtain rfl := Except.ok.inj h
    exact List.forall_mem_nil _
  | case2 rest ih =>
    obtain ⟨later, hlater, rfl⟩ := map_eq_ok_iff.mp h
    exact List.forall_mem_cons.mpr ⟨trivial, ih hlater⟩
  | case3 => cases h
  | case4 rest _ after _ _ ih =>
    obtain ⟨later, hlater, rfl⟩ := map_eq_ok_iff.mp h
    refine List.forall_mem_cons.mpr ⟨?_, ih hlater⟩
    simp only [Lexeme.WellFormed, String.toList_ofList]
    exact fun hmem => absurd (List.mem_takeWhile_imp hmem) (by decide)
  | case5 _ _ _ _ _ ih => exact ih h
  | case6 c rest hbar hquote hblank ih =>
    obtain ⟨later, hlater, rfl⟩ := map_eq_ok_iff.mp h
    have hbare : ∀ d ∈ c :: rest.takeWhile isWordChar, isWordChar d = true := by
      refine List.forall_mem_cons.mpr ⟨?_, fun d hd => List.mem_takeWhile_imp hd⟩
      simp [isWordChar, hbar, hquote, hblank]
    exact List.forall_mem_append.mpr ⟨wellFormed_wordLexemes hbare, ih hlater⟩

end ContextFree.Notation
