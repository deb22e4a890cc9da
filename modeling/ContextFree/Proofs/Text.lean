import ContextFree.Text.Lines
import ContextFree.Text.Quoted
import ContextFree.Text.WhiteSpace
import Mathlib.Data.List.DropRight

/-!
# Trimmed, quoted and broken into lines

What the functions on texts do to texts in general. Trimming leaves the first character that is not
white space in front, and takes off no more than white space (`Trimmed.trim_append`). Lines that are
ended by line feeds are found again in the text that they make (`lines_flatMap_feed`). A quoted text
shows its characters just as they are if none of them has to be escaped, and never otherwise
(`flatMap_escape_eq_self_iff`); whatever it shows, no break is in it, and no quote that was not there
before.
-/

namespace ContextFree.Text

variable {c d : Char} {text rest : List Char}

/-! ## Trimming -/

theorem eq_false_of_dropWhile_eq_cons {α : Type} {p : α → Bool} {x : α} {xs ys : List α}
    (h : xs.dropWhile p = x :: ys) : p x = false := by
  have hhead := List.head?_dropWhile_not p xs
  rw [h] at hhead
  exact hhead

theorem trim_of_dropWhile_eq_nil (h : text.dropWhile isWhiteSpace = []) : trim text = [] := by
  rw [trim, h]
  rfl

/-- What is trimmed starts with the first character that is not white space. -/
theorem trim_of_dropWhile_eq_cons (h : text.dropWhile isWhiteSpace = c :: rest) :
    ∃ rest', trim text = c :: rest' := by
  have hblank : isWhiteSpace c = false := eq_false_of_dropWhile_eq_cons h
  have hprefix : trim text <+: c :: rest := by
    rw [trim, h]
    exact List.rdropWhile_prefix isWhiteSpace _
  have hne : trim text ≠ [] := by
    rw [trim, h]
    intro hnil
    have hall := List.rdropWhile_eq_nil_iff.mp hnil c List.mem_cons_self
    rw [hblank] at hall
    cases hall
  obtain ⟨first, rest', htrim⟩ := List.exists_cons_of_ne_nil hne
  rw [htrim] at hprefix ⊢
  obtain ⟨rfl, -⟩ := List.cons_prefix_cons.mp hprefix
  exact ⟨rest', rfl⟩

theorem isBlank_eq_false_of_mem (hmem : c ∈ text) (h : isWhiteSpace c = false) :
    isBlank text = false := by
  rw [isBlank, List.all_eq_false]
  exact ⟨c, hmem, Bool.eq_false_iff.mp h⟩

/-- No white space is at either end of a text. -/
structure Trimmed (text : List Char) : Prop where
  first : ∀ c ∈ text.head?, isWhiteSpace c = false
  last : ∀ c ∈ text.getLast?, isWhiteSpace c = false

theorem Trimmed.of_ends (hfirst : text.head? = some c) (hlast : text.getLast? = some d)
    (hc : isWhiteSpace c = false) (hd : isWhiteSpace d = false) : Trimmed text where
  first other h := by
    obtain rfl := Option.some.inj (hfirst.symm.trans h)
    exact hc
  last other h := by
    obtain rfl := Option.some.inj (hlast.symm.trans h)
    exact hd

theorem dropWhile_isWhiteSpace_eq_self (h : ∀ c ∈ text.head?, isWhiteSpace c = false) :
    text.dropWhile isWhiteSpace = text := by
  cases text with
  | nil => rfl
  | cons c rest => exact List.dropWhile_cons_of_neg (Bool.eq_false_iff.mp (h c rfl))

/-- White space after a trimmed text is trimmed off, and nothing else. -/
theorem Trimmed.trim_append (h : Trimmed text) (hrest : isBlank rest = true) :
    trim (text ++ rest) = text := by
  have hspace : ∀ c ∈ rest, isWhiteSpace c = true := List.all_eq_true.mp hrest
  by_cases hnil : text = []
  · subst hnil
    exact trim_of_dropWhile_eq_nil (List.dropWhile_eq_nil_iff.mpr hspace)
  have hfirst : ∀ c ∈ (text ++ rest).head?, isWhiteSpace c = false := by
    obtain ⟨c, later, rfl⟩ := List.exists_cons_of_ne_nil hnil
    exact h.first
  have hlast : ∀ c ∈ text.reverse.head?, isWhiteSpace c = false := by
    rw [List.head?_reverse]
    exact h.last
  have hspace' : ∀ c ∈ rest.reverse, isWhiteSpace c = true :=
    fun c hc => hspace c (List.mem_reverse.mp hc)
  rw [trim, trimEnd, dropWhile_isWhiteSpace_eq_self hfirst, List.reverse_append,
    List.dropWhile_append_of_pos hspace', dropWhile_isWhiteSpace_eq_self hlast,
    List.reverse_reverse]

theorem Trimmed.trim_eq (h : Trimmed text) : trim text = text := by
  have htrim := h.trim_append (show isBlank [] = true from rfl)
  rwa [List.append_nil] at htrim

/-- A text is split at a white space character that none comes after. -/
theorem splitAtLastWhiteSpace?_append (hc : isWhiteSpace c = true)
    (hrest : ∀ d ∈ rest, isWhiteSpace d = false) :
    splitAtLastWhiteSpace? (text ++ c :: rest) = some (text, rest) := by
  have hrest' : ∀ d ∈ rest.reverse, (!isWhiteSpace d) = true := by
    intro d hd
    rw [hrest d (List.mem_reverse.mp hd)]
    rfl
  have hreverse : (text ++ c :: rest).reverse = rest.reverse ++ c :: text.reverse := by simp
  have hdrop : (rest.reverse ++ c :: text.reverse).dropWhile (fun d => !isWhiteSpace d) =
      c :: text.reverse := by
    rw [List.dropWhile_append_of_pos hrest']
    exact List.dropWhile_cons_of_neg (by simp [hc])
  have htake : (rest.reverse ++ c :: text.reverse).takeWhile (fun d => !isWhiteSpace d) =
      rest.reverse := by
    rw [List.takeWhile_append_of_pos hrest', List.takeWhile_cons_of_neg (by simp [hc]),
      List.append_nil]
  simp only [splitAtLastWhiteSpace?, hreverse, hdrop, htake, List.reverse_reverse]

/-! ## Joined texts -/

/-- What is between texts joined by a separator is of the separator or of one of the texts. -/
theorem mem_intercalate {α : Type} {x : α} {separator : List α} {texts : List (List α)}
    (h : x ∈ separator.intercalate texts) : x ∈ separator ∨ ∃ text ∈ texts, x ∈ text := by
  induction texts with
  | nil => exact absurd h List.not_mem_nil
  | cons first rest ih =>
    cases rest with
    | nil => exact .inr ⟨first, List.mem_cons_self, by simpa using h⟩
    | cons second rest =>
      rw [List.intercalate_cons_cons, List.mem_append, List.mem_append] at h
      rcases h with (h | h) | h
      · exact .inr ⟨first, List.mem_cons_self, h⟩
      · exact .inl h
      · exact (ih h).imp_right fun ⟨text, htext, hx⟩ => ⟨text, List.mem_cons_of_mem _ htext, hx⟩

theorem intercalate_append {α : Type} {separator : List α} {texts texts' : List (List α)}
    (h : texts ≠ []) (h' : texts' ≠ []) : separator.intercalate (texts ++ texts') =
      separator.intercalate texts ++ separator ++ separator.intercalate texts' := by
  obtain ⟨next, others', rfl⟩ := List.exists_cons_of_ne_nil h'
  induction texts with
  | nil => exact absurd rfl h
  | cons first rest ih =>
    cases rest with
    | nil =>
      rw [List.singleton_append, List.intercalate_cons_cons, List.intercalate_singleton]
    | cons second rest =>
      simp only [List.cons_append, List.intercalate_cons_cons] at ih ⊢
      rw [ih (List.cons_ne_nil _ _)]
      simp only [List.append_assoc]

/-- A text that is joined with others is a part of what they make. -/
theorem infix_intercalate {α : Type} {separator text : List α} {texts : List (List α)}
    (h : text ∈ texts) : text <:+: separator.intercalate texts := by
  induction texts with
  | nil => exact absurd h List.not_mem_nil
  | cons first rest ih =>
    cases rest with
    | nil =>
      obtain rfl := List.mem_singleton.mp h
      exact ⟨[], [], by simp⟩
    | cons second rest =>
      rw [List.intercalate_cons_cons]
      rcases List.mem_cons.mp h with rfl | h
      · exact (List.prefix_append _ _).isInfix.trans (List.prefix_append _ _).isInfix
      · exact (ih h).trans (List.suffix_append _ _).isInfix

/-! ## Lines -/

theorem dropFinal_concat {α : Type} [BEq α] [LawfulBEq α] (x : α) (xs : List α) :
    dropFinal x (xs ++ [x]) = xs := by
  rw [dropFinal, List.getLast?_concat, if_pos (beq_self_eq_true _), List.dropLast_concat]

theorem dropFinal_of_getLast?_ne {α : Type} [BEq α] [LawfulBEq α] {x : α} {xs : List α}
    (h : xs.getLast? ≠ some x) : dropFinal x xs = xs :=
  if_neg fun heq => h (beq_iff_eq.mp heq)

theorem dropFinal_of_not_mem {α : Type} [BEq α] [LawfulBEq α] {x : α} {xs : List α} (h : x ∉ xs) :
    dropFinal x xs = xs :=
  dropFinal_of_getLast?_ne fun heq => h (List.mem_of_getLast? heq)

theorem mem_of_mem_dropFinal {α : Type} [BEq α] {x y : α} {xs : List α}
    (h : y ∈ dropFinal x xs) : y ∈ xs := by
  unfold dropFinal at h
  split at h
  · exact (List.dropLast_sublist xs).subset h
  · exact h

/-- The last element is dropped if it is the one to drop, and else nothing is. -/
theorem dropFinal_cases {α : Type} [BEq α] [LawfulBEq α] (x : α) (xs : List α) :
    dropFinal x xs = xs ∨ xs = dropFinal x xs ++ [x] := by
  by_cases hlast : xs.getLast? = some x
  · obtain ⟨front, rfl⟩ := List.getLast?_eq_some_iff.mp hlast
    rw [dropFinal_concat]
    exact .inr rfl
  · exact .inl (dropFinal_of_getLast?_ne hlast)

/-- A text in one line: no character of it has to do with the ends of lines. -/
def Unbroken (text : List Char) : Prop :=
  ∀ c ∈ text, c ≠ '\n' ∧ c ≠ '\r'

theorem unbroken_of_all (h : text.all (fun c => c != '\n' && c != '\r') = true) :
    Unbroken text := by
  simpa [Unbroken] using h

theorem Unbroken.append (h : Unbroken text) (hrest : Unbroken rest) : Unbroken (text ++ rest) :=
  List.forall_mem_append.mpr ⟨h, hrest⟩

theorem unbroken_intercalate {separator : List Char} {texts : List (List Char)}
    (hseparator : Unbroken separator) (h : ∀ text ∈ texts, Unbroken text) :
    Unbroken (separator.intercalate texts) := by
  intro c hc
  rcases mem_intercalate hc with hc | ⟨text, htext, hc⟩
  · exact hseparator c hc
  · exact h text htext c hc

section Split

variable {α : Type} [BEq α] [LawfulBEq α] {feed ret : α} {xs ys : List α}

theorem splitLines_of_not_mem (hne : xs ≠ []) (h : feed ∉ xs) : splitLines feed ret xs = [xs] := by
  have hkept : ([xs].filter fun rest => !rest.isEmpty) = [xs] :=
    List.filter_eq_self.mpr fun rest hrest => by
      obtain rfl := List.mem_singleton.mp hrest
      simpa using hne
  rw [splitLines, List.splitOn_eq_singleton h]
  exact hkept

/-- What comes before the first feed is the first line. -/
theorem splitLines_append_feed (h : feed ∉ xs) : splitLines feed ret (xs ++ feed :: ys) =
    dropFinal ret xs :: splitLines feed ret ys := by
  obtain ⟨piece, pieces, hpieces⟩ := List.exists_cons_of_ne_nil (List.splitOn_ne_nil feed ys)
  simp only [splitLines, List.splitOn_append_cons_self_of_not_mem h, hpieces]
  simp

/-- A list is empty, or one line without an end, or one line and more after it. -/
theorem splitLines_induction (feed : α) {P : List α → Prop} (nil : P [])
    (last : ∀ xs, xs ≠ [] → feed ∉ xs → P xs)
    (line : ∀ xs ys, feed ∉ xs → P ys → P (xs ++ feed :: ys)) (xs : List α) : P xs := by
  induction hlength : xs.length using Nat.strongRecOn generalizing xs with
  | ind _ ih =>
    by_cases hfeed : feed ∈ xs
    · obtain ⟨first, rest, rfl, hfirst⟩ := List.eq_append_cons_of_mem hfeed
      exact line first rest hfirst (ih rest.length (by simp [← hlength]; omega) rest rfl)
    · by_cases hne : xs = []
      · rw [hne]
        exact nil
      · exact last xs hne hfeed

/-- What is cut at a separator has none of it left. -/
theorem not_mem_of_mem_splitOn {piece : List α} (h : piece ∈ xs.splitOn feed) : feed ∉ piece := by
  induction xs using splitLines_induction feed with
  | nil =>
    rw [List.splitOn_nil, List.mem_singleton] at h
    exact h ▸ List.not_mem_nil
  | last xs _ hfeed =>
    rw [List.splitOn_eq_singleton hfeed, List.mem_singleton] at h
    exact h ▸ hfeed
  | line first rest hfeed ih =>
    rw [List.splitOn_append_cons_self_of_not_mem hfeed, List.mem_cons] at h
    rcases h with rfl | h
    · exact hfeed
    · exact ih h

end Split

theorem lines_of_not_mem (hne : text ≠ []) (h : '\n' ∉ text) : lines text = [text] :=
  splitLines_of_not_mem hne h

/-- What comes before the first line feed is the first line. -/
theorem lines_append_feed (h : '\n' ∉ text) :
    lines (text ++ '\n' :: rest) = dropFinal '\r' text :: lines rest :=
  splitLines_append_feed h

/-- A text is empty, or one line without an end, or one line and more after it. -/
theorem lines_induction {P : List Char → Prop} (nil : P [])
    (last : ∀ text, text ≠ [] → '\n' ∉ text → P text)
    (feed : ∀ line rest, '\n' ∉ line → P rest → P (line ++ '\n' :: rest)) (text : List Char) :
    P text :=
  splitLines_induction '\n' nil last feed text

/-- No line has a line feed. -/
theorem feed_not_mem_of_mem_lines {line : List Char} (h : line ∈ lines text) : '\n' ∉ line := by
  induction text using lines_induction with
  | nil => exact absurd h List.not_mem_nil
  | last text hne hfeed =>
    rw [lines_of_not_mem hne hfeed] at h
    exact List.mem_singleton.mp h ▸ hfeed
  | feed first rest hfeed ih =>
    rw [lines_append_feed hfeed] at h
    rcases List.mem_cons.mp h with rfl | h
    · exact fun hmem => hfeed (mem_of_mem_dropFinal hmem)
    · exact ih h

/-- Where a line ends, a text can be cut without a change to its lines. -/
theorem lines_append {before after : List Char}
    (h : before = [] ∨ before.getLast? = some '\n') :
    lines (before ++ after) = lines before ++ lines after := by
  induction before using lines_induction with
  | nil => rfl
  | last text hne hfeed => exact absurd (List.mem_of_getLast? (h.resolve_left hne)) hfeed
  | feed line rest hline ih =>
    have hrest : rest = [] ∨ rest.getLast? = some '\n' := by
      cases rest with
      | nil => exact .inl rfl
      | cons c rest => simpa using h
    rw [List.append_assoc, List.cons_append, lines_append_feed hline, lines_append_feed hline,
      ih hrest]
    rfl

/-- What a carriage return at the end makes no difference to, it makes none to where it is dropped. -/
theorem apply_dropFinal {β : Type} {f : List Char → β} (hf : ∀ line, f (line ++ ['\r']) = f line)
    (line : List Char) : f (dropFinal '\r' line) = f line := by
  rcases dropFinal_cases '\r' line with hsame | hless
  · rw [hsame]
  · rw [← hf, ← hless]

/-- Lines put together are the same lines again, but for a carriage return less at some. -/
theorem map_lines_intercalate {β : Type} {f : List Char → β}
    (hf : ∀ line, f (line ++ ['\r']) = f line) {ls : List (List Char)}
    (h : ∀ line ∈ ls, line ≠ [] ∧ '\n' ∉ line) :
    (lines (['\n'].intercalate ls)).map f = ls.map f := by
  induction ls with
  | nil => rfl
  | cons line others ih =>
    obtain ⟨⟨hne, hfeed⟩, hothers⟩ := List.forall_mem_cons.mp h
    cases others with
    | nil =>
      rw [List.intercalate_singleton, lines_of_not_mem hne hfeed]
    | cons next others =>
      rw [List.intercalate_cons_cons, List.append_assoc, List.singleton_append,
        lines_append_feed hfeed, List.map_cons, List.map_cons, apply_dropFinal hf, ih hothers]

/-- Lines that are ended by line feeds are the lines of the text, less a carriage return at the end
of each. -/
theorem lines_flatMap_feed {ls : List (List Char)} (h : ∀ line ∈ ls, '\n' ∉ line) :
    lines (ls.flatMap (· ++ ['\n'])) = ls.map (dropFinal '\r') := by
  induction ls with
  | nil => rfl
  | cons line others ih =>
    obtain ⟨hfeed, hothers⟩ := List.forall_mem_cons.mp h
    rw [List.flatMap_cons, List.append_assoc, List.singleton_append, lines_append_feed hfeed,
      ih hothers, List.map_cons]

/-- Lines without breaks that are ended by line feeds are the lines of the text. -/
theorem lines_flatMap {ls : List (List Char)} (h : ∀ line ∈ ls, Unbroken line) :
    lines (ls.flatMap (· ++ ['\n'])) = ls := by
  rw [lines_flatMap_feed fun line hline hmem => (h line hline _ hmem).1 rfl]
  conv_rhs => rw [← List.map_id ls]
  apply List.map_congr_left
  intro line hline
  exact dropFinal_of_not_mem fun hmem => (h line hline _ hmem).2 rfl

/-- The line feed at the end of the last line can be left out. -/
theorem lines_concat_feed (hc : c ≠ '\n' ∧ c ≠ '\r') (hlast : text.getLast? = some c) :
    lines (text ++ ['\n']) = lines text := by
  induction text using lines_induction with
  | nil => cases hlast
  | last text hne hfeed =>
    have hret : text.getLast? ≠ some '\r' := by
      rw [hlast]
      exact fun heq => hc.2 (Option.some.inj heq)
    rw [lines_append_feed hfeed, lines_of_not_mem hne hfeed, dropFinal_of_getLast?_ne hret]
    rfl
  | feed line rest hfeed ih =>
    have hrest : rest.getLast? = some c := by
      cases rest with
      | nil =>
        rw [List.getLast?_concat] at hlast
        exact absurd (Option.some.inj hlast).symm hc.1
      | cons d rest => simpa using hlast
    rw [List.append_assoc, List.cons_append, lines_append_feed hfeed, lines_append_feed hfeed,
      ih hrest]

/-! ## Quoting -/

theorem exists_digit_of_mem_toDigits {base : Nat} (hbase : 1 < base) (n : Nat) :
    c ∈ Nat.toDigits base n → ∃ digit < base, c = Nat.digitChar digit := by
  induction n using Nat.strongRecOn with
  | ind n ih =>
    intro h
    rw [Nat.toDigits_eq_if hbase] at h
    split at h
    · next hlt => exact ⟨n, hlt, List.mem_singleton.mp h⟩
    · next hge =>
      rcases List.mem_append.mp h with h | h
      · exact ih (n / base) (Nat.div_lt_self (by omega) hbase) h
      · exact ⟨n % base, Nat.mod_lt n (by omega), List.mem_singleton.mp h⟩

/-- A character that is neither a break nor a quote. -/
def isPlain (c : Char) : Bool :=
  c != '\n' && c != '\r' && c != '"'

theorem isPlain_iff : isPlain c = true ↔ (c ≠ '\n' ∧ c ≠ '\r') ∧ c ≠ '"' := by
  simp [isPlain]

/-- A number is spelt without breaks and quotes. -/
theorem all_isPlain_escapeByNumber (c : Char) : (escapeByNumber c).all isPlain = true := by
  have hdigits : (Nat.toDigits 16 c.toNat).all isPlain = true := by
    rw [List.all_eq_true]
    intro d hd
    obtain ⟨digit, hlt, rfl⟩ := exists_digit_of_mem_toDigits (by decide) _ hd
    have hplain : ∀ digit < 16, isPlain (Nat.digitChar digit) = true := by decide
    exact hplain digit hlt
  have hopen : "\\u\x7b".toList.all isPlain = true := by decide
  have hclose : "\x7d".toList.all isPlain = true := by decide
  rw [escapeByNumber, List.all_append, List.all_append, hopen, hdigits, hclose]
  rfl

/-- A character stands as it is, or it is spelt by several others. No break is among them, and no
quote unless it was the character. -/
theorem escape_cases (c : Char) : (escape c = [c] ∨ 1 < (escape c).length) ∧
    Unbroken (escape c) ∧ (c ≠ '"' → '"' ∉ escape c) := by
  unfold escape
  split
  case h_7 hnul htab hfeed hret hquote hslash =>
    split
    · have hplain : ∀ d ∈ escapeByNumber c, (d ≠ '\n' ∧ d ≠ '\r') ∧ d ≠ '"' :=
        fun d hd => isPlain_iff.mp (List.all_eq_true.mp (all_isPlain_escapeByNumber c) d hd)
      refine ⟨.inr ?_, fun d hd => (hplain d hd).1, fun _ hd => (hplain _ hd).2 rfl⟩
      simp [escapeByNumber]
    · exact ⟨.inl rfl, List.forall_mem_singleton.mpr ⟨hfeed, hret⟩,
        fun hne hmem => hne (List.mem_singleton.mp hmem).symm⟩
  all_goals exact ⟨by decide, unbroken_of_all (by decide), by decide⟩

/-- A quoted text is in one line, whatever the text. -/
theorem unbroken_quoted (text : List Char) : Unbroken (quoted text) := by
  intro d hd
  rw [quoted, List.mem_append, List.mem_cons, List.mem_singleton, List.mem_flatMap] at hd
  rcases hd with (rfl | ⟨c, -, hc⟩) | rfl
  · decide
  · exact (escape_cases c).2.1 d hc
  · decide

/-- Quotes in a quoted text are those of the text. -/
theorem quote_not_mem_flatMap_escape (h : '"' ∉ text) : '"' ∉ text.flatMap escape := by
  intro hmem
  obtain ⟨c, hc, hquote⟩ := List.mem_flatMap.mp hmem
  exact (escape_cases c).2.2 (fun heq => h (heq ▸ hc)) hquote

theorem length_le_length_flatMap_escape (text : List Char) :
    text.length ≤ (text.flatMap escape).length := by
  induction text with
  | nil => exact Nat.le_refl 0
  | cons c rest ih =>
    have hpos : 1 ≤ (escape c).length := by
      rcases (escape_cases c).1 with hself | hlonger
      · rw [hself]
        exact Nat.le_refl 1
      · exact Nat.le_of_lt hlonger
    rw [List.flatMap_cons, List.length_append, List.length_cons]
    omega

/-- A text stands as it is just if each of its characters does. -/
theorem flatMap_escape_eq_self_iff :
    text.flatMap escape = text ↔ ∀ c ∈ text, escape c = [c] := by
  induction text with
  | nil => exact iff_of_true rfl (List.forall_mem_nil _)
  | cons c rest ih =>
    rw [List.flatMap_cons, List.forall_mem_cons, ← ih]
    constructor
    · intro h
      have hself : escape c = [c] := by
        -- a character spelt by several makes the whole longer
        refine (escape_cases c).1.resolve_right fun hlonger => ?_
        have hlength := congrArg List.length h
        have hrest := length_le_length_flatMap_escape rest
        rw [List.length_append, List.length_cons] at hlength
        omega
      rw [hself] at h
      exact ⟨hself, (List.cons.inj h).2⟩
    · rintro ⟨hself, hrest⟩
      rw [hself, hrest]
      rfl

end ContextFree.Text
