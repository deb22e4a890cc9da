import ContextFree.Proofs.CaseFile.Parts
import ContextFree.Proofs.Notation.RoundTrip

/-!
# Reading back the cases that are written

A case file is written as the lines of a grammar, an empty line, and then one entry a line: a case or
a blank line (`written`). What is parsed from it is the grammar of the lines and the cases of the
entries, in order, each at the number of its line (`parse_written`).

A word is written in front of its label with white space between them. It may have white space of its
own, look like a label, or start like a comment, as only the last white space of a line is looked at.
The empty word has no place in front of a label, so it is left out, or a lone epsilon stands for it.
-/

namespace ContextFree.CaseFile

/-- White space in one line. -/
structure Space where
  text : List Char
  isBlank : Text.isBlank text = true
  one_line : '\n' ∉ text

/-- What separates a word and its label. -/
structure Gap extends Space where
  ne_nil : text ≠ []

/-- A word that can be written in front of a label. -/
structure Word where
  text : List Char
  ne_nil : text ≠ []
  /-- A lone epsilon stands for the empty word. -/
  ne_epsilon : text ≠ ['ε']
  trimmed : Text.Trimmed text
  one_line : '\n' ∉ text

/-- A line after the empty one. -/
inductive Entry where
  | blank (space : Space)
  | spaced (word : Word) (gap : Gap) (expected : Bool)
  /-- The empty word, which is left out. -/
  | alone (expected : Bool)
  /-- The empty word as a lone epsilon. -/
  | epsilon (gap : Gap) (expected : Bool)

/-- How a label is written. -/
def label (expected : Bool) : Char :=
  if expected then '1' else '0'

namespace Entry

/-- The line of an entry. -/
def line : Entry → List Char
  | .blank space => space.text
  | .spaced word gap expected => word.text ++ gap.text ++ [label expected]
  | .alone expected => [label expected]
  | .epsilon gap expected => ['ε'] ++ gap.text ++ [label expected]

/-- The case of an entry, unless it is a blank line. -/
def case? (location : Location) : Entry → Option Case
  | .blank _ => none
  | .spaced word _ expected => some ⟨String.ofList word.text, expected, location⟩
  | .alone expected => some ⟨"", expected, location⟩
  | .epsilon _ expected => some ⟨"", expected, location⟩

end Entry

/-- The lines of a grammar, none of them blank. -/
def IsBlock (block : List (List Char)) : Prop :=
  ∀ line ∈ block, Text.isBlank line = false ∧ '\n' ∉ line

/-- A case file of a grammar's lines and some entries. -/
def written (block : List (List Char)) (entries : List Entry) : List Char :=
  (block ++ [] :: entries.map Entry.line).flatMap (· ++ ['\n'])

/-- The cases of entries, of which the first is at line `first`. -/
def casesOf (path : String) (first : Nat) (entries : List Entry) : List Case :=
  (entries.zipIdx first).filterMap fun (entry, number) => entry.case? ⟨path, number⟩

variable {path path' : String} {firstLine : Nat} {block : List (List Char)}
  {grammar : Grammar} {text text' word : List Char}

/-! ## One line -/

theorem isBlank_dropFinal (line : List Char) :
    Text.isBlank (Text.dropFinal '\r' line) = Text.isBlank line := by
  have hret : Text.isWhiteSpace '\r' = true := by decide
  apply Text.apply_dropFinal (f := Text.isBlank)
  intro line
  simp [Text.isBlank, hret]

theorem isWhiteSpace_label (expected : Bool) : Text.isWhiteSpace (label expected) = false := by
  cases expected with
  | false => decide
  | true => decide

theorem label_ne_break (expected : Bool) : label expected ≠ '\n' ∧ label expected ≠ '\r' := by
  cases expected with
  | false => decide
  | true => decide

theorem expectation?_label (expected : Bool) : expectation? [label expected] = some expected := by
  cases expected with
  | false => rfl
  | true => rfl

/-- A line that ends in a label is not blank, and no carriage return is at its end. -/
theorem isBlank_concat_label (front : List Char) (expected : Bool) :
    Text.isBlank (front ++ [label expected]) = false :=
  Text.isBlank_eq_false_of_mem (List.mem_append_right _ (List.mem_singleton_self _))
    (isWhiteSpace_label expected)

theorem dropFinal_concat_label (front : List Char) (expected : Bool) :
    Text.dropFinal '\r' (front ++ [label expected]) = front ++ [label expected] := by
  apply Text.dropFinal_of_getLast?_ne
  rw [List.getLast?_concat]
  exact fun heq => (label_ne_break expected).2 (Option.some.inj heq)

theorem Gap.exists_last (gap : Gap) : ∃ space last, gap.text = space ++ [last] ∧
    Text.isBlank space = true ∧ Text.isWhiteSpace last = true := by
  obtain ⟨space, last, hgap⟩ := (List.eq_nil_or_concat' gap.text).resolve_left gap.ne_nil
  have hblank := List.all_eq_true.mp gap.isBlank
  rw [hgap, List.forall_mem_append, List.forall_mem_singleton] at hblank
  exact ⟨space, last, hgap, List.all_eq_true.mpr hblank.1, hblank.2⟩

/-- Only the gap is between a word and its label, whatever white space the word has. -/
theorem splitCase?_spaced (htrimmed : Text.Trimmed word) (gap : Gap) (expected : Bool) :
    splitCase? (word ++ gap.text ++ [label expected]) = some (word, [label expected]) := by
  obtain ⟨space, last, hgap, hspace, hlast⟩ := gap.exists_last
  have hlabel : ∀ c ∈ [label expected], Text.isWhiteSpace c = false :=
    List.forall_mem_singleton.mpr (isWhiteSpace_label expected)
  have hline : word ++ gap.text ++ [label expected] = word ++ space ++ last :: [label expected] := by
    rw [hgap]
    simp
  rw [splitCase?, hline, Text.splitAtLastWhiteSpace?_append hlast hlabel]
  show some (Text.trim (word ++ space), _) = _
  rw [htrimmed.trim_append hspace]

theorem parseCase_spaced (hne : word ≠ []) (htrimmed : Text.Trimmed word) (gap : Gap)
    (expected : Bool) (location : Location) :
    parseCase location (word ++ gap.text ++ [label expected]) =
      .ok ⟨String.ofList (if word = ['ε'] then [] else word), expected, location⟩ := by
  have hline : Text.Trimmed (word ++ gap.text ++ [label expected]) := by
    obtain ⟨c, rest, rfl⟩ := List.exists_cons_of_ne_nil hne
    exact .of_ends rfl List.getLast?_concat (htrimmed.first c rfl) (isWhiteSpace_label expected)
  simp only [parseCase, hline.trim_eq, splitCase?_spaced htrimmed, expectation?_label]

theorem parseCase_alone (expected : Bool) (location : Location) :
    parseCase location [label expected] = .ok ⟨"", expected, location⟩ := by
  cases expected with
  | false => rfl
  | true => rfl

/-- What comes of the line of an entry is the case of the entry, or it is passed over as blank. -/
theorem parseCase_line (entry : Entry) (location : Location) :
    (if !Text.isBlank (Text.dropFinal '\r' entry.line) then
      some (parseCase location (Text.dropFinal '\r' entry.line)) else none) =
        (entry.case? location).map .ok := by
  cases entry with
  | blank space =>
    simp only [Entry.line, Entry.case?, isBlank_dropFinal, space.isBlank]
    rfl
  | spaced word gap expected =>
    have hparse := parseCase_spaced word.ne_nil word.trimmed gap expected location
    rw [if_neg word.ne_epsilon] at hparse
    simp only [Entry.line, Entry.case?, dropFinal_concat_label, isBlank_concat_label, hparse]
    rfl
  | alone expected =>
    have hkept := dropFinal_concat_label [] expected
    have hblank := isBlank_concat_label [] expected
    rw [List.nil_append] at hkept hblank
    simp only [Entry.line, Entry.case?, hkept, hblank, parseCase_alone]
    rfl
  | epsilon gap expected =>
    have htrimmed : Text.Trimmed ['ε'] := .of_ends rfl rfl (by decide) (by decide)
    have hparse := parseCase_spaced (List.cons_ne_nil _ _) htrimmed gap expected location
    rw [if_pos rfl] at hparse
    simp only [Entry.line, Entry.case?, dropFinal_concat_label, isBlank_concat_label, hparse]
    rfl

/-! ## All lines -/

theorem Entry.feed_not_mem_line (entry : Entry) : '\n' ∉ entry.line := by
  have hlabel : ∀ expected, '\n' ∉ [label expected] :=
    fun expected hmem => (label_ne_break expected).1 (List.mem_singleton.mp hmem).symm
  cases entry with
  | blank space => exact space.one_line
  | spaced word gap expected => simp [line, word.one_line, gap.one_line, hlabel]
  | alone expected => exact hlabel expected
  | epsilon gap expected => simp [line, gap.one_line, hlabel]

theorem lines_block (h : IsBlock block) :
    Text.lines (block.flatMap (· ++ ['\n'])) = block.map (Text.dropFinal '\r') :=
  Text.lines_flatMap_feed fun line hline => (h line hline).2

theorem lines_entries (entries : List Entry) :
    Text.lines (([] :: entries.map Entry.line).flatMap (· ++ ['\n'])) =
      [] :: entries.map fun entry => Text.dropFinal '\r' entry.line := by
  rw [Text.lines_flatMap_feed]
  · rw [List.map_cons, List.map_map]
    rfl
  · refine List.forall_mem_cons.mpr ⟨List.not_mem_nil, fun line hline => ?_⟩
    obtain ⟨entry, -, rfl⟩ := List.mem_map.mp hline
    exact entry.feed_not_mem_line

/-- The empty line is the first that is blank. -/
theorem cutAtBlank_written (h : IsBlock block) (entries : List Entry) :
    CutAtBlank (written block entries) (block.flatMap (· ++ ['\n']))
      (([] :: entries.map Entry.line).flatMap (· ++ ['\n'])) where
  eq_append := List.flatMap_append
  ends := by
    rcases List.eq_nil_or_concat' block with rfl | ⟨others, last, rfl⟩
    · exact .inl rfl
    · refine .inr ?_
      rw [List.flatMap_append, List.flatMap_singleton, ← List.append_assoc, List.getLast?_concat]
  not_blank := by
    rw [lines_block h]
    intro line hline
    obtain ⟨whole, hwhole, rfl⟩ := List.mem_map.mp hline
    rw [isBlank_dropFinal]
    exact (h whole hwhole).1
  blank := by
    rw [lines_entries]
    exact ⟨[], rfl, rfl⟩

/-- The grammar of a block, wherever it is and however its last line ends. -/
theorem load_block (h : IsBlock block)
    (hload : Notation.load path' firstLine (['\n'].intercalate block) = .ok grammar) :
    Notation.load path 1 (block.flatMap (· ++ ['\n'])) = .ok grammar := by
  have hload' : Notation.load path 1 (['\n'].intercalate block) = .ok grammar :=
    Notation.load_eq_ok_iff.mpr (Notation.load_eq_ok_iff.mp hload)
  have hret : Text.isWhiteSpace '\r' = true := by decide
  have hlines : ∀ line ∈ block, line ≠ [] ∧ '\n' ∉ line := by
    intro line hline
    obtain ⟨hblank, hfeed⟩ := h line hline
    refine ⟨?_, hfeed⟩
    rintro rfl
    exact absurd hblank (by decide)
  -- a carriage return may be left in the last line of the block, where it makes no difference
  have hsame : ∀ {β : Type} {f : List Char → β}, (∀ line, f (line ++ ['\r']) = f line) →
      (Text.lines (block.flatMap (· ++ ['\n']))).map f =
        (Text.lines (['\n'].intercalate block)).map f := by
    intro β f hf
    rw [lines_block h, Text.map_lines_intercalate hf hlines, List.map_map]
    exact List.map_congr_left fun line _ => Text.apply_dropFinal hf line
  rw [← hload']
  exact Notation.load_congr (hsame (Notation.fault?_concat_whiteSpace hret))
    (hsame (Notation.rule?_concat_whiteSpace hret))

theorem caseResults_written (h : IsBlock block) (path : String) (entries : List Entry) :
    (caseResults path (written block entries) block.length).map Prod.snd =
      (casesOf path (block.length + 2) entries).map .ok := by
  have hlines : Text.lines (written block entries) = block.map (Text.dropFinal '\r') ++
      [] :: entries.map fun entry => Text.dropFinal '\r' entry.line := by
    rw [(cutAtBlank_written h entries).lines_eq, lines_block h, lines_entries]
  have hdrop : (Text.lines (written block entries)).zipIdx.drop (block.length + 1) =
      (entries.zipIdx (block.length + 1)).map
        (Prod.map (fun entry => Text.dropFinal '\r' entry.line) id) := by
    rw [hlines, List.append_cons, List.zipIdx_append, List.drop_left' (by simp), List.zipIdx_map]
    simp
  -- places count from zero and lines from one
  have hshift : entries.zipIdx (block.length + 2) =
      (entries.zipIdx (block.length + 1)).map fun (entry, place) => (entry, place + 1) :=
    List.zipIdx_succ
  rw [caseResults, hdrop, casesOf, hshift, List.map_map, ← List.filterMap_eq_map,
    List.filterMap_filter, List.filterMap_map, List.map_filterMap, List.filterMap_map]
  apply List.filterMap_congr
  intro numbered _
  exact parseCase_line numbered.1 ⟨path, numbered.2 + 1⟩

/-! ## The whole file -/

/-- A text is parsed line by line. -/
theorem parse_congr (h : Text.lines text = Text.lines text') : parse path text = parse path text' := by
  simp only [parse, parts?, h]

/-- A case file is read as it was written: its grammar is that of the block, its cases are those of the
entries, in order and each at its line, and no character of a word is lost. The line feed at the end
may be left out, if a case is in front of it. -/
theorem parse_written (h : IsBlock block)
    (hload : Notation.load path' firstLine (['\n'].intercalate block) = .ok grammar) (path : String)
    (entries : List Entry) :
    parse path (written block entries) =
        .ok ⟨grammar, casesOf path (block.length + 2) entries⟩ ∧
      ∀ front c, front ++ [c] ++ ['\n'] = written block entries → Text.isWhiteSpace c = false →
        parse path (front ++ [c]) = .ok ⟨grammar, casesOf path (block.length + 2) entries⟩ := by
  have hwritten : parse path (written block entries) =
      .ok ⟨grammar, casesOf path (block.length + 2) entries⟩ := by
    have hlength : (Text.lines (block.flatMap (· ++ ['\n']))).length = block.length := by
      rw [lines_block h, List.length_map]
    rw [parse_eq_ok_iff (cutAtBlank_written h entries), hlength]
    exact ⟨load_block h hload, caseResults_written h path entries⟩
  refine ⟨hwritten, fun front c hfront hc => ?_⟩
  have hbreak : c ≠ '\n' ∧ c ≠ '\r' := by
    refine ⟨?_, ?_⟩
    · rintro rfl
      exact absurd hc (by decide)
    · rintro rfl
      exact absurd hc (by decide)
  rw [← hwritten, ← hfront]
  exact parse_congr (Text.lines_concat_feed hbreak List.getLast?_concat).symm

/-- Words that look like labels, a blank line among the cases, and the empty word in both of its ways
come back in a file for the grammar of one tab. -/
theorem tab_cases_come_back :
    parse "tab" "S -> \"\t\"\n\n0 1\u3000\r1\n\t\n0\nε 1\n;1 0\n".toList = .ok ⟨Notation.tab,
      [⟨"0 1", true, ⟨"tab", 3⟩⟩, ⟨"", false, ⟨"tab", 5⟩⟩, ⟨"", true, ⟨"tab", 6⟩⟩,
        ⟨";1", false, ⟨"tab", 7⟩⟩]⟩ := by
  have hblock : IsBlock ["S -> \"\t\"".toList] := by
    intro line hline
    obtain rfl := List.mem_singleton.mp hline
    decide
  let space : Space := ⟨['\t'], by decide, by decide⟩
  let wide : Gap := ⟨⟨['\u3000', '\r'], by decide, by decide⟩, by decide⟩
  let blank : Gap := ⟨⟨[' '], by decide, by decide⟩, by decide⟩
  let labels : Word :=
    ⟨['0', ' ', '1'], by decide, by decide, .of_ends rfl rfl (by decide) (by decide), by decide⟩
  let comment : Word :=
    ⟨[';', '1'], by decide, by decide, .of_ends rfl rfl (by decide) (by decide), by decide⟩
  exact (parse_written hblock Notation.loadString_tab "tab" [.spaced labels wide true, .blank space,
    .alone false, .epsilon blank true, .spaced comment blank false]).1

end ContextFree.CaseFile
