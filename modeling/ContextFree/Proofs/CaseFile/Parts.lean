import ContextFree.CaseFile.Basic
import ContextFree.Proofs.Notation.Diagnosis

/-!
# The two parts of a case file

A case file is cut at its first blank line (`CutAtBlank`). What comes before it is loaded as if it
were all there is, and of what comes after it each line that is not blank is a case or an error, at
its number in the whole file (`CaseAt`). The file is in order just if both parts are, and otherwise
all errors of both are reported, those of the grammar first (`parse_in_parts`).

The grammar is put together from its lines and broken into lines again, and so may lose a carriage
return at the end of a line. That is white space, which makes no difference there
(`CutAtBlank.load_eq`).
-/

namespace ContextFree.CaseFile

/-- A text is cut in front of its first blank line. -/
structure CutAtBlank (text before after : List Char) : Prop where
  eq_append : text = before ++ after
  /-- The cut is at the end of a line, if not at the front. -/
  ends : before = [] ∨ before.getLast? = some '\n'
  not_blank : ∀ line ∈ Text.lines before, Text.isBlank line = false
  blank : ∃ line ∈ (Text.lines after).head?, Text.isBlank line = true

/-- What comes of a line after the blank one, if it is not blank. Lines go by their places among all
lines, and their numbers count from one. -/
def CaseAt (path : String) (text : List Char) (separator index : Nat)
    (result : Except (Located CaseError) Case) : Prop :=
  ∃ line, (Text.lines text)[index]? = some line ∧ separator < index ∧ Text.isBlank line = false ∧
    result = parseCase ⟨path, index + 1⟩ line

variable {path : String} {text before after : List Char}

/-! ## The cut -/

theorem exists_cut (h : ∃ line ∈ Text.lines text, Text.isBlank line = true) :
    ∃ before after, CutAtBlank text before after := by
  induction text using Text.lines_induction with
  | nil =>
    obtain ⟨line, hline, -⟩ := h
    exact absurd hline List.not_mem_nil
  | last text hne hfeed =>
    obtain ⟨line, hline, hblank⟩ := h
    rw [Text.lines_of_not_mem hne hfeed] at hline
    refine ⟨[], text, rfl, .inl rfl, List.forall_mem_nil _, line, ?_, hblank⟩
    rw [Text.lines_of_not_mem hne hfeed, List.mem_singleton.mp hline]
    exact rfl
  | feed first rest hfeed ih =>
    rw [Text.lines_append_feed hfeed] at h
    cases hfirst : Text.isBlank (Text.dropFinal '\r' first) with
    | true =>
      have hhead : Text.dropFinal '\r' first ∈ (Text.lines (first ++ '\n' :: rest)).head? := by
        rw [Text.lines_append_feed hfeed]
        exact rfl
      exact ⟨[], _, rfl, .inl rfl, List.forall_mem_nil _, _, hhead, hfirst⟩
    | false =>
      have hrest : ∃ line ∈ Text.lines rest, Text.isBlank line = true := by
        obtain ⟨line, hline, hblank⟩ := h
        rcases List.mem_cons.mp hline with rfl | hline
        · cases hfirst.symm.trans hblank
        · exact ⟨line, hline, hblank⟩
      obtain ⟨before, after, rfl, hends, hnot, hblank⟩ := ih hrest
      refine ⟨first ++ '\n' :: before, after, by simp, .inr ?_, ?_, hblank⟩
      · rcases hends with rfl | hlast
        · simp
        · simp [List.getLast?_cons, hlast]
      · rw [Text.lines_append_feed hfeed]
        exact List.forall_mem_cons.mpr ⟨hfirst, hnot⟩

namespace CutAtBlank

theorem lines_eq (h : CutAtBlank text before after) :
    Text.lines text = Text.lines before ++ Text.lines after := by
  rw [h.eq_append, Text.lines_append h.ends]

/-- The first blank line comes right after the cut. -/
theorem findIdx?_isBlank (h : CutAtBlank text before after) :
    (Text.lines text).findIdx? Text.isBlank = some (Text.lines before).length := by
  obtain ⟨line, hline, hblank⟩ := h.blank
  obtain ⟨rest, hafter⟩ := List.head?_eq_some_iff.mp hline
  rw [h.lines_eq, List.findIdx?_append, List.findIdx?_eq_none_iff.mpr h.not_blank, hafter]
  simp [List.findIdx?_cons, hblank]

theorem parts?_eq (h : CutAtBlank text before after) : parts? text = some
    (['\n'].intercalate (Text.lines before), ((Text.lines text).zipIdx.map fun line =>
      (line.2 + 1, line.1)).drop ((Text.lines before).length + 1)) := by
  rw [parts?, h.findIdx?_isBlank]
  simp only [h.lines_eq, List.take_left]

/-- The text of the grammar loads as what comes before the cut does. -/
theorem load_eq (h : CutAtBlank text before after) :
    Notation.load path 1 (['\n'].intercalate (Text.lines before)) =
      Notation.load path 1 before := by
  have hlines : ∀ line ∈ Text.lines before, line ≠ [] ∧ '\n' ∉ line := by
    intro line hline
    refine ⟨?_, Text.feed_not_mem_of_mem_lines hline⟩
    rintro rfl
    exact absurd (h.not_blank [] hline) (by decide)
  have hret : Text.isWhiteSpace '\r' = true := by decide
  exact Notation.load_congr
    (Text.map_lines_intercalate (Notation.fault?_concat_whiteSpace hret) hlines)
    (Text.map_lines_intercalate (Notation.rule?_concat_whiteSpace hret) hlines)

end CutAtBlank

/-! ## The cases -/

/-- What comes of the lines after the blank one, each with its place. -/
def caseResults (path : String) (text : List Char) (separator : Nat) :
    List (Nat × Except (Located CaseError) Case) :=
  (((Text.lines text).zipIdx.drop (separator + 1)).filter fun line => !Text.isBlank line.1).map
    fun line => (line.2, parseCase ⟨path, line.2 + 1⟩ line.1)

variable {separator index : Nat} {result : Except (Located CaseError) Case}

theorem map_snd_caseResults (path : String) (text : List Char) (separator : Nat) :
    (caseResults path text separator).map Prod.snd = parseCases path
      (((Text.lines text).zipIdx.map fun line => (line.2 + 1, line.1)).drop (separator + 1)) := by
  rw [caseResults, parseCases, ← List.map_drop, List.filter_map, List.map_map, List.map_map]
  rfl

theorem pairwise_caseResults (path : String) (text : List Char) (separator : Nat) :
    (caseResults path text separator).Pairwise (·.1 < ·.1) :=
  List.pairwise_map.mpr (((pairwise_zipIdx (Text.lines text) 0).drop).filter _)

theorem mem_caseResults_iff :
    (index, result) ∈ caseResults path text separator ↔ CaseAt path text separator index result := by
  simp only [caseResults, CaseAt, List.mem_map, List.mem_filter, Prod.exists, Prod.mk.injEq]
  constructor
  · rintro ⟨line, _, ⟨hline, hblank⟩, rfl, rfl⟩
    obtain ⟨hplace, hlt⟩ := mem_drop_zipIdx_iff.mp hline
    exact ⟨line, hplace, hlt, by simpa using hblank, rfl⟩
  · rintro ⟨line, hplace, hlt, hblank, rfl⟩
    exact ⟨line, index, ⟨mem_drop_zipIdx_iff.mpr ⟨hplace, hlt⟩, by simpa using hblank⟩, rfl, rfl⟩

/-- What comes of a line is at its location. -/
theorem location_of_parseCase (location : Location) (line : List Char) :
    (∀ case, parseCase location line = .ok case → case.location = location) ∧
      ∀ located, parseCase location line = .error located → located.location = location := by
  simp only [parseCase]
  split
  · exact ⟨nofun, fun located h => Except.error.inj h ▸ rfl⟩
  · split
    · exact ⟨nofun, fun located h => Except.error.inj h ▸ rfl⟩
    · exact ⟨fun case h => Except.ok.inj h ▸ rfl, nofun⟩

/-! ## Both parts -/

/-- How a case file is read. -/
structure ReadInParts (path : String) (text : List Char) : Prop where
  /-- Without a blank line there is nothing to read. -/
  missingSeparator : (∀ line ∈ Text.lines text, Text.isBlank line = false) →
    parse path text = .error [⟨.wholeFile path, .missingSeparator⟩]
  exists_cut : (∃ line ∈ Text.lines text, Text.isBlank line = true) →
    ∃ before after, CutAtBlank text before after
  /-- What comes before the cut is loaded on its own. After it there is one result for each line
  that is not blank, in order. -/
  parts : ∀ before after, CutAtBlank text before after →
    ∃ results : List (Nat × Except (Located CaseError) Case),
      results.Pairwise (·.1 < ·.1) ∧
      (∀ index result, (index, result) ∈ results ↔
        CaseAt path text (Text.lines before).length index result) ∧
      (∀ file, parse path text = .ok file ↔ Notation.load path 1 before = .ok file.grammar ∧
        results.map Prod.snd = file.cases.map .ok) ∧
      ∀ errors, parse path text = .error errors ↔
        (∃ grammar, Notation.load path 1 before = .ok grammar) ∧ errors ≠ [] ∧
          errors = errorsOf (results.map Prod.snd) ∨
        ∃ causes, Notation.load path 1 before = .error causes ∧
          errors = causes.map (fun cause => ⟨cause.location, .invalidGrammar cause.error⟩) ++
            errorsOf (results.map Prod.snd)
  /-- A result is at the line that it comes of. -/
  location_eq : ∀ location line,
    (∀ case, parseCase location line = .ok case → case.location = location) ∧
      ∀ located, parseCase location line = .error located → located.location = location

theorem parse_eq_ok_iff (h : CutAtBlank text before after) {file : CaseFile} :
    parse path text = .ok file ↔ Notation.load path 1 before = .ok file.grammar ∧
      (caseResults path text (Text.lines before).length).map Prod.snd = file.cases.map .ok := by
  rw [← errorsOf_eq_nil_iff, map_snd_caseResults, parse, h.parts?_eq]
  simp only [h.load_eq]
  generalize parseCases path _ = results
  obtain ⟨grammar, cases⟩ := file
  split
  · next hload hnone => simp [hload, hnone]
  · next hsome => exact iff_of_false nofun fun h => hsome h.2.1
  · next hload => simp [hload]

theorem parse_eq_error_iff (h : CutAtBlank text before after) {errors : List (Located CaseError)} :
    parse path text = .error errors ↔
      (∃ grammar, Notation.load path 1 before = .ok grammar) ∧ errors ≠ [] ∧
        errors = errorsOf ((caseResults path text (Text.lines before).length).map Prod.snd) ∨
      ∃ causes, Notation.load path 1 before = .error causes ∧
        errors = causes.map (fun cause => ⟨cause.location, .invalidGrammar cause.error⟩) ++
          errorsOf ((caseResults path text (Text.lines before).length).map Prod.snd) := by
  rw [map_snd_caseResults, parse, h.parts?_eq]
  simp only [h.load_eq]
  generalize parseCases path _ = results
  split
  · next hload hnone => simp [hload, hnone]
  · next hload hsome =>
    simp only [hload, Except.error.injEq, reduceCtorEq, false_and, exists_false, or_false,
      Except.ok.injEq, exists_eq', true_and]
    constructor
    · rintro rfl
      exact ⟨hsome, rfl⟩
    · rintro ⟨-, rfl⟩
      rfl
  · next hload => simp [hload, eq_comm]

/-- Any case file is read in its parts. -/
theorem parse_in_parts (path : String) (text : List Char) : ReadInParts path text where
  missingSeparator h := by
    rw [parse, parts?, List.findIdx?_eq_none_iff.mpr h]
  exists_cut := exists_cut
  parts before after h := ⟨_, pairwise_caseResults _ _ _, fun _ _ => mem_caseResults_iff,
    fun _ => parse_eq_ok_iff h, fun _ => parse_eq_error_iff h⟩
  location_eq := location_of_parseCase

end ContextFree.CaseFile
