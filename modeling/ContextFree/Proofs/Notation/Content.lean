import ContextFree.Proofs.Notation.Diagnosis
import ContextFree.Proofs.Text.Encoding

/-!
# Loading the content of a file

A file is read line by line, and each line is decoded on its own. Content that is text is loaded as
that text is. Other content is not loaded: it has a line that is not text, and of each such line
there is an error for the whole file, in place among the errors of malformed rule lines.
-/

namespace ContextFree.Notation

/-- What can be wrong with a line of a file. -/
inductive LineFault where
  /-- The line is not text. -/
  | undecodable
  /-- The line is a rule line and fails a check. -/
  | malformed (error : LoadError)

/-- A line, as bytes, has a fault. -/
def LineFault.Of (line : List UInt8) : LineFault → Prop
  | .undecodable => ∀ text, Text.encode text ≠ line
  | .malformed error =>
    ∃ text, Text.encode text = line ∧ isRuleLine text = true ∧ FirstFault text error

/-- The error of a line's fault, by the place of the line among all lines of the file: its number is
one more, as no file has so many lines that this is no machine word. A line that is not text counts
against the whole file. -/
def LineFault.located (path : String) (index : Nat) : LineFault → Located LoadError
  | .undecodable => ⟨.wholeFile path, .unreadable .invalidText⟩
  | .malformed error => ⟨⟨path, lineNumber 1 index⟩, error⟩

/-- What the content of a file is loaded as: if it is text, the same as the text, grammar or errors;
if not, the errors of all its lines that have a fault, in the order of the lines. -/
structure LoadsContent (path : String) (bytes : ByteArray) : Prop where
  of_text : ∀ text, Text.encode text = bytes.data.toList →
    loadFile path (.ok bytes) = load path 1 text
  of_not_text : (∀ text, Text.encode text ≠ bytes.data.toList) → ∃ faults : List (Nat × LineFault),
    (∃ index, (index, .undecodable) ∈ faults) ∧ faults.Pairwise (·.1 < ·.1) ∧
    (∀ index fault, (index, fault) ∈ faults ↔
      ∃ line, (Text.byteLines bytes.data.toList)[index]? = some line ∧ fault.Of line) ∧
    loadFile path (.ok bytes) = .error (faults.map fun fault => fault.2.located path fault.1)

variable {path : String} {bytes line : List UInt8} {index : Nat} {fault : LineFault}

/-- What is wrong with a line of a file, if something is. -/
def lineFault? (line : List UInt8) : Option LineFault :=
  match decodeText? line with
  | none => some .undecodable
  | some text => (fault? text).map .malformed

theorem lineFault?_eq_some_iff : lineFault? line = some fault ↔ fault.Of line := by
  unfold lineFault?
  cases hdecode : decodeText? line with
  | none =>
    have hnone := Text.decodeText?_eq_none_iff.mp hdecode
    cases fault with
    | undecodable => exact iff_of_true rfl hnone
    | malformed error =>
      refine iff_of_false nofun ?_
      intro h
      obtain ⟨text, htext, -⟩ := h
      exact hnone text htext
  | some text =>
    have htext := Text.decodeText?_eq_some_iff.mp hdecode
    cases fault with
    | undecodable =>
      refine iff_of_false ?_ fun h => h text htext
      intro h
      obtain ⟨error, -, herror⟩ := Option.map_eq_some_iff.mp h
      cases herror
    | malformed error =>
      constructor
      · intro h
        obtain ⟨_, hfault, ⟨⟩⟩ := Option.map_eq_some_iff.mp h
        exact ⟨text, htext, fault?_eq_some_iff.mp hfault⟩
      · intro h
        obtain ⟨other, hother, hfault⟩ := h
        obtain rfl : text = other := Option.some.inj
          (hdecode.symm.trans (Text.decodeText?_eq_some_iff.mpr hother))
        exact Option.map_eq_some_iff.mpr ⟨error, fault?_eq_some_iff.mpr hfault, rfl⟩

/-- The rule lines of some content, each read as a rule or with its error, and the lines that are not
text among them. -/
def parsedContent (path : String) (bytes : List UInt8) : List (Except (Located LoadError) Rule) :=
  ((numberFrom 1 ((Text.byteLines bytes).map decodeLine)).filter isKept).map (parseNumbered path)

theorem errorsOf_parsedContent (path : String) (bytes : List UInt8) :
    errorsOf (parsedContent path bytes) = (atPlaces lineFault? (Text.byteLines bytes)).map
      fun fault => fault.2.located path fault.1 := by
  simp only [errorsOf, parsedContent, numberFrom, atPlaces, List.filterMap_map, List.zipIdx_map,
    List.map_filterMap, List.filterMap_filter, List.map_map]
  refine List.filterMap_congr fun line _ => ?_
  obtain ⟨line, index⟩ := line
  cases hdecode : decodeText? line with
  | none =>
    simp only [Function.comp_apply, Prod.map_apply, id_eq, decodeLine, hdecode, isKept, if_true,
      parseNumbered, lineFault?, Option.map_some, LineFault.located]
  | some text =>
    simp only [Function.comp_apply, Prod.map_apply, id_eq, decodeLine, hdecode, isKept,
      parseNumbered, lineFault?, fault?]
    split
    · simp only [parseLine]
      cases lex text >>= ruleOf <;> rfl
    · rfl

/-- Content with faults is not loaded; the errors are those of its faults. -/
theorem loadFile_of_faults {content : ByteArray}
    (h : atPlaces lineFault? (Text.byteLines content.data.toList) ≠ []) :
    loadFile path (.ok content) =
      .error ((atPlaces lineFault? (Text.byteLines content.data.toList)).map
        fun fault => fault.2.located path fault.1) := by
  have herrors := errorsOf_parsedContent path content.data.toList
  show ofLines path _ = _
  rw [ofLines_eq path rfl, ← parsedContent, herrors, if_neg]
  exact fun hnone => h (List.map_eq_nil_iff.mp hnone)

/-- Each line of a text is decoded as it is. -/
theorem map_decodeLine_byteLines_encode (text : List Char) :
    (Text.byteLines (Text.encode text)).map decodeLine = (Text.lines text).map .ok := by
  rw [Text.byteLines_encode, List.map_map]
  refine List.map_congr_left fun line _ => ?_
  simp only [Function.comp_apply, decodeLine, Text.decodeText?_encode]

/-- Content that is text is loaded as the text is, and other content is refused for each line that is
not text and each rule line that is malformed. -/
theorem loadFile_content (path : String) (bytes : ByteArray) : LoadsContent path bytes where
  of_text := by
    intro text htext
    show ofLines path (numberFrom 1 ((Text.byteLines bytes.data.toList).map decodeLine)) = _
    rw [← htext, map_decodeLine_byteLines_encode]
    rfl
  of_not_text := by
    intro hnot
    obtain ⟨line, hmem, hundecodable⟩ := Text.exists_mem_byteLines_of_not_text hnot
    obtain ⟨index, hindex⟩ := List.mem_iff_getElem?.mp hmem
    have hfault : (index, LineFault.undecodable) ∈
        atPlaces lineFault? (Text.byteLines bytes.data.toList) :=
      mem_atPlaces_iff.mpr ⟨line, hindex, lineFault?_eq_some_iff.mpr hundecodable⟩
    refine ⟨atPlaces lineFault? (Text.byteLines bytes.data.toList), ⟨index, hfault⟩,
      pairwise_atPlaces _ _, ?_, loadFile_of_faults (List.ne_nil_of_mem hfault)⟩
    intro index fault
    simp only [mem_atPlaces_iff, lineFault?_eq_some_iff]

end ContextFree.Notation
