import ContextFree.Proofs.Notation.Fault
import ContextFree.Proofs.Notation.Loader
import ContextFree.Proofs.Places
import Mathlib.Data.Nat.Find
import Mathlib.Order.Bounds.Basic

/-!
# Which errors a text is reported with

A text that does not load is reported with everything that is wrong with it. Its malformed lines go
first, one error for each; where there are none, each use of a nonterminal without a rule has one
(`Undefined`), and a text without rule lines has one for the whole.

Each of these lists is told by what is in it and by its order, which is strict, so that nothing is
in it twice: lines go by their places in the text, and uses by `Use.place`, which puts the uses in
rules for one nonterminal together, where its first rule is.

An error is found where it is as long as the numbers of the rule lines are machine words
(`NumbersFit`); past the largest of these the numbers begin again.
-/

namespace ContextFree.Notation

/-- A line of a text, by its place among all lines, gives a nonterminal some alternatives. -/
def RuleAt (text : List Char) (index : Nat) (lhs : String) (alternatives : Alternatives String) :
    Prop :=
  ∃ line, (Text.lines text)[index]? = some line ∧ ReadsAs line lhs alternatives

/-- Where a nonterminal is used in a text. -/
structure Use where
  /-- The first line with a rule for the nonterminal in whose rules it is used. -/
  first : Nat
  line : Nat
  alternative : Nat
  position : Nat
  name : String

/-- What uses are ordered by. -/
def Use.place (use : Use) : List Nat :=
  [use.first, use.line, use.alternative, use.position]

/-- The error of a use, in a text whose first line is line `firstLine` of the file at `path`. -/
def Use.located (path : String) (firstLine : Nat) (use : Use) : Located LoadError :=
  ⟨⟨path, lineNumber firstLine use.line⟩, .undefinedNonterminal use.name⟩

variable {path : String} {firstLine index : Nat} {text line : List Char} {lhs : String}
  {alternatives : Alternatives String} {error : LoadError}

/-! ## Line by line -/

/-- What is wrong with a line, if it is a rule line and something is. -/
def fault? (line : List Char) : Option LoadError :=
  if isRuleLine line then
    match lex line >>= ruleOf with
    | .error error => some error
    | .ok _ => none
  else none

/-- What a line reads as, if it is a rule line and reads as a rule. -/
def rule? (line : List Char) : Option (String × Alternatives String) :=
  if isRuleLine line then (lex line >>= ruleOf).toOption else none

theorem fault?_eq_some_iff :
    fault? line = some error ↔ isRuleLine line = true ∧ FirstFault line error := by
  unfold fault?
  split
  · next hrule =>
    rw [← lex_bind_ruleOf_eq_error_iff hrule, hrule]
    cases lex line >>= ruleOf <;> simp
  · next hrule => simp [hrule]

theorem errorsOf_parsedLines (path : String) (firstLine : Nat) (text : List Char) :
    errorsOf (parsedLines path firstLine text) =
      (atPlaces fault? (Text.lines text)).map fun fault =>
        ⟨⟨path, lineNumber firstLine fault.1⟩, fault.2⟩ := by
  simp only [errorsOf, parsedLines, numberedRuleLines, atPlaces, List.filterMap_map,
    List.map_filterMap, List.filterMap_filter, List.map_map]
  refine List.filterMap_congr fun line _ => ?_
  unfold fault?
  split
  · simp only [Function.comp_apply, parseLine]
    cases lex line.1 >>= ruleOf <;> simp
  · rfl

theorem valuesOf_parsedLines (path : String) (firstLine : Nat) (text : List Char) :
    valuesOf (parsedLines path firstLine text) =
      (atPlaces rule? (Text.lines text)).map fun rule =>
        ⟨rule.2.1, rule.2.2, ⟨path, lineNumber firstLine rule.1⟩⟩ := by
  simp only [valuesOf, parsedLines, numberedRuleLines, atPlaces, List.filterMap_map,
    List.map_filterMap, List.filterMap_filter, List.map_map]
  refine List.filterMap_congr fun line _ => ?_
  unfold rule?
  split
  · simp only [Function.comp_apply, parseLine]
    cases lex line.1 >>= ruleOf <;> simp [Except.toOption]
  · rfl

/-- White space at the end of a line makes no difference to it. -/
theorem fault?_concat_whiteSpace {c : Char} (h : Text.isWhiteSpace c = true) (line : List Char) :
    fault? (line ++ [c]) = fault? line := by
  rw [fault?, isRuleLine_concat_whiteSpace h, lex_concat_whiteSpace h]
  rfl

theorem rule?_concat_whiteSpace {c : Char} (h : Text.isWhiteSpace c = true) (line : List Char) :
    rule? (line ++ [c]) = rule? line := by
  rw [rule?, isRuleLine_concat_whiteSpace h, lex_concat_whiteSpace h]
  rfl

/-- Texts are loaded alike if line by line the same is found in them. -/
theorem load_congr {text' : List Char}
    (hfault : (Text.lines text).map fault? = (Text.lines text').map fault?)
    (hrule : (Text.lines text).map rule? = (Text.lines text').map rule?) :
    load path firstLine text = load path firstLine text' := by
  rw [load_eq, load_eq, errorsOf_parsedLines, errorsOf_parsedLines, valuesOf_parsedLines,
    valuesOf_parsedLines, atPlaces_congr hfault, atPlaces_congr hrule]

/-! ## Use by use -/

variable {isDefined : String → Bool} {first : Nat} {name : String} {use : Use}
  {given : List (Nat × String × Alternatives String)} {firsts : List (Nat × String)}

section Places

variable {β : Type} {rule : Nat × String × β} {rest : List (Nat × String × β)}

end Places

/-- A nonterminal with a rule has a first. -/
theorem RuleAt.exists_first (h : RuleAt text index lhs alternatives) :
    ∃ first, IsLeast {index | ∃ alternatives, RuleAt text index lhs alternatives} first := by
  classical
  have hsome : ∃ index alternatives, RuleAt text index lhs alternatives := ⟨index, alternatives, h⟩
  exact ⟨Nat.find hsome, Nat.find_spec hsome, fun _ hother => Nat.find_min' hsome hother⟩

end ContextFree.Notation
