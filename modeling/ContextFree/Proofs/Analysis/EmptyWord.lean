import ContextFree.Proofs.Analysis.Nullable
import ContextFree.Proofs.Derivation.Tree
import ContextFree.Proofs.Quiescence

/-!
# Three ways to tell who derives the empty word

A nonterminal that derives the empty word has a tree without terminals, it is in the table of
nullable nonterminals, and recognition that starts from it accepts the input without tokens. The
table comes of rounds over the grammar and never looks at an input; recognition knows no table and
works through its calls. They agree because both agree with what is derived (`nullable_exact`).

A match of nothing is spelt by a forest of the same shape (`exists_forest_of_spans`), and what a tree
without terminals spells is a match of nothing already (`Tree.derives`).
-/

namespace ContextFree.Analysis

variable {grammar : Grammar} {id : Nat}

/-- What matches nothing has a forest without terminals. -/
theorem exists_forest_of_spans {τ : Type} [Token τ] {input : Array τ} {symbols : Alternative Nat}
    {i j : Nat} (h : Spans grammar input symbols i j) (heq : i = j) :
    ∃ forest : Forest grammar symbols, forest.yield = [] := by
  induction h with
  | nil => exact ⟨.nil, rfl⟩
  | terminal _ _ hrest _ =>
    -- a terminal takes a token, and none is given back
    have hle := hrest.start_le
    omega
  | nonterminal hmem hsymbols hrest ih ih' =>
    have hle := hsymbols.start_le
    have hle' := hrest.start_le
    obtain ⟨children, hchildren⟩ := ih (by omega)
    obtain ⟨others, hothers⟩ := ih' (by omega)
    refine ⟨.nonterminal hmem children others, ?_⟩
    rw [Forest.yield, hchildren, hothers]
    rfl

/-- The nonterminals that are known to be nullable are those with a tree without terminals. -/
theorem nullable_iff_exists_tree :
    (nullable grammar).getD id false = true ↔ ∃ tree : Tree grammar id, tree.yield = [] := by
  constructor
  · intro h
    obtain ⟨symbols, hmem, hspans⟩ := derives_of_nullable h (#[] : Array String) 0
    obtain ⟨children, hchildren⟩ := exists_forest_of_spans hspans rfl
    exact ⟨⟨symbols, hmem, children⟩, hchildren⟩
  · intro h
    obtain ⟨tree, hyield⟩ := h
    have hderives := tree.derives
    rw [hyield] at hderives
    exact nullable_iff_derives.mpr hderives

/-- Recognition accepts the input without tokens just from the nonterminals that are known to be
nullable. -/
theorem accepts_empty {τ : Type} [Token τ] (recognizer : Recognizer) :
    recognizer.accepts (#[] : Array τ) =
      .ok ((nullable recognizer.grammar).getD recognizer.start false) :=
  (recognizer.accepts_eq_ok_iff _).mpr nullable_iff_derives

/-- The table of nullable nonterminals is exact: rounds that are repeated until one changes nothing
come to it, it has an answer for each nonterminal, and the answer is yes just if the nonterminal has a
tree that spells the empty word. It is the answer that recognition from the nonterminal gives on the
empty input, whatever its tokens would be and in either order of work. -/
theorem nullable_exact (grammar : Grammar) :
    ComesToRest (sweep grammar.nonterminalCount (improveNullable grammar))
        (Array.replicate grammar.nonterminalCount false) (nullable grammar) ∧
      (nullable grammar).size = grammar.nonterminalCount ∧
      ∀ id < grammar.nonterminalCount, ∃ answer, (nullable grammar)[id]? = some answer ∧
        (answer = true ↔ ∃ tree : Tree grammar id, tree.yield = []) ∧
        ∀ config, ∃ recognizer,
          Recognizer.make grammar (grammar.nameOf id) config = .ok recognizer ∧
          ∀ {τ : Type} [Token τ], recognizer.accepts (#[] : Array τ) = .ok answer := by
  have hsize := (improveNullable_nullable grammar).1
  refine ⟨comesToRest_nullable grammar, hsize, fun id hid => ?_⟩
  have hanswer : (nullable grammar)[id]? = some ((nullable grammar).getD id false) := by
    rw [Array.getD_eq_getD_getElem?, Array.getElem?_eq_getElem (hsize.symm ▸ hid)]
    rfl
  refine ⟨_, hanswer, nullable_iff_exists_tree, fun config => ?_⟩
  let recognizer : Recognizer := ⟨grammar, id, hid, config⟩
  have hmake : Recognizer.make grammar (grammar.nameOf id) config = .ok recognizer :=
    Recognizer.make_of_idOf? (Grammar.idOf?_nameOf hid)
  exact ⟨recognizer, hmake, accepts_empty recognizer⟩

end ContextFree.Analysis
