import ContextFree.Analysis.Nullable
import ContextFree.Derivation
import ContextFree.Proofs.Analysis.Settle
import ContextFree.Proofs.Grammar.Numbering

/-!
# No nullable nonterminal is missed

Each look either leaves the table as it is or makes one nonterminal more known to be nullable, so
with one round more than there are nonterminals nothing is left to be found. Whatever matches
nothing of some input is then known to be nullable, by induction on the match.

Nor is any nonterminal in the table that does not belong there: no look ever adds one that does not
match nothing (`derives_of_nullable`). So the table tells just which nonterminals match nothing
(`nullable_iff_derives`).
-/

namespace ContextFree.Analysis

variable {grammar : Grammar} {known : Array Bool} {id : Nat}

theorem size_improveNullable : (improveNullable grammar known id).size = known.size := by
  unfold improveNullable
  split
  · rw [Array.size_setIfInBounds]
  · rfl

/-- A look changes nothing or makes one nonterminal more known to be nullable. -/
theorem improveNullable_gain (known : Array Bool) (id : Nat) :
    improveNullable grammar known id = known ∨
      known.count true < (improveNullable grammar known id).count true := by
  unfold improveNullable
  split
  · by_cases hid : id < known.size
    · rw [Array.setIfInBounds_def, dif_pos hid]
      cases hknown : known[id] with
      | true =>
        left
        rw [← hknown]
        exact Array.set_getElem_self hid
      | false =>
        right
        rw [Array.count_set hid, hknown]
        exact Nat.lt_succ_self _
    · left
      rw [Array.setIfInBounds_def, dif_neg hid]
  · exact .inl rfl

/-- Nothing is left to be found in the table of nullable nonterminals. -/
theorem improveNullable_nullable (grammar : Grammar) :
    (nullable grammar).size = grammar.nonterminalCount ∧ ∀ id < grammar.nonterminalCount,
      improveNullable grammar (nullable grammar) id = nullable grammar := by
  refine improve_settle (fun known => known.size = grammar.nonterminalCount) (·.count true)
    grammar.nonterminalCount ?_ ?_ improveNullable_gain ?_ ?_
  · intro known id hsize
    exact size_improveNullable.trans hsize
  · intro known hsize
    exact hsize ▸ Array.count_le_size
  · exact Array.size_replicate
  · omega

/-- No look at any number changes the table; one out of range has no alternatives. -/
theorem improveNullable_settled (grammar : Grammar) (id : Nat) :
    improveNullable grammar (nullable grammar) id = nullable grammar := by
  by_cases hid : id < grammar.nonterminalCount
  · exact (improveNullable_nullable grammar).2 id hid
  · apply if_neg
    intro hany
    obtain ⟨symbols, hmem, -⟩ := List.any_eq_true.mp hany
    exact hid (Grammar.lt_of_mem_alternatives hmem)

/-- The table is what rounds without a limit come to. -/
theorem comesToRest_nullable (grammar : Grammar) :
    ComesToRest (sweep grammar.nonterminalCount (improveNullable grammar))
      (Array.replicate grammar.nonterminalCount false) (nullable grammar) := by
  apply settle_comesToRest
  exact List.foldl_fixed' (improveNullable_settled grammar) _

/-- A nonterminal with an alternative of nullable symbols only is known to be nullable. -/
theorem getD_nullable_of_mem {symbols : Alternative Nat} (hmem : symbols ∈ grammar.alternatives id)
    (h : alternativeNullable (nullable grammar) symbols = true) :
    (nullable grammar).getD id false = true := by
  obtain ⟨hsize, hsettled⟩ := improveNullable_nullable grammar
  have hlt := Grammar.lt_of_mem_alternatives hmem
  have hset := hsettled id hlt
  rw [improveNullable, if_pos (List.any_eq_true.mpr ⟨symbols, hmem, h⟩)] at hset
  rw [← hset]
  simp [hsize, hlt]

variable {τ : Type} [Token τ] {input : Array τ}

/-- Symbols that match nothing are known to be nullable. -/
theorem alternativeNullable_of_spans {symbols : Alternative Nat} {i j : Nat}
    (h : Spans grammar input symbols i j) (heq : i = j) :
    alternativeNullable (nullable grammar) symbols = true := by
  induction h with
  | nil => rfl
  | terminal _ _ hrest _ =>
    have hle := hrest.start_le
    omega
  | nonterminal hmem hsymbols hrest ih ih' =>
    have hle := hsymbols.start_le
    have hle' := hrest.start_le
    have hfirst := getD_nullable_of_mem hmem (ih (by omega))
    have hothers := ih' (by omega)
    simp only [alternativeNullable, List.all_cons, Bool.and_eq_true] at hothers ⊢
    exact ⟨hfirst, hothers⟩

/-! ## What is known is true -/

/-- The nonterminals that are known to be nullable match nothing at some place of an input. -/
def KnownToMatch (grammar : Grammar) (input : Array τ) (i : Nat) (known : Array Bool) : Prop :=
  ∀ id, known.getD id false = true → Derives grammar input id i i

/-- No nonterminal is known of at the start. -/
theorem getD_replicate_false (count id : Nat) :
    (Array.replicate count false).getD id false = false := by
  rw [Array.getD_eq_getD_getElem?, Array.getElem?_replicate]
  split <;> rfl

theorem spans_of_alternativeNullable {i : Nat} (htrue : KnownToMatch grammar input i known)
    {symbols : Alternative Nat} (h : alternativeNullable known symbols = true) :
    Spans grammar input symbols i i := by
  induction symbols with
  | nil => exact .nil
  | cons symbol rest ih =>
    simp only [alternativeNullable, List.all_cons, Bool.and_eq_true] at h
    obtain ⟨hsymbol, hrest⟩ := h
    cases symbol with
    | terminal text => cases hsymbol
    | nonterminal id =>
      obtain ⟨symbols, hmem, hspans⟩ := htrue id hsymbol
      exact .nonterminal hmem hspans (ih hrest)

/-- A look adds only what is true. -/
theorem KnownToMatch.improveNullable {i : Nat} (htrue : KnownToMatch grammar input i known)
    (looked : Nat) : KnownToMatch grammar input i (improveNullable grammar known looked) := by
  intro id h
  unfold Analysis.improveNullable at h
  split at h
  · next hany =>
    by_cases heq : looked = id
    · obtain ⟨symbols, hmem, hnullable⟩ := List.any_eq_true.mp hany
      exact heq ▸ ⟨symbols, hmem, spans_of_alternativeNullable htrue hnullable⟩
    · rw [Array.getD_eq_getD_getElem?, Array.getElem?_setIfInBounds_ne heq,
        ← Array.getD_eq_getD_getElem?] at h
      exact htrue id h
  · exact htrue id h

/-- A nonterminal that is known to be nullable matches nothing anywhere in any input. -/
theorem derives_of_nullable (h : (nullable grammar).getD id false = true) (input : Array τ)
    (i : Nat) : Derives grammar input id i i := by
  have hstart : KnownToMatch grammar input i (Array.replicate grammar.nonterminalCount false) := by
    intro id h
    rw [getD_replicate_false] at h
    cases h
  have hround : ∀ (n : Nat) known, KnownToMatch grammar input i known →
      KnownToMatch grammar input i
        (sweep grammar.nonterminalCount (improveNullable grammar) known) :=
    fun _ _ htrue => foldl_improve_kept (fun _ looked htrue => htrue.improveNullable looked) _ htrue
  exact @settle_reaches _ _ _ _ (fun _ => KnownToMatch grammar input i) hround _ 0 _ hstart id h

/-- The nonterminals that are known to be nullable are those that match nothing, wherever that is. -/
theorem nullable_iff_derives {i : Nat} :
    (nullable grammar).getD id false = true ↔ Derives grammar input id i i := by
  constructor
  · exact fun h => derives_of_nullable h input i
  · intro h
    obtain ⟨symbols, hmem, hspans⟩ := h
    exact getD_nullable_of_mem hmem (alternativeNullable_of_spans hspans rfl)

end ContextFree.Analysis
