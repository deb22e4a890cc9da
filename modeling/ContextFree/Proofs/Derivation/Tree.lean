import ContextFree.Derivation
import ContextFree.Derivation.Tree
import ContextFree.Proofs.Grammar.Numbering
import Mathlib.Data.Finset.Card
import Mathlib.Order.Monotone.Basic

/-!
# What derivation trees spell, and how tall they need be

A tree matches its yield (`Tree.derives`), so what a tree spells belongs to the language of its root.

A sequence of symbols has a forest of a given height just if each of its nonterminals has a tree of
that height (`exists_forest_le_iff`). Hence the nonterminals that have a tree of height `r + 1` are
told by those that have one of height `r`: once no nonterminal is added none ever is. There are only
`nonterminalCount` of them to be added, so a nonterminal that has a tree at all has one that is no
taller than that (`Tree.exists_height_le`).
-/

namespace ContextFree

variable {grammar : Grammar} {id : Nat} {symbols : Alternative Nat}

/-! ## Yields -/

/-- A forest matches its yield wherever that stands in the input. -/
theorem Forest.spans (forest : Forest grammar symbols) (before after : List String) :
    Spans grammar (before ++ forest.yield ++ after).toArray symbols before.length
      (before.length + forest.yield.length) := by
  induction forest generalizing before after with
  | nil => exact .nil
  | terminal text rest ih =>
    have hrest := ih (before ++ [text]) after
    simp only [yield, List.length_append, List.length_cons, List.length_nil] at hrest ⊢
    rw [Nat.add_comm _ 1, ← Nat.add_assoc]
    have htoken : (before ++ text :: rest.yield ++ after).toArray[before.length]? = some text := by
      simp
    refine .terminal htoken (beq_self_eq_true text) ?_
    simpa using hrest
  | nonterminal hmem children rest ih ih' =>
    have hchildren := ih before (rest.yield ++ after)
    have hrest := ih' (before ++ children.yield) after
    simp only [yield, List.length_append, List.append_assoc] at hchildren hrest ⊢
    rw [← Nat.add_assoc]
    exact .nonterminal hmem hchildren hrest

/-- The root of a tree derives the yield. -/
theorem Tree.derives (tree : Tree grammar id) :
    Derives grammar tree.yield.toArray id 0 tree.yield.length := by
  have hspans := tree.children.spans [] []
  simp only [List.nil_append, List.append_nil, List.length_nil, Nat.zero_add] at hspans
  exact ⟨tree.symbols, tree.mem_alternatives, hspans⟩

/-! ## Heights -/

/-- A sequence of symbols has a forest of a height just if each of its nonterminals has a tree of
that height. -/
theorem exists_forest_le_iff {height : Nat} :
    (∃ forest : Forest grammar symbols, forest.height ≤ height) ↔
      ∀ id, .nonterminal id ∈ symbols → ∃ tree : Tree grammar id, tree.height ≤ height := by
  constructor
  · intro h id hid
    obtain ⟨forest, hle⟩ := h
    induction forest with
    | nil => cases hid
    | terminal text rest ih => exact ih ((List.mem_cons.mp hid).resolve_left nofun) hle
    | nonterminal hmem children rest _ ih =>
      obtain ⟨hchildren, hrest⟩ := max_le_iff.mp hle
      rcases List.mem_cons.mp hid with heq | hid
      · obtain rfl := Symbol.nonterminal.inj heq
        exact ⟨⟨_, hmem, children⟩, hchildren⟩
      · exact ih hid hrest
  · intro h
    induction symbols with
    | nil => exact ⟨.nil, Nat.zero_le _⟩
    | cons symbol rest ih =>
      obtain ⟨forest, hforest⟩ := ih fun id hid => h id (List.mem_cons_of_mem _ hid)
      cases symbol with
      | terminal text => exact ⟨.terminal text forest, hforest⟩
      | nonterminal id =>
        obtain ⟨tree, htree⟩ := h id List.mem_cons_self
        exact ⟨.nonterminal tree.mem_alternatives tree.children forest, max_le htree hforest⟩

/-- A tree is one taller than the forest below its root. -/
theorem exists_tree_le_succ_iff {height : Nat} :
    (∃ tree : Tree grammar id, tree.height ≤ height + 1) ↔
      ∃ symbols ∈ grammar.alternatives id,
        ∃ forest : Forest grammar symbols, forest.height ≤ height := by
  constructor
  · intro h
    obtain ⟨tree, hle⟩ := h
    exact ⟨tree.symbols, tree.mem_alternatives, tree.children, Nat.le_of_succ_le_succ hle⟩
  · intro h
    obtain ⟨symbols, hmem, forest, hle⟩ := h
    exact ⟨⟨symbols, hmem, forest⟩, Nat.succ_le_succ hle⟩

/-- Every tree is rooted at a nonterminal of the grammar. -/
theorem Tree.lt_nonterminalCount (tree : Tree grammar id) : id < grammar.nonterminalCount :=
  Grammar.lt_of_mem_alternatives tree.mem_alternatives

open Classical in
/-- The nonterminals that have a tree of at most some height. -/
noncomputable def reachedWithin (grammar : Grammar) (height : Nat) : Finset Nat :=
  (Finset.range grammar.nonterminalCount).filter fun id =>
    ∃ tree : Tree grammar id, tree.height ≤ height

theorem mem_reachedWithin {height : Nat} :
    id ∈ reachedWithin grammar height ↔ ∃ tree : Tree grammar id, tree.height ≤ height := by
  simp only [reachedWithin, Finset.mem_filter, Finset.mem_range, and_iff_right_iff_imp]
  intro h
  obtain ⟨tree, -⟩ := h
  exact tree.lt_nonterminalCount

theorem reachedWithin_subset_range {height : Nat} :
    reachedWithin grammar height ⊆ Finset.range grammar.nonterminalCount := by
  intro id hid
  obtain ⟨tree, -⟩ := mem_reachedWithin.mp hid
  exact Finset.mem_range.mpr tree.lt_nonterminalCount

theorem reachedWithin_mono {low high : Nat} (h : low ≤ high) :
    reachedWithin grammar low ⊆ reachedWithin grammar high := by
  intro id hid
  obtain ⟨tree, hle⟩ := mem_reachedWithin.mp hid
  exact mem_reachedWithin.mpr ⟨tree, hle.trans h⟩

/-- Which nonterminals have a tree of one level more is told by those that have a tree. -/
theorem mem_reachedWithin_succ {height : Nat} :
    id ∈ reachedWithin grammar (height + 1) ↔ ∃ symbols ∈ grammar.alternatives id,
      ∀ callee, .nonterminal callee ∈ symbols → callee ∈ reachedWithin grammar height := by
  simp only [mem_reachedWithin, exists_tree_le_succ_iff, exists_forest_le_iff]

/-- No height adds a nonterminal to those that have a tree of at most as many levels as there are
nonterminals. -/
theorem reachedWithin_eq {height : Nat} (h : grammar.nonterminalCount ≤ height) :
    reachedWithin grammar height = reachedWithin grammar grammar.nonterminalCount := by
  have hcard : (reachedWithin grammar height).card =
      (reachedWithin grammar grammar.nonterminalCount).card := by
    refine Nat.stabilises_of_monotone (f := fun height => (reachedWithin grammar height).card)
      ?_ ?_ ?_ h
    · exact fun low high hle => Finset.card_le_card (reachedWithin_mono hle)
    · intro height
      exact (Finset.card_le_card reachedWithin_subset_range).trans_eq (Finset.card_range _)
    · intro height hcard
      have hsame := Finset.eq_of_subset_of_card_le (reachedWithin_mono (Nat.le_succ height))
        (Nat.le_of_eq hcard.symm)
      refine congrArg Finset.card (Finset.ext fun id => ?_)
      rw [mem_reachedWithin_succ, mem_reachedWithin_succ, hsame]
  exact (Finset.eq_of_subset_of_card_le (reachedWithin_mono h) (Nat.le_of_eq hcard)).symm

/-- A nonterminal that has a tree has one of at most as many levels as there are nonterminals. -/
theorem Tree.exists_height_le (tree : Tree grammar id) :
    ∃ other : Tree grammar id, other.height ≤ grammar.nonterminalCount := by
  have hmem : id ∈ reachedWithin grammar (max tree.height grammar.nonterminalCount) :=
    mem_reachedWithin.mpr ⟨tree, Nat.le_max_left _ _⟩
  rw [reachedWithin_eq (Nat.le_max_right _ _)] at hmem
  exact mem_reachedWithin.mp hmem

/-! ## Closing off -/

variable {limit depth : Nat}

/-- A forest whose trees all close off from their roots on is as low as its symbols allow. -/
theorem Forest.ClosedFrom.height_le {forest : Forest grammar symbols}
    (h : forest.ClosedFrom limit depth) (hdepth : limit ≤ depth) (other : Forest grammar symbols) :
    forest.height ≤ other.height := by
  induction forest generalizing depth with
  | nil => exact Nat.zero_le _
  | terminal text rest ih =>
    cases other with
    | terminal _ other => exact ih h hdepth other
  | nonterminal hmem children rest ih ih' =>
    obtain ⟨hroot, hchildren, hrest⟩ := h
    obtain ⟨shallowest, hle⟩ := hroot hdepth
    have hlow := ih hchildren (Nat.le_succ_of_le hdepth) shallowest
    cases other with
    | nonterminal hmem' children' rest' =>
      have htree : shallowest.height + 1 ≤ children'.height + 1 := hle ⟨_, hmem', children'⟩
      exact max_le_max ((Nat.succ_le_succ hlow).trans htree) (ih' hrest hdepth rest')

/-- A tree that closes off from its root on is as low as any of its nonterminal. -/
theorem Tree.ClosedFrom.height_le {tree : Tree grammar id} (h : tree.ClosedFrom limit depth)
    (hdepth : limit ≤ depth) (other : Tree grammar id) : tree.height ≤ other.height := by
  obtain ⟨shallowest, hle⟩ := h.1 hdepth
  have hlow := h.2.height_le (Nat.le_succ_of_le hdepth) shallowest
  exact (Nat.succ_le_succ hlow).trans (hle other)

/-- A forest that does not reach below the level after `limit` is closed off from there on: its
lowest nonterminals have terminals only below them, and no tree is lower than that. -/
theorem Forest.closedFrom_of_height_le (forest : Forest grammar symbols)
    (h : forest.height + depth ≤ limit + 1) : forest.ClosedFrom limit depth := by
  induction forest generalizing depth with
  | nil => trivial
  | terminal text rest ih => exact ih h
  | nonterminal hmem children rest ih ih' =>
    have hchildren : children.height + 1 ≤ (nonterminal hmem children rest).height :=
      Nat.le_max_left _ _
    have hrest : rest.height ≤ (nonterminal hmem children rest).height := Nat.le_max_right _ _
    refine ⟨fun hdepth => ⟨children, fun tree => ?_⟩, ih (by omega), ih' (by omega)⟩
    have hpos : 1 ≤ tree.height := Nat.succ_le_succ (Nat.zero_le _)
    omega

/-- A tree of at most one level more than `limit` is closed off from depth `limit` on. -/
theorem Tree.closedFrom_of_height_le (tree : Tree grammar id) (h : tree.height ≤ limit + 1) :
    tree.ClosedFrom limit 0 := by
  have hheight : tree.height = tree.children.height + 1 := rfl
  refine ⟨fun hlimit => ⟨tree.children, fun other => ?_⟩,
    tree.children.closedFrom_of_height_le (by omega)⟩
  have hpos : 1 ≤ other.height := Nat.succ_le_succ (Nat.zero_le _)
  omega

end ContextFree
