import ContextFree.Proofs.Analysis.Height
import ContextFree.Proofs.Renaming.Basic
import ContextFree.Sentence.Generator

/-!
# Sentences under other numbers

A nonterminal has trees of the same heights in both grammars (`Renaming.exists_tree_iff`), so both
have the same table of heights, whatever order it was settled in (`Renaming.heights_eq`). Hence the
candidates at each depth are the same, in the same order, and a generator that is fed the same
choices comes to the same sentence with the same choices left over (`Renaming.generate_eq`).
-/

namespace ContextFree

/-- A measure has a least value just if that value tells which bounds are met. -/
theorem isLeast_range_iff {β : Type} {measure : β → Nat} {least : Nat} :
    IsLeast (Set.range measure) least ↔ ∀ bound, (∃ x, measure x ≤ bound) ↔ least ≤ bound := by
  constructor
  · intro h bound
    obtain ⟨⟨x, rfl⟩, hlower⟩ := h
    constructor
    · intro hbound
      obtain ⟨other, hother⟩ := hbound
      exact Nat.le_trans (hlower ⟨other, rfl⟩) hother
    · intro hbound
      exact ⟨x, hbound⟩
  · intro h
    have hlower : ∀ x, least ≤ measure x := fun x => (h (measure x)).mp ⟨x, Nat.le_refl _⟩
    obtain ⟨x, hx⟩ := (h least).mpr (Nat.le_refl _)
    exact ⟨⟨x, Nat.le_antisymm hx (hlower x)⟩, Set.forall_mem_range.mpr hlower⟩

theorem Alternative.nonterminal_mem_rename_iff {f : Nat → Nat} {symbols : Alternative Nat}
    {id : Nat} : .nonterminal id ∈ Alternative.rename f symbols ↔
      ∃ old, .nonterminal old ∈ symbols ∧ f old = id := by
  rw [List.mem_map]
  constructor
  · intro h
    obtain ⟨symbol, hsymbol, heq⟩ := h
    cases symbol with
    | terminal text => cases heq
    | nonterminal old => exact ⟨old, hsymbol, Symbol.nonterminal.inj heq⟩
  · intro h
    obtain ⟨old, hold, rfl⟩ := h
    exact ⟨.nonterminal old, hold, rfl⟩

namespace Renaming

variable {a b : Grammar} (numbers : Renaming a b) {id height : Nat}

/-! ## Heights -/

/-- A nonterminal has a tree of some height on both sides or on neither. -/
theorem exists_tree_iff : (∃ tree : Tree b (numbers.nonterminal id), tree.height ≤ height) ↔
    ∃ tree : Tree a id, tree.height ≤ height := by
  induction height generalizing id with
  | zero =>
    constructor <;>
    · intro h
      obtain ⟨tree, hle⟩ := h
      exact absurd hle (Nat.not_succ_le_zero _)
  | succ height ih =>
    simp only [exists_tree_le_succ_iff, exists_forest_le_iff, numbers.alternatives, List.mem_map]
    constructor
    · intro h
      obtain ⟨_, ⟨symbols, hmem, rfl⟩, htrees⟩ := h
      refine ⟨symbols, hmem, fun callee hcallee => ih.mp (htrees _ ?_)⟩
      exact Alternative.nonterminal_mem_rename_iff.mpr ⟨callee, hcallee, rfl⟩
    · intro h
      obtain ⟨symbols, hmem, htrees⟩ := h
      refine ⟨_, ⟨symbols, hmem, rfl⟩, fun callee hcallee => ?_⟩
      obtain ⟨old, hold, rfl⟩ := Alternative.nonterminal_mem_rename_iff.mp hcallee
      exact ih.mpr (htrees old hold)

theorem heights_eq (id : Nat) : (Analysis.heights b).getD (numbers.nonterminal id) none =
    (Analysis.heights a).getD id none := by
  apply Option.ext
  intro height
  rw [Analysis.heights_eq_some_iff, Analysis.heights_eq_some_iff, isLeast_range_iff,
    isLeast_range_iff]
  simp only [numbers.exists_tree_iff]

theorem alternativeHeight_eq (symbols : Alternative Nat) :
    Analysis.alternativeHeight (Analysis.heights b)
        (Alternative.rename numbers.nonterminal symbols) =
      Analysis.alternativeHeight (Analysis.heights a) symbols := by
  refine congrArg (Option.map (· + 1)) ?_
  induction symbols with
  | nil => rfl
  | cons symbol rest ih =>
    have hsymbol : Analysis.symbolHeight (Analysis.heights b) (symbol.map numbers.nonterminal) =
        Analysis.symbolHeight (Analysis.heights a) symbol := by
      cases symbol with
      | terminal text => rfl
      | nonterminal id => exact numbers.heights_eq id
    show Analysis.tallest _ (symbol.map _ :: Alternative.rename _ rest) = _
    rw [Analysis.tallest, Analysis.tallest, hsymbol, ih]

/-! ## Sentences -/

variable {σ : Type} {maxDepth : Nat}

/-- At each depth the same alternatives may be chosen on both sides. -/
theorem candidates_eq (depth id : Nat) :
    Generator.candidates ⟨b, maxDepth, _, rfl⟩ depth (numbers.nonterminal id) =
      (Generator.candidates ⟨a, maxDepth, _, rfl⟩ depth id).map
        (Alternative.rename numbers.nonterminal) := by
  unfold Generator.candidates
  rw [numbers.alternatives, List.filter_map]
  refine congrArg (List.map _) (List.filter_congr fun symbols _ => ?_)
  simp only [Function.comp_apply, Generator.isCandidate, numbers.alternativeHeight_eq,
    numbers.heights_eq]

/-- Where each nonterminal comes to the same terminals, so does each alternative. -/
theorem deriveAlternative_eq {derive derive' : Nat → σ → List String × σ}
    (hderive : ∀ id, derive' (numbers.nonterminal id) = derive id) (symbols : Alternative Nat) :
    Generator.deriveAlternative derive' (Alternative.rename numbers.nonterminal symbols) =
      Generator.deriveAlternative derive symbols := by
  induction symbols with
  | nil => rfl
  | cons symbol rest ih =>
    funext source
    show Generator.deriveAlternative _ (symbol.map _ :: Alternative.rename _ rest) source = _
    cases symbol with
    | terminal text => simp only [Symbol.map, Generator.deriveAlternative, ih]
    | nonterminal id => simp only [Symbol.map, Generator.deriveAlternative, ih, hderive]

/-- A choice among changed alternatives is the changed choice. -/
theorem get_map_choose {β γ : Type} (choose : Chooser σ) (f : β → γ) (xs : List β) (source : σ)
    (hpos : 0 < xs.length) (hpos' : 0 < (xs.map f).length) :
    (xs.map f).get (choose _ hpos' source).1 = f (xs.get (choose _ hpos source).1) ∧
      (choose _ hpos' source).2 = (choose _ hpos source).2 := by
  have hcast : ∀ n (hn : n = xs.length) (h : 0 < n),
      ((choose n h source).1 : Nat) = (choose _ hpos source).1 ∧
        (choose n h source).2 = (choose _ hpos source).2 := by
    intro n hn h
    subst hn
    exact ⟨rfl, rfl⟩
  obtain ⟨hchoice, hsource⟩ := hcast _ (List.length_map f) hpos'
  refine ⟨?_, hsource⟩
  simp only [List.get_eq_getElem, List.getElem_map, hchoice]

/-- The same choices lead to the same terminals, and are used up alike. -/
theorem derive_eq (choose : Chooser σ) (levels : Nat) : ∀ depth id,
    Generator.derive ⟨b, maxDepth, _, rfl⟩ choose levels depth (numbers.nonterminal id) =
      Generator.derive ⟨a, maxDepth, _, rfl⟩ choose levels depth id := by
  induction levels with
  | zero => exact fun _ _ => rfl
  | succ levels ih =>
    intro depth id
    funext source
    unfold Generator.derive
    rw [numbers.candidates_eq]
    cases Generator.candidates ⟨a, maxDepth, _, rfl⟩ depth id with
    | nil => rfl
    | cons first others =>
      obtain ⟨hchoice, hsource⟩ := get_map_choose choose (Alternative.rename numbers.nonterminal)
        (first :: others) source (Nat.succ_pos _) (Nat.succ_pos _)
      refine (congrArg₂ (Generator.deriveAlternative _) hchoice hsource).trans ?_
      rw [numbers.deriveAlternative_eq (ih (depth + 1))]

include numbers in
/-- The same choices lead to the same result with the same choices left over. -/
theorem generate_eq (start : String) (choose : Chooser σ) (source : σ) :
    Generator.generate ⟨b, maxDepth, _, rfl⟩ start choose source =
      Generator.generate ⟨a, maxDepth, _, rfl⟩ start choose source := by
  unfold Generator.generate
  rw [numbers.idOf?]
  cases a.idOf? start with
  | none => rfl
  | some id =>
    simp only [Option.map_some, numbers.heights_eq, numbers.derive_eq, Generator.levelLimit,
      numbers.nonterminalCount_eq]

end Renaming

end ContextFree
