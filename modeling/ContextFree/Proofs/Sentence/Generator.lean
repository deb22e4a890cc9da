import ContextFree.Proofs.Analysis.Height
import ContextFree.Proofs.Quiescence
import ContextFree.Sentence.Generator

/-!
# The sentences that a generator gives

Whatever is chosen, a generator gives the yield of a tree that closes off at the maximal depth, and
every such yield comes of some choices (`Generator.generate_exact`). Both are inductions on the way down, and
share what makes the way down safe: while there are levels enough for a nonterminal
(`Generator.Room`) there is an alternative to choose, and whichever is chosen leaves levels enough
for what it calls. Up to the maximal depth there are as many levels left as there are nonterminals,
which is enough for any shallowest tree, and from there on heights descend.

That a given tree comes of some choices is shown with choices that are written down in advance
(`Chooser.scripted`), in the order in which the generator makes them.
-/

namespace ContextFree

/-- Choices by place, written down in advance; the first, where the script has no such place. -/
def Chooser.scripted : Chooser (List Nat) := fun n hpos script =>
  match script with
  | [] => (⟨0, hpos⟩, [])
  | choice :: script => if hlt : choice < n then (⟨choice, hlt⟩, script) else (⟨0, hpos⟩, script)

namespace Generator

/-- Some choices make a generator give a sentence. -/
def Generates (generator : Generator) (start : String) (sentence : List String) : Prop :=
  ∃ (σ : Type) (choose : Chooser σ) (source source' : σ),
    generator.generate start choose source = .ok (sentence, source')

/-- There are levels enough for a nonterminal at a depth: it has a tree within them, and as long as
alternatives are chosen freely there are levels to spare for any nonterminal. -/
structure Room (generator : Generator) (levels depth id : Nat) : Prop where
  exists_tree : ∃ tree : Tree generator.grammar id, tree.height ≤ levels
  spare : depth ≤ generator.maxDepth →
    generator.maxDepth - depth + generator.grammar.nonterminalCount ≤ levels

variable {generator : Generator} {levels depth id : Nat} {symbols : Alternative Nat}

/-! ## Candidates -/

/-- The candidates are the alternatives that have a finite derivation, and from the maximal depth on
the shallowest of them. -/
theorem mem_candidates_iff : symbols ∈ generator.candidates depth id ↔
    symbols ∈ generator.grammar.alternatives id ∧ Nonempty (Forest generator.grammar symbols) ∧
      (generator.maxDepth ≤ depth → IsShallowest generator.grammar id symbols) := by
  rw [candidates, List.mem_filter, isCandidate, Analysis.alternativeHeight, generator.heights_eq]
  refine and_congr_right fun hmem => ?_
  cases htallest : Analysis.tallest (Analysis.heights generator.grammar) symbols with
  | none =>
    have hnone : ¬ Nonempty (Forest generator.grammar symbols) := by
      intro h
      obtain ⟨forest⟩ := h
      obtain ⟨height, -, hheight⟩ :=
        (Analysis.foundWithin_heights _).exists_tallest forest (Nat.le_refl _)
      rw [htallest] at hheight
      cases hheight
    simp [hnone]
  | some height =>
    obtain ⟨⟨forest, -⟩, -⟩ := Analysis.tallest_heights_eq_some_iff.mp htallest
    have hforest : Nonempty (Forest generator.grammar symbols) := ⟨forest⟩
    rw [Analysis.isShallowest_iff hmem htallest]
    simp only [Option.map_some, Bool.or_eq_true, decide_eq_true_eq, beq_iff_eq, hforest, true_and]
    constructor
    · intro h hdepth
      exact h.resolve_left (Nat.not_lt_of_le hdepth)
    · intro h
      rcases Nat.lt_or_ge depth generator.maxDepth with hlt | hge
      · exact .inl hlt
      · exact .inr (h hge)

/-- With levels enough there is a candidate: an alternative that a shallowest tree takes. -/
theorem Room.candidates_ne_nil (h : generator.Room levels depth id) :
    generator.candidates depth id ≠ [] := by
  obtain ⟨some, -⟩ := h.exists_tree
  obtain ⟨height, -, hheight⟩ := Analysis.foundWithin_heights _ id some (Nat.le_refl _)
  obtain ⟨⟨tree, rfl⟩, hlower⟩ := Analysis.heights_eq_some_iff.mp hheight
  exact List.ne_nil_of_mem (mem_candidates_iff.mpr ⟨tree.mem_alternatives, ⟨tree.children⟩,
    fun _ => ⟨tree.children, fun other => hlower ⟨other, rfl⟩⟩⟩)

/-- There is a level left while there are enough. -/
theorem Room.exists_eq_succ (h : generator.Room levels depth id) :
    ∃ below, levels = below + 1 := by
  obtain ⟨tree, hle⟩ := h.exists_tree
  exact Nat.exists_eq_succ_of_ne_zero (Nat.ne_zero_of_lt hle)

/-- Whichever candidate is chosen, levels enough are left for the nonterminals that it calls. -/
theorem Room.callee (h : generator.Room (levels + 1) depth id)
    (hmem : symbols ∈ generator.candidates depth id) {callee : Nat}
    (hcallee : .nonterminal callee ∈ symbols) : generator.Room levels (depth + 1) callee := by
  obtain ⟨-, ⟨forest⟩, hshallowest⟩ := mem_candidates_iff.mp hmem
  refine ⟨?_, fun hdepth => ?_⟩
  · rcases Nat.lt_or_ge depth generator.maxDepth with hlt | hge
    · obtain ⟨tree, -⟩ := exists_forest_le_iff.mp ⟨forest, Nat.le_refl _⟩ callee hcallee
      obtain ⟨low, hlow⟩ := tree.exists_height_le
      have hspare := h.spare (Nat.le_of_lt hlt)
      exact ⟨low, by omega⟩
    · obtain ⟨children, hle⟩ := hshallowest hge
      obtain ⟨tree, htree⟩ := h.exists_tree
      obtain ⟨low, hlow⟩ := exists_forest_le_iff.mp ⟨children, Nat.le_refl _⟩ callee hcallee
      have hroot := hle tree
      exact ⟨low, by omega⟩
  · have hspare := h.spare (Nat.le_of_succ_le hdepth)
    omega

/-- A run from the start symbol has levels enough. -/
theorem room_levelLimit (tree : Tree generator.grammar id) :
    generator.Room generator.levelLimit 0 id := by
  obtain ⟨low, hlow⟩ := tree.exists_height_le
  exact ⟨⟨low, hlow.trans (Nat.le_add_left _ _)⟩, fun _ => Nat.le_refl _⟩

/-! ## What comes of choices is a yield -/

variable {σ : Type}

/-- With a level left and a candidate there, `derive` goes on with the one that is chosen. -/
theorem derive_succ {choose : Chooser σ}
    (hpos : 0 < (generator.candidates depth id).length) (source : σ) :
    generator.derive choose (levels + 1) depth id source =
      deriveAlternative (generator.derive choose levels (depth + 1))
        ((generator.candidates depth id).get (choose _ hpos source).1)
        (choose _ hpos source).2 := by
  rw [derive]
  generalize generator.candidates depth id = candidates at hpos
  cases candidates with
  | nil => exact absurd hpos (Nat.lt_irrefl 0)
  | cons first others => rfl

/-- Where each nonterminal comes to the yield of a tree, an alternative comes to that of a forest. -/
theorem exists_forest_of_derive {grammar : Grammar} {limit : Nat}
    {derive : Nat → σ → List String × σ}
    (hderive : ∀ id, .nonterminal id ∈ symbols → ∀ source, ∃ tree : Tree grammar id,
      tree.ClosedFrom limit depth ∧ tree.yield = (derive id source).1) :
    ∀ source, ∃ forest : Forest grammar symbols, forest.ClosedFrom limit depth ∧
      forest.yield = (deriveAlternative derive symbols source).1 := by
  induction symbols with
  | nil => exact fun _ => ⟨.nil, trivial, rfl⟩
  | cons symbol rest ih =>
    intro source
    have hrest := ih fun id hid => hderive id (List.mem_cons_of_mem _ hid)
    cases symbol with
    | terminal text =>
      obtain ⟨forest, hclosed, hyield⟩ := hrest source
      exact ⟨.terminal text forest, hclosed, congrArg (text :: ·) hyield⟩
    | nonterminal id =>
      obtain ⟨tree, htree, hfirst⟩ := hderive id List.mem_cons_self source
      obtain ⟨forest, hforest, hothers⟩ := hrest (derive id source).2
      refine ⟨.nonterminal tree.mem_alternatives tree.children forest,
        ⟨htree.1, htree.2, hforest⟩, ?_⟩
      exact congrArg₂ (· ++ ·) hfirst hothers

/-- With levels enough a nonterminal comes to the yield of a tree that closes off at the maximal
depth, whatever is chosen. -/
theorem exists_tree_of_derive (choose : Chooser σ) (levels : Nat) :
    ∀ {depth id}, generator.Room levels depth id → ∀ source,
      ∃ tree : Tree generator.grammar id, tree.ClosedFrom generator.maxDepth depth ∧
        tree.yield = (generator.derive choose levels depth id source).1 := by
  induction levels with
  | zero =>
    intro depth id h
    obtain ⟨below, hbelow⟩ := h.exists_eq_succ
    cases hbelow
  | succ levels ih =>
    intro depth id h source
    have hpos := List.length_pos_of_ne_nil h.candidates_ne_nil
    have hmem := List.get_mem (generator.candidates depth id) (choose _ hpos source).1
    obtain ⟨halternatives, -, hshallowest⟩ := mem_candidates_iff.mp hmem
    obtain ⟨forest, hclosed, hyield⟩ := exists_forest_of_derive
      (fun callee hcallee source => ih (h.callee hmem hcallee) source) (choose _ hpos source).2
    rw [derive_succ hpos]
    exact ⟨⟨_, halternatives, forest⟩, ⟨hshallowest, hclosed⟩, hyield⟩

/-! ## Every yield comes of some choices -/

/-- With a place at the head of the script, the candidate of that place is chosen. -/
theorem derive_scripted {place : Nat}
    (hplace : (generator.candidates depth id)[place]? = some symbols) (script : List Nat) :
    generator.derive .scripted (levels + 1) depth id (place :: script) =
      deriveAlternative (generator.derive .scripted levels (depth + 1)) symbols script := by
  obtain ⟨hlt, rfl⟩ := List.getElem?_eq_some_iff.mp hplace
  rw [derive_succ (Nat.zero_lt_of_lt hlt)]
  simp only [Chooser.scripted, dif_pos hlt]
  rfl

/-- A forest that closes off at the maximal depth comes of some script, which is used up. -/
theorem exists_script (forest : Forest generator.grammar symbols) : ∀ {depth levels},
    forest.ClosedFrom generator.maxDepth depth →
    (∀ id, .nonterminal id ∈ symbols → generator.Room levels depth id) →
    ∃ script, ∀ later, deriveAlternative (generator.derive .scripted levels depth) symbols
      (script ++ later) = (forest.yield, later) := by
  induction forest with
  | nil => exact fun _ _ => ⟨[], fun _ => rfl⟩
  | terminal text rest ih =>
    intro depth levels hclosed hroom
    obtain ⟨script, hscript⟩ := ih hclosed fun id hid => hroom id (List.mem_cons_of_mem _ hid)
    refine ⟨script, fun later => ?_⟩
    simp only [deriveAlternative, hscript, Forest.yield]
  | @nonterminal id symbols others hmem children rest ih ih' =>
    intro depth levels hclosed hroom
    obtain ⟨hroot, hchildren, hrest⟩ := hclosed
    have h := hroom id List.mem_cons_self
    obtain ⟨below, rfl⟩ := h.exists_eq_succ
    have hcandidate : symbols ∈ generator.candidates depth id :=
      mem_candidates_iff.mpr ⟨hmem, ⟨children⟩, hroot⟩
    obtain ⟨place, hplace⟩ := List.getElem?_of_mem hcandidate
    obtain ⟨script, hscript⟩ := ih hchildren fun callee hcallee => h.callee hcandidate hcallee
    obtain ⟨script', hscript'⟩ := ih' hrest fun callee hcallee =>
      hroom callee (List.mem_cons_of_mem _ hcallee)
    refine ⟨place :: (script ++ script'), fun later => ?_⟩
    simp only [deriveAlternative, List.cons_append, List.append_assoc, derive_scripted hplace,
      hscript, hscript', Forest.yield]

/-! ## The sentences -/

variable {start : String}

/-- A start symbol with a rule gives a sentence unless it has no height. -/
theorem generate_eq (hid : generator.grammar.idOf? start = some id) (choose : Chooser σ)
    (source : σ) :
    generator.generate start choose source =
      match (Analysis.heights generator.grammar).getD id none with
      | none => .error (.unproductive start)
      | some _ => .ok (generator.derive choose generator.levelLimit 0 id source) := by
  rw [← generator.heights_eq]
  unfold generate
  split
  · next hnone => cases hid.symm.trans hnone
  · next id' hid' =>
    obtain rfl := Option.some.inj (hid.symm.trans hid')
    rfl

/-- A start symbol with a tree gives a sentence, whatever is chosen. -/
theorem generate_of_tree (hid : generator.grammar.idOf? start = some id)
    (tree : Tree generator.grammar id) (choose : Chooser σ) (source : σ) :
    generator.generate start choose source =
      .ok (generator.derive choose generator.levelLimit 0 id source) := by
  obtain ⟨height, -, hheight⟩ := Analysis.foundWithin_heights _ id tree (Nat.le_refl _)
  rw [generate_eq hid, hheight]

/-- A start symbol is refused as unproductive just if it has no tree. -/
theorem generate_eq_error_iff (hid : generator.grammar.idOf? start = some id)
    (choose : Chooser σ) (source : σ) :
    generator.generate start choose source = .error (.unproductive start) ↔
      IsEmpty (Tree generator.grammar id) := by
  constructor
  · intro herror
    refine ⟨fun tree => ?_⟩
    rw [generate_of_tree hid tree] at herror
    cases herror
  · intro hempty
    rw [generate_eq hid, Analysis.heights_eq_none_iff.mpr hempty]

/-- The sentences are the yields of the trees that close off at the maximal depth. -/
theorem generates_iff (hid : generator.grammar.idOf? start = some id) (sentence : List String) :
    generator.Generates start sentence ↔ ∃ tree : Tree generator.grammar id,
      tree.ClosedFrom generator.maxDepth 0 ∧ tree.yield = sentence := by
  constructor
  · intro h
    obtain ⟨σ, choose, source, source', hgenerate⟩ := h
    have hproductive : ¬ IsEmpty (Tree generator.grammar id) := by
      intro hempty
      rw [(generate_eq_error_iff hid choose source).mpr hempty] at hgenerate
      cases hgenerate
    obtain ⟨some⟩ := not_isEmpty_iff.mp hproductive
    obtain ⟨tree, hclosed, hyield⟩ :=
      exists_tree_of_derive choose _ (room_levelLimit some) source
    rw [generate_of_tree hid some, Except.ok.injEq] at hgenerate
    rw [hgenerate] at hyield
    exact ⟨tree, hclosed, hyield⟩
  · intro h
    obtain ⟨tree, hclosed, rfl⟩ := h
    have hroom : ∀ callee, .nonterminal callee ∈ [Symbol.nonterminal id] →
        generator.Room generator.levelLimit 0 callee := by
      intro callee hcallee
      obtain rfl := Symbol.nonterminal.inj (List.mem_singleton.mp hcallee)
      exact room_levelLimit tree
    -- the tree is a forest of one, so its script is that of a forest
    obtain ⟨script, hscript⟩ := exists_script
      (.nonterminal tree.mem_alternatives tree.children .nil) ⟨hclosed.1, hclosed.2, trivial⟩ hroom
    have hlast := hscript []
    simp only [deriveAlternative, Forest.yield, List.append_nil, Prod.mk.injEq] at hlast
    refine ⟨List Nat, .scripted, script, [], ?_⟩
    rw [generate_of_tree hid tree, Except.ok.injEq]
    exact Prod.ext hlast.1 hlast.2

/-- What a generator does from a start symbol of number `id`. -/
structure Exact (generator : Generator) (start : String) (id : Nat) : Prop where
  /-- The sentences are the yields of the trees that close off at the maximal depth. -/
  generates_iff : ∀ sentence, generator.Generates start sentence ↔
    ∃ tree : Tree generator.grammar id,
      tree.ClosedFrom generator.maxDepth 0 ∧ tree.yield = sentence
  /-- A tree of at most one level more than the maximal depth is among them. -/
  generates_of_height_le : ∀ tree : Tree generator.grammar id,
    tree.height ≤ generator.maxDepth + 1 → generator.Generates start tree.yield
  /-- With a maximal depth of 0 there are only trees of the least height among them. -/
  height_le_of_maxDepth_eq_zero : generator.maxDepth = 0 → ∀ tree : Tree generator.grammar id,
    tree.ClosedFrom generator.maxDepth 0 → ∀ other : Tree generator.grammar id,
      tree.height ≤ other.height
  /-- Recognition accepts every sentence, whatever the configuration. -/
  accepts : ∀ sentence, generator.Generates start sentence → ∀ config, ∃ recognizer,
    Recognizer.make generator.grammar start config = .ok recognizer ∧
      recognizer.accepts sentence.toArray = .ok true
  /-- There is no sentence just if there is no finite tree, and this is said. -/
  unproductive_iff : ∀ {σ : Type} (choose : Chooser σ) (source : σ),
    generator.generate start choose source = .error (.unproductive start) ↔
      IsEmpty (Tree generator.grammar id)
  /-- Otherwise there is a sentence, whatever is chosen. -/
  exists_sentence : Nonempty (Tree generator.grammar id) → ∀ {σ : Type} (choose : Chooser σ)
    (source : σ), ∃ sentence source',
      generator.generate start choose source = .ok (sentence, source')

/-- The yield of a tree is accepted. -/
theorem accepts_yield {grammar : Grammar} (hid : grammar.idOf? start = some id)
    (tree : Tree grammar id) (config : Config) : ∃ recognizer,
      Recognizer.make grammar start config = .ok recognizer ∧
        recognizer.accepts tree.yield.toArray = .ok true := by
  let recognizer : Recognizer := ⟨grammar, id, tree.lt_nonterminalCount, config⟩
  refine ⟨recognizer, Recognizer.make_of_idOf? hid, (recognizer.accepts_eq_ok_iff _).mpr ?_⟩
  rw [List.size_toArray]
  exact iff_of_true rfl tree.derives

/-- A generator gives, over all choices, exactly the yields of the trees that close off at the maximal
depth, and recognition accepts them all. -/
theorem generate_exact (generator : Generator) {start : String} {id : Nat}
    (hid : generator.grammar.idOf? start = some id) : generator.Exact start id where
  generates_iff := generates_iff hid
  generates_of_height_le tree hheight :=
    (generates_iff hid _).mpr ⟨tree, tree.closedFrom_of_height_le hheight, rfl⟩
  height_le_of_maxDepth_eq_zero hzero tree hclosed other :=
    hclosed.height_le (Nat.le_of_eq hzero) other
  accepts sentence hgenerates config := by
    obtain ⟨tree, -, rfl⟩ := (generates_iff hid sentence).mp hgenerates
    exact accepts_yield hid tree config
  unproductive_iff := generate_eq_error_iff hid
  exists_sentence hnonempty _ choose source := by
    obtain ⟨tree⟩ := hnonempty
    exact ⟨_, _, generate_of_tree hid tree choose source⟩

/-- A grammar of words between the same number of `a` and `b`. -/
def nested : Grammar where
  startSymbol := "S"
  rules := ⟨[("S", [[.terminal "a", .nonterminal "S", .terminal "b"], []])], by decide⟩
  closed := by decide
  start_defined := by decide

/-- The tree that takes the alternative of `nested` with terminals once. -/
def nestedOnce : Tree nested 0 where
  symbols := [.terminal "a", .nonterminal 0, .terminal "b"]
  mem_alternatives := by decide
  children :=
    have hmem : [] ∈ nested.alternatives 0 := by decide
    .terminal "a" (.nonterminal hmem .nil (.terminal "b" .nil))

/-- With a maximal depth of 1 the word of one `a` and one `b` is among the sentences, and accepted. -/
theorem nested_generates : nested.idOf? "S" = some 0 ∧
    (Generator.mk nested 1 _ rfl).Generates "S" ["a", "b"] ∧
    ∃ recognizer, Recognizer.make nested "S" = .ok recognizer ∧
      recognizer.accepts #["a", "b"] = .ok true := by
  have hid : nested.idOf? "S" = some 0 := by decide
  have h := generate_exact ⟨nested, 1, _, rfl⟩ hid
  have hgenerates := h.generates_of_height_le nestedOnce (by decide)
  exact ⟨hid, hgenerates, h.accepts _ hgenerates {}⟩

end Generator

end ContextFree
