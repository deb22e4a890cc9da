import ContextFree.Analysis.Height
import ContextFree.Proofs.Analysis.Settle
import ContextFree.Proofs.Derivation.Tree
import Mathlib.Order.Bounds.Basic

/-!
# Heights are those of the shallowest trees

Every height in the table is at all times that of some tree or above it (`Attained`), and a round
takes in one level of trees more: after `n` of them a nonterminal with a tree of height `n` or less
has a height no greater than that (`FoundWithin`). A nonterminal that has a tree at all has one that is
no taller than there are nonterminals, so the rounds of `heights` are enough, and the heights are
exact (`heights_eq_some_iff`), as are those of alternatives (`tallest_heights_eq_some_iff`).

There is one exact table only (`Settling.eq_heights`), and a look keeps it exact. So the rounds would
end there without any limit, and `heights_exact` says so together with what the heights are.
-/

namespace ContextFree.Analysis

variable {grammar : Grammar} {table table' : Array (Option Nat)} {id height : Nat}
  {symbols : Alternative Nat}

/-- Every height in the table is that of some tree or above it. -/
def Attained (grammar : Grammar) (table : Array (Option Nat)) : Prop :=
  ∀ id height, table.getD id none = some height →
    ∃ tree : Tree grammar id, tree.height ≤ height

/-- Whatever has a tree of at most `limit` levels has a height no greater than that of the tree. -/
def FoundWithin (grammar : Grammar) (limit : Nat) (table : Array (Option Nat)) : Prop :=
  ∀ id (tree : Tree grammar id), tree.height ≤ limit →
    ∃ height ≤ tree.height, table.getD id none = some height

/-- Whatever has a height in one table has one in the other that is no greater. -/
def Lowers (table table' : Array (Option Nat)) : Prop :=
  ∀ id height, table.getD id none = some height →
    ∃ height' ≤ height, table'.getD id none = some height'

theorem Lowers.refl (table : Array (Option Nat)) : Lowers table table :=
  fun _ height h => ⟨height, Nat.le_refl _, h⟩

theorem Lowers.trans {last : Array (Option Nat)} (h : Lowers table table')
    (h' : Lowers table' last) : Lowers table last := by
  intro id height hheight
  obtain ⟨middle, hmiddle, hmiddle'⟩ := h id height hheight
  obtain ⟨low, hlow, hlow'⟩ := h' id middle hmiddle'
  exact ⟨low, hlow.trans hmiddle, hlow'⟩

theorem FoundWithin.lowers {limit : Nat} (h : FoundWithin grammar limit table)
    (hlowers : Lowers table table') : FoundWithin grammar limit table' := by
  intro id tree htree
  obtain ⟨height, hle, hheight⟩ := h id tree htree
  obtain ⟨low, hlow, hlow'⟩ := hlowers id height hheight
  exact ⟨low, hlow.trans hle, hlow'⟩

/-! ## The height of an alternative -/

theorem tallest_terminal_cons (text : String) (rest : Alternative Nat) :
    tallest table (.terminal text :: rest) = tallest table rest := by
  cases h : tallest table rest <;> simp [tallest, symbolHeight, h]

theorem tallest_nonterminal_cons_eq_some_iff {rest : Alternative Nat} :
    tallest table (.nonterminal id :: rest) = some height ↔
      ∃ first others, table.getD id none = some first ∧ tallest table rest = some others ∧
        height = max first others := by
  simp only [tallest, symbolHeight, Option.bind_eq_bind, Option.bind_eq_some_iff, Option.pure_def,
    Option.some.injEq, eq_comm (a := height)]
  constructor
  · intro h
    obtain ⟨first, hfirst, others, hothers, hmax⟩ := h
    exact ⟨first, others, hfirst, hothers, hmax⟩
  · intro h
    obtain ⟨first, others, hfirst, hothers, hmax⟩ := h
    exact ⟨first, hfirst, others, hothers, hmax⟩

/-- The height of a sequence of symbols is that of some forest or above it. -/
theorem Attained.exists_forest (h : Attained grammar table)
    (htallest : tallest table symbols = some height) :
    ∃ forest : Forest grammar symbols, forest.height ≤ height := by
  refine exists_forest_le_iff.mpr ?_
  induction symbols generalizing height with
  | nil => exact fun id hid => absurd hid List.not_mem_nil
  | cons symbol rest ih =>
    cases symbol with
    | terminal text =>
      rw [tallest_terminal_cons] at htallest
      exact fun id hid => ih htallest id ((List.mem_cons.mp hid).resolve_left nofun)
    | nonterminal callee =>
      obtain ⟨first, others, hfirst, hothers, rfl⟩ :=
        tallest_nonterminal_cons_eq_some_iff.mp htallest
      intro id hid
      rcases List.mem_cons.mp hid with heq | hid
      · obtain rfl := Symbol.nonterminal.inj heq
        obtain ⟨tree, htree⟩ := h _ _ hfirst
        exact ⟨tree, le_max_of_le_left htree⟩
      · obtain ⟨tree, htree⟩ := ih hothers id hid
        exact ⟨tree, le_max_of_le_right htree⟩

/-- What has a forest of at most `limit` levels has a height no greater than that of the forest. -/
theorem FoundWithin.exists_tallest {limit : Nat} (h : FoundWithin grammar limit table)
    (forest : Forest grammar symbols) (hforest : forest.height ≤ limit) :
    ∃ height ≤ forest.height, tallest table symbols = some height := by
  induction forest with
  | nil => exact ⟨0, Nat.le_refl _, rfl⟩
  | terminal text rest ih =>
    rw [tallest_terminal_cons]
    exact ih hforest
  | nonterminal hmem children rest _ ih =>
    obtain ⟨hchildren, hrest⟩ := max_le_iff.mp hforest
    obtain ⟨first, hfirst, hfirst'⟩ := h _ ⟨_, hmem, children⟩ hchildren
    obtain ⟨others, hothers, hothers'⟩ := ih hrest
    exact ⟨max first others, max_le_max hfirst hothers,
      tallest_nonterminal_cons_eq_some_iff.mpr ⟨first, others, hfirst', hothers', rfl⟩⟩

/-! ## One look -/

/-- The lowest height is that of one of the alternatives. -/
theorem exists_of_lowest_eq_some {alternatives : Alternatives Nat}
    (h : lowest table alternatives = some height) :
    ∃ symbols ∈ alternatives, ∃ below, tallest table symbols = some below ∧ height = below + 1 := by
  obtain ⟨symbols, hmem, hheight⟩ := List.mem_filterMap.mp (List.min?_eq_some_iff.mp h).1
  obtain ⟨below, hbelow, rfl⟩ := Option.map_eq_some_iff.mp hheight
  exact ⟨symbols, hmem, below, hbelow, rfl⟩

/-- The lowest height is no greater than that of any alternative. -/
theorem exists_lowest_le {alternatives : Alternatives Nat} (hmem : symbols ∈ alternatives)
    (h : tallest table symbols = some height) :
    ∃ found ≤ height + 1, lowest table alternatives = some found := by
  have hheight : height + 1 ∈ alternatives.filterMap (alternativeHeight table) :=
    List.mem_filterMap.mpr ⟨symbols, hmem, by rw [alternativeHeight, h]; rfl⟩
  cases hlowest : lowest table alternatives with
  | none =>
    rw [List.min?_eq_none_iff.mp hlowest] at hheight
    cases hheight
  | some found => exact ⟨found, (List.min?_eq_some_iff.mp hlowest).2 _ hheight, rfl⟩

theorem getD_setIfInBounds (table : Array (Option Nat)) (id other : Nat) (entry : Option Nat) :
    (table.setIfInBounds id entry).getD other none =
      if other = id ∧ id < table.size then entry else table.getD other none := by
  simp only [Array.getD_eq_getD_getElem?, Array.getElem?_setIfInBounds, eq_comm (a := other)]
  by_cases heq : id = other
  · by_cases hlt : id < table.size
    · simp [heq, heq ▸ hlt]
    · simp [heq, heq ▸ hlt]
  · simp [heq]

/-- A look leaves the table as it is if the height there is no greater than the lowest of the
alternatives, and otherwise puts that in. -/
theorem improveHeight_cases (grammar : Grammar) (table : Array (Option Nat)) (id : Nat) :
    improveHeight grammar table id = table ∧
        (∀ found, lowest table (grammar.alternatives id) = some found →
          ∃ known ≤ found, table.getD id none = some known) ∨
      ∃ found, lowest table (grammar.alternatives id) = some found ∧
        (∀ known, table.getD id none = some known → found < known) ∧
        improveHeight grammar table id = table.setIfInBounds id (some found) := by
  unfold improveHeight
  split
  · next hlowest =>
    left
    refine ⟨rfl, fun found hfound => ?_⟩
    rw [hlowest] at hfound
    cases hfound
  · next found hlowest hknown =>
    right
    refine ⟨found, hlowest, fun known hknown' => ?_, rfl⟩
    rw [hknown] at hknown'
    cases hknown'
  · next found known hlowest hknown =>
    split
    · next hlt =>
      right
      refine ⟨found, hlowest, fun known' hknown' => ?_, rfl⟩
      rw [hknown, Option.some.injEq] at hknown'
      exact hknown' ▸ hlt
    · next hge =>
      left
      refine ⟨rfl, fun found' hfound' => ⟨known, ?_, hknown⟩⟩
      rw [hlowest, Option.some.injEq] at hfound'
      exact hfound' ▸ Nat.le_of_not_lt hge

/-- A look never raises a height. -/
theorem lowers_improveHeight : Lowers table (improveHeight grammar table id) := by
  rcases improveHeight_cases grammar table id with ⟨heq, -⟩ | ⟨found, -, hlt, heq⟩
  · rw [heq]
    exact Lowers.refl table
  · intro other height hheight
    rw [heq, getD_setIfInBounds]
    split
    · next hother =>
      rw [hother.1] at hheight
      exact ⟨found, Nat.le_of_lt (hlt _ hheight), rfl⟩
    · exact ⟨height, Nat.le_refl _, hheight⟩

/-- After a look at a nonterminal its height is no greater than the lowest of its alternatives. -/
theorem exists_getD_improveHeight_le {found : Nat} (hid : id < table.size)
    (hlowest : lowest table (grammar.alternatives id) = some found) :
    ∃ height ≤ found, (improveHeight grammar table id).getD id none = some height := by
  rcases improveHeight_cases grammar table id with ⟨heq, hknown⟩ | ⟨found', hlowest', -, heq⟩
  · rw [heq]
    exact hknown found hlowest
  · rw [hlowest, Option.some.injEq] at hlowest'
    rw [heq, getD_setIfInBounds, if_pos ⟨rfl, hid⟩]
    exact ⟨found', Nat.le_of_eq hlowest'.symm, rfl⟩

/-- A look puts in no height but one that some tree has, or one above. -/
theorem Attained.improveHeight (h : Attained grammar table) (id : Nat) :
    Attained grammar (improveHeight grammar table id) := by
  rcases improveHeight_cases grammar table id with ⟨heq, -⟩ | ⟨found, hlowest, -, heq⟩
  · rw [heq]
    exact h
  · intro other height hheight
    rw [heq, getD_setIfInBounds] at hheight
    split at hheight
    · next hother =>
      obtain ⟨rfl, -⟩ := hother
      obtain rfl := Option.some.inj hheight
      obtain ⟨symbols, hmem, below, hbelow, rfl⟩ := exists_of_lowest_eq_some hlowest
      exact exists_tree_le_succ_iff.mpr ⟨symbols, hmem, h.exists_forest hbelow⟩
    · exact h other height hheight

theorem size_improveHeight : (improveHeight grammar table id).size = table.size := by
  unfold improveHeight
  split
  · rfl
  · exact Array.size_setIfInBounds
  · split
    · exact Array.size_setIfInBounds
    · rfl

/-! ## One round -/

/-- Looks at some nonterminals in turn never raise a height, and find the heights of their trees of
one level more. -/
theorem foldl_improveHeight {limit : Nat} (ids : List Nat) : ∀ {table},
    FoundWithin grammar limit table →
      Lowers table (ids.foldl (improveHeight grammar) table) ∧
      ∀ id ∈ ids, id < table.size → ∀ tree : Tree grammar id, tree.height ≤ limit + 1 →
        ∃ height ≤ tree.height,
          (ids.foldl (improveHeight grammar) table).getD id none = some height := by
  induction ids with
  | nil => exact fun _ => ⟨Lowers.refl _, fun id hid => absurd hid List.not_mem_nil⟩
  | cons first rest ih =>
    intro table h
    have hfirst : Lowers table (improveHeight grammar table first) := lowers_improveHeight
    obtain ⟨hlowers, hfound⟩ := ih (h.lowers hfirst)
    refine ⟨hfirst.trans hlowers, fun id hid hlt tree htree => ?_⟩
    by_cases hrest : id ∈ rest
    · exact hfound id hrest (size_improveHeight.symm ▸ hlt) tree htree
    · obtain rfl := (List.mem_cons.mp hid).resolve_right hrest
      -- the look at the nonterminal itself finds the height, and later ones only lower it
      obtain ⟨below, hbelow, htallest⟩ :=
        h.exists_tallest tree.children (Nat.le_of_succ_le_succ htree)
      obtain ⟨found, hle, hlowest⟩ := exists_lowest_le tree.mem_alternatives htallest
      obtain ⟨height, hheight, hgetD⟩ := exists_getD_improveHeight_le hlt hlowest
      obtain ⟨low, hlow, hlow'⟩ := hlowers _ _ hgetD
      exact ⟨low, hlow.trans (hheight.trans (hle.trans (Nat.succ_le_succ hbelow))), hlow'⟩

/-- What holds of the table after `limit` rounds. -/
structure Settling (grammar : Grammar) (limit : Nat) (table : Array (Option Nat)) : Prop where
  size_eq : table.size = grammar.nonterminalCount
  attained : Attained grammar table
  foundWithin : FoundWithin grammar limit table

/-- A round takes in one level of trees more. -/
theorem Settling.sweep {limit : Nat} (h : Settling grammar limit table) :
    Settling grammar (limit + 1)
      (sweep grammar.nonterminalCount (improveHeight grammar) table) where
  size_eq := by
    have hkept : ∀ table id, table.size = grammar.nonterminalCount →
        (improveHeight grammar table id).size = grammar.nonterminalCount :=
      fun _ _ hsize => size_improveHeight.trans hsize
    exact foldl_improve_kept hkept _ h.size_eq
  attained := by
    have hkept : ∀ table id, Attained grammar table →
        Attained grammar (improveHeight grammar table id) :=
      fun _ id hattained => hattained.improveHeight id
    exact foldl_improve_kept hkept _ h.attained
  foundWithin := by
    intro id tree htree
    have hlt := tree.lt_nonterminalCount
    exact (foldl_improveHeight _ h.foundWithin).2 id (List.mem_range.mpr hlt)
      (h.size_eq.symm ▸ hlt) tree htree

theorem settling_replicate :
    Settling grammar 0 (Array.replicate grammar.nonterminalCount none) where
  size_eq := Array.size_replicate
  attained := by
    intro id height hheight
    rw [Array.getD_eq_getD_getElem?, Array.getElem?_replicate] at hheight
    split at hheight <;> cases hheight
  foundWithin := fun _ _ htree => absurd htree (Nat.not_succ_le_zero _)

/-! ## The table -/

theorem settling_heights (grammar : Grammar) :
    Settling grammar (grammar.nonterminalCount + 1) (heights grammar) := by
  have hround : ∀ limit table, Settling grammar limit table → Settling grammar (limit + 1)
      (sweep grammar.nonterminalCount (improveHeight grammar) table) := fun _ _ h => h.sweep
  have h := settle_reaches hround (grammar.nonterminalCount + 1) settling_replicate
  rwa [Nat.zero_add] at h

/-- With as many rounds as there are nonterminals no height is greater than that of a tree, however
tall. -/
theorem Settling.foundWithin_of_le {limit : Nat} (h : Settling grammar limit table)
    (hlimit : grammar.nonterminalCount ≤ limit) (any : Nat) : FoundWithin grammar any table := by
  intro id tree _
  by_cases htree : tree.height ≤ limit
  · exact h.foundWithin id tree htree
  · obtain ⟨low, hlow⟩ := tree.exists_height_le
    obtain ⟨height, hle, hheight⟩ := h.foundWithin id low (by omega)
    exact ⟨height, by omega, hheight⟩

/-- No height in the table is greater than that of a tree, however tall. -/
theorem foundWithin_heights (limit : Nat) : FoundWithin grammar limit (heights grammar) :=
  (settling_heights grammar).foundWithin_of_le (Nat.le_succ _) limit

/-- An answer that is found just if there is something, and is then attained and no greater than any,
is the least. -/
theorem eq_some_iff_isLeast {β : Type} {measure : β → Nat} {found : Option Nat}
    (hattained : ∀ height, found = some height → ∃ b, measure b ≤ height)
    (hfound : ∀ b, ∃ height ≤ measure b, found = some height) :
    found = some height ↔ IsLeast (Set.range measure) height := by
  have hleast : ∀ {height}, found = some height → IsLeast (Set.range measure) height := by
    intro height hheight
    have hlower : ∀ b, height ≤ measure b := by
      intro b
      obtain ⟨height', hle, hheight'⟩ := hfound b
      rw [hheight, Option.some.injEq] at hheight'
      exact hheight' ▸ hle
    obtain ⟨b, hb⟩ := hattained height hheight
    exact ⟨⟨b, Nat.le_antisymm hb (hlower b)⟩, Set.forall_mem_range.mpr hlower⟩
  refine ⟨hleast, fun h => ?_⟩
  obtain ⟨b, -⟩ := h.1
  obtain ⟨height', -, hheight'⟩ := hfound b
  rw [hheight', (hleast hheight').unique h]

/-- With as many rounds as there are nonterminals a height is that of the shallowest trees. -/
theorem Settling.getD_eq_some_iff {limit : Nat} (h : Settling grammar limit table)
    (hlimit : grammar.nonterminalCount ≤ limit) : table.getD id none = some height ↔
      IsLeast (Set.range (Tree.height : Tree grammar id → Nat)) height :=
  eq_some_iff_isLeast (fun _ hheight => h.attained _ _ hheight)
    fun tree => h.foundWithin_of_le hlimit tree.height id tree (Nat.le_refl _)

/-- The height of a nonterminal is that of its shallowest trees. -/
theorem heights_eq_some_iff : (heights grammar).getD id none = some height ↔
    IsLeast (Set.range (Tree.height : Tree grammar id → Nat)) height :=
  (settling_heights grammar).getD_eq_some_iff (Nat.le_succ _)

/-- The height of a sequence of symbols is that of its shallowest forests. -/
theorem tallest_heights_eq_some_iff : tallest (heights grammar) symbols = some height ↔
    IsLeast (Set.range (Forest.height : Forest grammar symbols → Nat)) height :=
  eq_some_iff_isLeast (fun _ hheight => (settling_heights grammar).attained.exists_forest hheight)
    fun forest => (foundWithin_heights forest.height).exists_tallest forest (Nat.le_refl _)

/-- A nonterminal has no height just if it has no tree. -/
theorem heights_eq_none_iff :
    (heights grammar).getD id none = none ↔ IsEmpty (Tree grammar id) := by
  rw [Option.eq_none_iff_forall_ne_some, ← not_nonempty_iff]
  constructor
  · intro hnone hnonempty
    obtain ⟨tree⟩ := hnonempty
    obtain ⟨height, -, hheight⟩ := foundWithin_heights tree.height id tree (Nat.le_refl _)
    exact hnone height hheight
  · intro hempty height hheight
    obtain ⟨tree, -⟩ := (heights_eq_some_iff.mp hheight).1
    exact hempty ⟨tree⟩

/-- Every height counts the root. -/
theorem one_le_height (h : (heights grammar).getD id none = some height) : 1 ≤ height := by
  obtain ⟨⟨tree, rfl⟩, -⟩ := heights_eq_some_iff.mp h
  exact Nat.succ_le_succ (Nat.zero_le _)

/-- No height is greater than the number of nonterminals. -/
theorem height_le_nonterminalCount (h : (heights grammar).getD id none = some height) :
    height ≤ grammar.nonterminalCount := by
  obtain ⟨⟨tree, -⟩, hlower⟩ := heights_eq_some_iff.mp h
  obtain ⟨low, hlow⟩ := tree.exists_height_le
  exact (hlower ⟨low, rfl⟩).trans hlow

/-- An alternative is shallowest just if its height is that of its nonterminal. -/
theorem isShallowest_iff (hmem : symbols ∈ grammar.alternatives id)
    (htallest : tallest (heights grammar) symbols = some height) :
    IsShallowest grammar id symbols ↔ (heights grammar).getD id none = some (height + 1) := by
  obtain ⟨⟨forest, rfl⟩, hlower⟩ := tallest_heights_eq_some_iff.mp htallest
  rw [heights_eq_some_iff]
  constructor
  · intro h
    obtain ⟨children, hle⟩ := h
    refine ⟨⟨⟨symbols, hmem, forest⟩, rfl⟩, Set.forall_mem_range.mpr fun tree => ?_⟩
    exact (Nat.succ_le_succ (hlower ⟨children, rfl⟩)).trans (hle tree)
  · intro h
    exact ⟨forest, fun tree => h.2 ⟨tree, rfl⟩⟩

/-! ## The rounds come to rest -/

/-- A look adds nothing false and loses nothing. -/
theorem Settling.improveHeight {limit : Nat} (h : Settling grammar limit table) (id : Nat) :
    Settling grammar limit (improveHeight grammar table id) where
  size_eq := size_improveHeight.trans h.size_eq
  attained := h.attained.improveHeight id
  foundWithin := h.foundWithin.lowers lowers_improveHeight

/-- With as many rounds as there are nonterminals there is one table only that can be there. -/
theorem Settling.eq_heights {limit : Nat} (h : Settling grammar limit table)
    (hlimit : grammar.nonterminalCount ≤ limit) : table = heights grammar := by
  have hsize := (settling_heights grammar).size_eq
  refine Array.ext (h.size_eq.trans hsize.symm) fun id hid hid' => ?_
  have hgetD : table.getD id none = (heights grammar).getD id none := by
    ext height
    rw [h.getD_eq_some_iff hlimit, heights_eq_some_iff]
  rwa [Array.getD_eq_getD_getElem?, Array.getD_eq_getD_getElem?, Array.getElem?_eq_getElem hid,
    Array.getElem?_eq_getElem hid'] at hgetD

/-- No look at any nonterminal improves the heights. -/
theorem improveHeight_heights (id : Nat) :
    improveHeight grammar (heights grammar) id = heights grammar :=
  ((settling_heights grammar).improveHeight id).eq_heights (Nat.le_succ _)

/-- The heights are what rounds without a limit come to. -/
theorem comesToRest_heights (grammar : Grammar) :
    ComesToRest (sweep grammar.nonterminalCount (improveHeight grammar))
      (Array.replicate grammar.nonterminalCount none) (heights grammar) := by
  apply settle_comesToRest
  exact (settling_heights grammar).sweep.eq_heights (Nat.le_add_right_of_le (Nat.le_succ _))

/-- What the height of a nonterminal is: none if it has no tree, and otherwise the least height of
its trees. -/
def IsHeight (grammar : Grammar) (id : Nat) : Option Nat → Prop
  | none => IsEmpty (Tree grammar id)
  | some height => IsLeast (Set.range (Tree.height : Tree grammar id → Nat)) height

/-- The heights are exact: rounds that are repeated until one changes nothing come to them, no look
at a nonterminal improves them any more, and they are those of the shallowest trees, from 1 up to the
number of nonterminals. -/
theorem heights_exact (grammar : Grammar) :
    ComesToRest (sweep grammar.nonterminalCount (improveHeight grammar))
        (Array.replicate grammar.nonterminalCount none) (heights grammar) ∧
      (∀ id, improveHeight grammar (heights grammar) id = heights grammar) ∧
      (heights grammar).size = grammar.nonterminalCount ∧
      ∀ id, IsHeight grammar id ((heights grammar).getD id none) ∧
        ∀ height, (heights grammar).getD id none = some height →
          1 ≤ height ∧ height ≤ grammar.nonterminalCount := by
  refine ⟨comesToRest_heights grammar, improveHeight_heights, (settling_heights grammar).size_eq,
    fun id => ⟨?_, fun height h => ⟨one_le_height h, height_le_nonterminalCount h⟩⟩⟩
  cases hheight : (heights grammar).getD id none with
  | none => exact heights_eq_none_iff.mp hheight
  | some height => exact heights_eq_some_iff.mp hheight

end ContextFree.Analysis
