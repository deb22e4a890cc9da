/-!
# Sets of positions

A set of input positions, kept as a list in strictly ascending order. The order is part of the
type, so a set has one form only and two sets are equal as soon as they have the same members.
Union merges two lists and gives way to the longer tail as soon as one of them is used up.
-/

namespace ContextFree

/-- Both lists in one, in ascending order, if both are ascending; a common number appears once. -/
def mergeAscending : List Nat → List Nat → List Nat
  | [], right => right
  | left, [] => left
  | a :: left, b :: right =>
    if a < b then a :: mergeAscending left (b :: right)
    else if b < a then b :: mergeAscending (a :: left) right
    else a :: mergeAscending left right
termination_by left right => left.length + right.length

theorem mem_mergeAscending {x : Nat} {left right : List Nat} :
    x ∈ mergeAscending left right ↔ x ∈ left ∨ x ∈ right := by
  fun_induction mergeAscending left right with
  | case1 right => simp
  | case2 left _ => simp
  | case3 a left b right h ih => simp [ih, or_assoc]
  | case4 a left b right h h' ih =>
    simp only [List.mem_cons, ih]
    constructor
    · rintro (h | (h | h) | h) <;> simp [h]
    · rintro ((h | h) | h | h) <;> simp [h]
  | case5 a left b right h h' ih =>
    have : a = b := by omega
    subst this
    simp only [List.mem_cons, ih]
    constructor
    · rintro (h | h | h) <;> simp [h]
    · rintro ((h | h) | h | h) <;> simp [h]

theorem pairwise_mergeAscending {left right : List Nat} (hl : left.Pairwise (· < ·))
    (hr : right.Pairwise (· < ·)) : (mergeAscending left right).Pairwise (· < ·) := by
  fun_induction mergeAscending left right with
  | case1 right => exact hr
  | case2 left _ => exact hl
  | case3 a left b right h ih =>
    obtain ⟨ha, hl⟩ := List.pairwise_cons.mp hl
    refine List.pairwise_cons.mpr ⟨fun x hx => ?_, ih hl hr⟩
    rcases mem_mergeAscending.mp hx with hx | hx
    · exact ha x hx
    · rcases List.mem_cons.mp hx with rfl | hx
      · exact h
      · exact Nat.lt_trans h ((List.pairwise_cons.mp hr).1 x hx)
  | case4 a left b right h h' ih =>
    obtain ⟨hb, hr⟩ := List.pairwise_cons.mp hr
    refine List.pairwise_cons.mpr ⟨fun x hx => ?_, ih hl hr⟩
    rcases mem_mergeAscending.mp hx with hx | hx
    · rcases List.mem_cons.mp hx with rfl | hx
      · exact h'
      · exact Nat.lt_trans h' ((List.pairwise_cons.mp hl).1 x hx)
    · exact hb x hx
  | case5 a left b right h h' ih =>
    have : a = b := by omega
    subst this
    obtain ⟨ha, hl⟩ := List.pairwise_cons.mp hl
    obtain ⟨hb, hr⟩ := List.pairwise_cons.mp hr
    refine List.pairwise_cons.mpr ⟨fun x hx => ?_, ih hl hr⟩
    rcases mem_mergeAscending.mp hx with hx | hx
    · exact ha x hx
    · exact hb x hx

/-- A finite set of input positions. -/
structure Positions where
  toList : List Nat
  ascending : toList.Pairwise (· < ·)
  deriving DecidableEq

namespace Positions

/-- No position. -/
def empty : Positions :=
  ⟨[], .nil⟩

/-- One position. -/
def single (pos : Nat) : Positions :=
  ⟨[pos], by simp⟩

/-- The positions of both sets. -/
def union (a b : Positions) : Positions :=
  ⟨mergeAscending a.toList b.toList, pairwise_mergeAscending a.ascending b.ascending⟩

/-- The positions of all sets of a list. -/
def unions (sets : List Positions) : Positions :=
  sets.foldr union empty

instance : Membership Nat Positions :=
  ⟨fun set pos => pos ∈ set.toList⟩

instance (pos : Nat) (set : Positions) : Decidable (pos ∈ set) :=
  inferInstanceAs (Decidable (pos ∈ set.toList))

@[simp]
theorem mem_empty (pos : Nat) : ¬ pos ∈ empty :=
  List.not_mem_nil

@[simp]
theorem mem_single (pos other : Nat) : pos ∈ single other ↔ pos = other :=
  List.mem_singleton

@[simp]
theorem mem_union (pos : Nat) (a b : Positions) : pos ∈ a.union b ↔ pos ∈ a ∨ pos ∈ b :=
  mem_mergeAscending

@[simp]
theorem mem_unions (pos : Nat) (sets : List Positions) :
    pos ∈ unions sets ↔ ∃ set ∈ sets, pos ∈ set := by
  induction sets with
  | nil => simp [unions]
  | cons set sets ih =>
    have h : unions (set :: sets) = set.union (unions sets) := rfl
    rw [h, mem_union, ih]
    simp

end Positions

end ContextFree
