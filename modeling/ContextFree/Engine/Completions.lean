import Std.Data.HashSet

/-!
# Completions

A completion is the fact that a call can end at a position. The facts are kept twice: as a set of
pairs, which answers whether one is known, and as a list of positions for each call, in the order
in which they were found, which is what a late caller goes through. The lists reach as far as the
highest call recorded so far.
-/

namespace ContextFree

/-- The known ends of calls. -/
structure Completions where
  /-- Calls and their ends. -/
  known : Std.HashSet (Nat × Nat)
  /-- The ends of each call, first found first. -/
  ends : Array (Array Nat)

namespace Completions

/-- Nothing is complete. -/
def empty : Completions :=
  ⟨∅, #[]⟩

/-- Nothing is complete, and there is room for `count` facts, of two machine words each. Nothing if
that would be half of all bytes that a machine word can count, or more. -/
def withRoom? (count : UInt64) : Option Completions :=
  if 16 * count.toNat < UInt64.size / 2 then some .empty else none

/-- Whether a call is known to end at a position. -/
def has (completions : Completions) (node stop : Nat) : Bool :=
  completions.known.contains (node, stop)

/-- The known ends of a call. -/
def endsOf (completions : Completions) (node : Nat) : Array Nat :=
  completions.ends[node]?.getD #[]

/-- How many facts are known. -/
def count (completions : Completions) : Nat :=
  completions.known.size

/-- The lists, long enough to hold one for `node`. -/
def reachTo (ends : Array (Array Nat)) (node : Nat) : Array (Array Nat) :=
  if node < ends.size then ends else ends ++ Array.replicate (node + 1 - ends.size) #[]

/-- One fact more, and whether it is new. -/
def record (completions : Completions) (node stop : Nat) : Bool × Completions :=
  if completions.has node stop then (false, completions)
  else
    let ⟨known, ends⟩ := completions
    (true, ⟨known.insert (node, stop), (reachTo ends node).modify node (·.push stop)⟩)

end Completions

end ContextFree
