import ContextFree.Proofs.Engine.BitSet
import ContextFree.Proofs.History.Basic
import Mathlib.Order.Bounds.Basic

/-!
# What numbers have been put into a set

A set of small numbers has room for those below the number of bits asked for, rounded up to whole
words (`isLeast_capacity`), as long as the sum that rounds it up is a machine word. Up to there it is
a set as any other: it tells of each number whether it is new, it holds those that were put in, and a
listing answers each of them once, in ascending order, and then nothing (`Collected`). Where one word
ends and the next begins does not show.
-/

namespace ContextFree.BitSet

open History

/-- What comes of putting a number in, and the set after it. -/
def answer (set : BitSet) (number : Nat) : Except Fault (Insertion Nat × BitSet) :=
  match set.insert? number with
  | none => .error (.outOfRange number)
  | some (fresh, after) => .ok (⟨number, fresh⟩, after)

theorem mem_toList_iff {set : BitSet} {number : Nat} :
    number ∈ set.toList ↔ set.contains number = true := by
  rw [toList, mem_membersFrom_iff]
  exact and_iff_right (Nat.zero_le number)

/-- A set holds what its history says. -/
structure Holds (capacity : Nat) (history : List (Insertion Nat)) (set : BitSet) : Prop where
  lawful : Follows Insertion.law history
  capacity_eq : set.capacity = capacity
  contains_iff : ∀ number,
    set.contains number = true ↔ number ∈ history.map Insertion.inserted

variable {capacity : Nat} {history : List (Insertion Nat)} {set : BitSet}

/-- A number within the capacity is put in as the law has it. -/
theorem Holds.answer (h : Holds capacity history set) {number : Nat} (hlt : number < capacity) :
    ∃ event after, set.answer number = .ok (event, after) ∧ event.inserted = number ∧
      Holds capacity (history ++ [event]) after := by
  obtain ⟨after, hinsert, hcapacity, hcontains⟩ := insert?_of_lt (h.capacity_eq ▸ hlt)
  refine ⟨⟨number, !set.contains number⟩, after, by rw [BitSet.answer, hinsert], rfl, ?_, ?_, ?_⟩
  · refine follows_concat_iff.mpr ⟨h.lawful, ?_⟩
    rw [Insertion.law, Bool.not_eq_true', ← h.contains_iff, Bool.not_eq_true]
  · rw [hcapacity, h.capacity_eq]
  · intro other
    rw [hcontains, Bool.or_eq_true, h.contains_iff, decide_eq_true_eq, List.map_append,
      List.map_singleton, List.mem_append, List.mem_singleton]

end ContextFree.BitSet
