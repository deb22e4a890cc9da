import ContextFree.Proofs.Engine.Completions
import ContextFree.Proofs.History.Basic
import ContextFree.Proofs.Places
import Mathlib.Algebra.BigOperators.Group.Finset.Piecewise

/-!
# What completions have been recorded

Facts are recorded one after the other, each a call and an end of it, in any order of the calls.
What the completions hold is told by the facts alone: the ends of a call are those that it was
recorded with, each where it first was (`endsIn`). The set of facts and the lists of ends tell the
same, and there are as many facts as all lists hold together (`Agreeing`).
-/

namespace ContextFree.Completions

open History

/-- What comes of recording a fact, and the completions after it. -/
def answer (completions : Completions) (fact : Nat × Nat) :
    Except Fault (Insertion (Nat × Nat) × Completions) :=
  let (fresh, after) := completions.record fact.1 fact.2
  .ok (⟨fact, fresh⟩, after)

/-- The end that a fact tells of a call. -/
def endOf? (node : Nat) (fact : Nat × Nat) : Option Nat :=
  if fact.1 = node then some fact.2 else none

/-- The ends that a call was recorded with, in the order in which they first were. -/
def endsIn (facts : List (Nat × Nat)) (node : Nat) : List Nat :=
  (facts.filterMap (endOf? node)).eraseDups

section Facts

variable {facts : List (Nat × Nat)} {node stop : Nat}

theorem endOf?_eq_some_iff {fact : Nat × Nat} :
    endOf? node fact = some stop ↔ fact = (node, stop) := by
  rw [endOf?, Option.ite_none_right_eq_some, Option.some.injEq, Prod.ext_iff]

theorem mem_filterMap_endOf?_iff :
    stop ∈ facts.filterMap (endOf? node) ↔ (node, stop) ∈ facts := by
  simp only [List.mem_filterMap, endOf?_eq_some_iff, exists_eq_right]

theorem mem_endsIn_iff : stop ∈ endsIn facts node ↔ (node, stop) ∈ facts := by
  rw [endsIn, List.mem_eraseDups, mem_filterMap_endOf?_iff]

/-- One fact more is one end more of its call, unless it was recorded before. -/
theorem endsIn_concat (other : Nat) : endsIn (facts ++ [(node, stop)]) other =
    if other = node ∧ (node, stop) ∉ facts then endsIn facts other ++ [stop]
    else endsIn facts other := by
  by_cases hnode : other = node
  · subst hnode
    have hfound : endOf? other (other, stop) = some stop := if_pos rfl
    simp only [endsIn, eraseDups_filterMap_of_some hfound, mem_filterMap_endOf?_iff, true_and,
      ite_not]
  · rw [if_neg (hnode ·.1)]
    exact eraseDups_filterMap_of_none (if_neg (Ne.symm hnode))

end Facts

/-! ## What the completions hold -/

/-- Completions hold what their history says. -/
structure Holds (history : List (Insertion (Nat × Nat))) (completions : Completions) : Prop where
  lawful : Follows Insertion.law history
  consistent : completions.Consistent
  endsOf_eq : ∀ node,
    (completions.endsOf node).toList = endsIn (history.map Insertion.inserted) node
  count_eq : ∀ bound, (∀ fact ∈ history.map Insertion.inserted, fact.1 < bound) →
    completions.count = ∑ node ∈ Finset.range bound, (completions.endsOf node).size

theorem holds_empty : Holds [] empty where
  lawful := follows_nil
  consistent := consistent_empty
  endsOf_eq node := by simp [empty, endsOf, endsIn]
  count_eq bound _ := by simp [empty, endsOf, count]

variable {history : List (Insertion (Nat × Nat))} {completions : Completions}

theorem Holds.has_iff (h : Holds history completions) (node stop : Nat) :
    completions.has node stop = true ↔ (node, stop) ∈ history.map Insertion.inserted := by
  rw [← h.consistent.mem_endsOf_iff, ← Array.mem_toList_iff, h.endsOf_eq, mem_endsIn_iff]

/-- A fact that is new is one end more in one list, and no other list changes. -/
theorem size_endsOf_record (node stop other : Nat) :
    ((completions.record node stop).2.endsOf other).size = (completions.endsOf other).size +
      if node = other then (if completions.has node stop then 0 else 1) else 0 := by
  rw [endsOf_record]
  by_cases hnode : node = other
  · subst hnode
    cases hhas : completions.has node stop <;> simp
  · simp [hnode, Ne.symm hnode]

theorem Holds.record (h : Holds history completions) (node stop : Nat) :
    Holds (history ++ [⟨(node, stop), (completions.record node stop).1⟩])
      (completions.record node stop).2 where
  lawful := by
    refine follows_concat_iff.mpr ⟨h.lawful, ?_⟩
    rw [Insertion.law, fst_record, Bool.not_eq_true', ← h.has_iff, Bool.not_eq_true]
  consistent := h.consistent.record node stop
  endsOf_eq other := by
    have hnew : completions.has node stop = false ↔
        (node, stop) ∉ history.map Insertion.inserted := by
      rw [← h.has_iff, Bool.not_eq_true]
    rw [List.map_append, List.map_singleton, endsIn_concat, endsOf_record, ← h.endsOf_eq]
    simp only [hnew]
    split
    · exact Array.toList_push ..
    · rfl
  count_eq bound hbound := by
    rw [List.map_append, List.map_singleton] at hbound
    -- The list that has one end more is among those that are added up.
    have hnode : node < bound := hbound (node, stop) (by simp)
    rw [count_record, h.count_eq bound fun fact hfact =>
      hbound fact (List.mem_append_left _ hfact)]
    simp only [size_endsOf_record, Finset.sum_add_distrib, Finset.sum_ite_eq,
      Finset.mem_range, hnode, if_true]

theorem Holds.answer (h : Holds history completions) (fact : Nat × Nat) :
    ∃ event after, completions.answer fact = .ok (event, after) ∧ event.inserted = fact ∧
      Holds (history ++ [event]) after :=
  ⟨_, _, rfl, rfl, h.record fact.1 fact.2⟩

/-! ## The two agree -/

/-- What the history of completions tells, and what the completions tell after it. -/
structure Agreeing (history : List (Insertion (Nat × Nat))) (completions : Completions) : Prop where
  /-- A fact is new just if it was not recorded before. -/
  fresh_iff : ∀ before fact fresh after, history = before ++ ⟨fact, fresh⟩ :: after →
    (fresh = true ↔ fact ∉ before.map Insertion.inserted)
  /-- A fact is known just if its end is in the list of its call. -/
  has_iff : ∀ node stop, completions.has node stop = true ↔ stop ∈ completions.endsOf node
  /-- No end is twice in a list. -/
  nodup_endsOf : ∀ node, (completions.endsOf node).toList.Nodup
  /-- A list has the ends that its call was recorded with, in the order in which they first were. -/
  endsOf_eq : ∀ node,
    (completions.endsOf node).toList = endsIn (history.map Insertion.inserted) node
  /-- A call that was never recorded has no ends. -/
  endsOf_eq_empty : ∀ node, (∀ stop, (node, stop) ∉ history.map Insertion.inserted) →
    completions.endsOf node = #[]
  /-- There are as many facts as all lists hold together. -/
  count_eq : ∀ bound, (∀ fact ∈ history.map Insertion.inserted, fact.1 < bound) →
    completions.count = ∑ node ∈ Finset.range bound, (completions.endsOf node).size

theorem Holds.agreeing (h : Holds history completions) : Agreeing history completions where
  fresh_iff before fact fresh after heq := h.lawful before _ after heq
  has_iff node stop := (h.consistent.mem_endsOf_iff node stop).symm
  nodup_endsOf := h.consistent.nodup_endsOf
  endsOf_eq := h.endsOf_eq
  endsOf_eq_empty node hnone := by
    rw [← Array.toList_eq_nil_iff, h.endsOf_eq, List.eq_nil_iff_forall_not_mem]
    exact fun stop hstop => hnone stop (mem_endsIn_iff.mp hstop)
  count_eq := h.count_eq

/-- Whatever facts are recorded, in whatever order of the calls, the completions tell what was
recorded, and the set of facts and the lists of ends tell the same. -/
theorem exists_agreeing (facts : List (Nat × Nat)) :
    ∃ history completions, perform answer empty facts = .ok (history, completions) ∧
      history.map Insertion.inserted = facts ∧ Agreeing history completions := by
  obtain ⟨history, completions, hperform, hfacts, hholds⟩ :=
    exists_perform holds_empty (fun _ _ fact hholds _ => hholds.answer fact)
      (fun _ _ _ _ => trivial : Follows (fun _ _ => True) facts)
  exact ⟨history, completions, hperform, hfacts, hholds.agreeing⟩

end ContextFree.Completions
