import ContextFree.Engine.Completions
import Std.Data.HashSet.Lemmas

/-!
# What the completions hold

The set of facts answers whether an input is accepted, the lists of ends drive the callers that come
late. `Consistent` says that the two tell the same, and recording keeps them in agreement.
-/

namespace ContextFree.Completions

variable {completions : Completions}

theorem getElem?_reachTo (ends : Array (Array Nat)) (node other : Nat) :
    ((reachTo ends node)[other]?).getD #[] = (ends[other]?).getD #[] := by
  unfold reachTo
  split
  · rfl
  · next h =>
    rw [Array.getElem?_append]
    split
    · rfl
    · next hge =>
      rw [Array.getElem?_replicate, Array.getElem?_eq_none (by omega)]
      split <;> rfl

theorem lt_size_reachTo (ends : Array (Array Nat)) (node : Nat) :
    node < (reachTo ends node).size := by
  unfold reachTo
  split
  · assumption
  · simp only [Array.size_append, Array.size_replicate]
    omega

theorem record_of_has {node stop : Nat} (h : completions.has node stop = true) :
    completions.record node stop = (false, completions) := by
  simp only [record, h, ↓reduceIte]

/-- A fact that is not known yet is recorded as new. -/
theorem fst_record (node stop : Nat) :
    (completions.record node stop).1 = !completions.has node stop := by
  unfold record
  split
  · next h => simp only [h, Bool.not_true]
  · next h => simp only [h, Bool.not_false]

/-- Recording a fact makes it known, and no other. -/
theorem has_record (node stop other end' : Nat) :
    (completions.record node stop).2.has other end' =
      (completions.has other end' || decide (other = node ∧ end' = stop)) := by
  unfold record
  split
  · next h =>
    by_cases heq : other = node ∧ end' = stop
    · rw [heq.1, heq.2, h, Bool.true_or]
    · rw [decide_eq_false heq, Bool.or_false]
  · next h =>
    simp only [has, Std.HashSet.contains_insert, Bool.or_comm (completions.known.contains _)]
    congr 1
    rw [Bool.eq_iff_iff]
    simp only [beq_iff_eq, Prod.mk.injEq, decide_eq_true_eq]
    constructor <;> rintro ⟨rfl, rfl⟩ <;> exact ⟨rfl, rfl⟩

/-- A new end goes to the back of its call's list; the other lists stay as they are. -/
theorem endsOf_record (node stop other : Nat) :
    (completions.record node stop).2.endsOf other =
      if other = node ∧ completions.has node stop = false then
        (completions.endsOf other).push stop
      else completions.endsOf other := by
  unfold record
  split
  · next h => simp [h]
  · next h =>
    simp only [endsOf, Array.getElem?_modify, h, and_true]
    by_cases heq : node = other
    · subst heq
      have hlt := lt_size_reachTo completions.ends node
      rw [if_pos rfl, if_pos rfl, ← getElem?_reachTo completions.ends node node,
        Array.getElem?_eq_getElem hlt]
      rfl
    · rw [if_neg heq, if_neg (fun h => heq h.symm), getElem?_reachTo]

/-- A new fact is one fact more. -/
theorem count_record (node stop : Nat) :
    (completions.record node stop).2.count =
      completions.count + if completions.has node stop then 0 else 1 := by
  unfold record
  split
  · rfl
  · next h =>
    have hnew : (node, stop) ∉ completions.known := h
    simp only [count, Std.HashSet.size_insert, if_neg hnew]

/-- The set of facts and the lists tell the same, and no list tells anything twice. -/
structure Consistent (completions : Completions) : Prop where
  mem_endsOf_iff : ∀ node stop, stop ∈ completions.endsOf node ↔ completions.has node stop = true
  nodup_endsOf : ∀ node, (completions.endsOf node).toList.Nodup

theorem consistent_empty : empty.Consistent where
  mem_endsOf_iff node stop := by simp [empty, endsOf, has]
  nodup_endsOf node := by simp [empty, endsOf]

/-- Recording keeps the set and the lists in agreement. -/
theorem Consistent.record (h : completions.Consistent) (node stop : Nat) :
    (completions.record node stop).2.Consistent where
  mem_endsOf_iff other end' := by
    rw [has_record, endsOf_record]
    split
    · next hnew =>
      obtain ⟨rfl, -⟩ := hnew
      simp [h.mem_endsOf_iff]
    · next hold =>
      rw [h.mem_endsOf_iff, Bool.or_eq_true, decide_eq_true_eq]
      constructor
      · exact Or.inl
      · intro h'
        rcases h' with hhas | ⟨rfl, rfl⟩
        · exact hhas
        · simpa using hold
  nodup_endsOf other := by
    rw [endsOf_record]
    split
    · next hnew =>
      obtain ⟨rfl, hnew⟩ := hnew
      rw [Array.toList_push]
      refine List.nodup_append.mpr ⟨h.nodup_endsOf other, by simp, ?_⟩
      intro a ha b hb heq
      obtain rfl := heq
      rw [List.mem_singleton] at hb
      subst hb
      have := (h.mem_endsOf_iff other a).mp (Array.mem_toList_iff.mp ha)
      rw [hnew] at this
      cases this
    · exact h.nodup_endsOf other

end ContextFree.Completions
