import ContextFree.Engine.CallGraph
import Std.Data.HashMap.Lemmas

/-!
# What the graph of calls holds

Calls and their numbers belong to each other one to one, and only calls of the graph wait. Both
entering a call and waiting for one keep that (`Consistent.enter`, `Consistent.await`), and neither
ever changes the number of a call or takes a waiter away.
-/

namespace ContextFree.CallGraph

variable {graph : CallGraph}

/-- A waiter is kept at a call. -/
def Waits (graph : CallGraph) (node : Nat) (waiter : Waiter) : Prop :=
  ∃ waiters, graph.waiters[node]? = some waiters ∧ waiter ∈ waiters

/-- The tables of the graph agree: numbers and calls belong to each other one to one, there is a
list of waiters for each call, and only calls wait. -/
structure Consistent (graph : CallGraph) : Prop where
  find?_eq_some_iff : ∀ {call : Call} {node : Nat},
    graph.find? call = some node ↔ graph.calls[node]? = some call
  size_waiters : graph.waiters.size = graph.nodeCount
  nodup_waiters : ∀ {node : Nat} {waiters : Array Waiter},
    graph.waiters[node]? = some waiters → waiters.toList.Nodup
  caller_lt : ∀ {node : Nat} {waiter : Waiter},
    graph.Waits node waiter → waiter.caller < graph.nodeCount

theorem consistent_empty : empty.Consistent where
  find?_eq_some_iff := by simp [empty, find?]
  size_waiters := rfl
  nodup_waiters h := by simp [empty] at h
  caller_lt := by
    intro node waiter hwaiter
    obtain ⟨waiters, hwaiters, -⟩ := hwaiter
    simp [empty] at hwaiters

theorem Consistent.lt_nodeCount (h : graph.Consistent) {call : Call} {node : Nat}
    (hfind : graph.find? call = some node) : node < graph.nodeCount :=
  (Array.getElem?_eq_some_iff.mp (h.find?_eq_some_iff.mp hfind)).1

/-- A call has one number. -/
theorem Consistent.call_unique (h : graph.Consistent) {call call' : Call} {node : Nat}
    (hfind : graph.find? call = some node) (hfind' : graph.find? call' = some node) :
    call = call' := by
  have h1 := h.find?_eq_some_iff.mp hfind
  rw [h.find?_eq_some_iff.mp hfind', Option.some.injEq] at h1
  exact h1.symm

/-- Only calls of the graph are waited for. -/
theorem Consistent.node_lt (h : graph.Consistent) {node : Nat} {waiter : Waiter}
    (hwaits : graph.Waits node waiter) : node < graph.nodeCount := by
  obtain ⟨waiters, hwaiters, -⟩ := hwaits
  rw [← h.size_waiters]
  exact (Array.getElem?_eq_some_iff.mp hwaiters).1

/-! ## Entering a call -/

theorem enter_of_find? {call : Call} {node : Nat} (h : graph.find? call = some node) :
    graph.enter call = (node, graph) := by
  simp only [enter, h]

theorem enter_of_find?_none {call : Call} (h : graph.find? call = none) :
    graph.enter call = (graph.nodeCount, ⟨graph.index.insert call graph.nodeCount,
      graph.calls.push call, graph.waiters.push #[], graph.edgeCount⟩) := by
  simp only [enter, h, nodeCount]

/-- Entering a call gives it the number it has then, and changes no other call's number. -/
theorem find?_enter (call other : Call) :
    (graph.enter call).2.find? other =
      if other = call then some (graph.enter call).1 else graph.find? other := by
  cases hfind : graph.find? call with
  | some node =>
    rw [enter_of_find? hfind]
    split
    · next h => rw [h, hfind]
    · rfl
  | none =>
    rw [enter_of_find?_none hfind]
    simp only [find?, Std.HashMap.getElem?_insert, beq_iff_eq, eq_comm (a := call)]

/-- Entering a call makes nobody wait. -/
theorem waits_enter (call : Call) {node : Nat} {waiter : Waiter} :
    (graph.enter call).2.Waits node waiter ↔ graph.Waits node waiter := by
  cases hfind : graph.find? call with
  | some node => rw [enter_of_find? hfind]
  | none =>
    rw [enter_of_find?_none hfind]
    simp only [Waits, Array.getElem?_push]
    split
    · next h => simp [h]
    · rfl

theorem edgeCount_enter (call : Call) : (graph.enter call).2.edgeCount = graph.edgeCount := by
  cases hfind : graph.find? call with
  | some node => rw [enter_of_find? hfind]
  | none => rw [enter_of_find?_none hfind]

/-- A call that has not come up before is one call more. -/
theorem nodeCount_enter (call : Call) :
    (graph.enter call).2.nodeCount =
      graph.nodeCount + if graph.find? call = none then 1 else 0 := by
  cases hfind : graph.find? call with
  | some node => simp [enter_of_find? hfind]
  | none => simp [enter_of_find?_none hfind, nodeCount]

/-- Numbers and calls belong to each other one to one. -/
def Numbered (graph : CallGraph) : Prop :=
  ∀ call node, graph.find? call = some node ↔ graph.calls[node]? = some call

theorem Numbered.enter (h : graph.Numbered) (call : Call) : (graph.enter call).2.Numbered := by
  cases hfind : graph.find? call with
  | some node =>
    rw [enter_of_find? hfind]
    exact h
  | none =>
    intro other node
    rw [find?_enter, enter_of_find?_none hfind]
    show (if other = call then some graph.calls.size else graph.find? other) = some node ↔
      (graph.calls.push call)[node]? = some other
    rw [Array.getElem?_push]
    by_cases hother : other = call
    · subst hother
      rw [if_pos rfl, Option.some.injEq]
      by_cases hnode : node = graph.calls.size
      · simp [hnode]
      · rw [if_neg hnode, ← h, hfind]
        simp [Ne.symm hnode]
    · rw [if_neg hother, h]
      by_cases hnode : node = graph.calls.size
      · simp [hnode, Ne.symm hother]
      · rw [if_neg hnode]

theorem Consistent.enter (h : graph.Consistent) (call : Call) :
    (graph.enter call).2.Consistent := by
  cases hfind : graph.find? call with
  | some node =>
    rw [enter_of_find? hfind]
    exact h
  | none =>
    have hnumbered : graph.Numbered := fun _ _ => h.find?_eq_some_iff
    refine ⟨hnumbered.enter call _ _, ?_, ?_, ?_⟩
    · rw [enter_of_find?_none hfind]
      simp only [nodeCount, Array.size_push, h.size_waiters]
    · intro node waiters hwaiters
      rw [enter_of_find?_none hfind, Array.getElem?_push] at hwaiters
      split at hwaiters
      · cases hwaiters
        simp
      · exact h.nodup_waiters hwaiters
    · intro node waiter hwaits
      have hlt := h.caller_lt ((waits_enter call).mp hwaits)
      rw [nodeCount_enter]
      omega

/-! ## Waiting for a call -/

/-- Who waits for a call already is not taken again, and the graph stays as it is. -/
theorem await_of_waits {node : Nat} {waiter : Waiter} (h : graph.Waits node waiter) :
    graph.await node waiter = .ok (false, graph) := by
  obtain ⟨waiters, hwaiters, hmem⟩ := h
  simp only [CallGraph.await, hwaiters, Array.contains_iff_mem.mpr hmem, if_true]

/-- Who does not wait for a call of the graph yet is taken, behind those who do. -/
theorem await_of_not_waits {node : Nat} {waiter : Waiter} (hnode : node < graph.waiters.size)
    (hnew : ¬ graph.Waits node waiter) :
    graph.await node waiter = .ok (true, ⟨graph.index, graph.calls,
      graph.waiters.modify node (·.push waiter), graph.edgeCount + 1⟩) := by
  have hpresent := Array.getElem?_eq_getElem hnode
  have hmem : waiter ∉ graph.waiters[node] := fun hin => hnew ⟨_, hpresent, hin⟩
  simp [CallGraph.await, hpresent, hmem]

/-- A call of the graph takes a waiter, tells whether it is new there, and keeps it. -/
theorem Consistent.await (h : graph.Consistent) {node : Nat} (waiter : Waiter)
    (hnode : node < graph.nodeCount) (hcaller : waiter.caller < graph.nodeCount) :
    ∃ fresh graph', graph.await node waiter = .ok (fresh, graph') ∧ graph'.Consistent ∧
      (fresh = true ↔ ¬ graph.Waits node waiter) ∧ graph'.index = graph.index ∧
      graph'.calls = graph.calls ∧
      graph'.edgeCount = graph.edgeCount + (if fresh then 1 else 0) ∧
      ∀ other waiter', graph'.Waits other waiter' ↔
        graph.Waits other waiter' ∨ other = node ∧ waiter' = waiter := by
  have hlt : node < graph.waiters.size := by
    rw [h.size_waiters]
    exact hnode
  have hpresent := Array.getElem?_eq_getElem hlt
  by_cases hwaits : graph.Waits node waiter
  · refine ⟨false, graph, await_of_waits hwaits, h, by simp [hwaits], rfl, rfl, rfl, ?_⟩
    intro other waiter'
    refine (or_iff_left_of_imp fun hsame => ?_).symm
    obtain ⟨rfl, rfl⟩ := hsame
    exact hwaits
  · have hmem : waiter ∉ graph.waiters[node] := fun hin => hwaits ⟨_, hpresent, hin⟩
    have hnew : ∀ other waiter', CallGraph.Waits ⟨graph.index, graph.calls,
        graph.waiters.modify node (·.push waiter), graph.edgeCount + 1⟩ other waiter' ↔
        graph.Waits other waiter' ∨ other = node ∧ waiter' = waiter := by
      intro other waiter'
      simp only [Waits, Array.getElem?_modify]
      by_cases heq : node = other
      · subst heq
        simp [hpresent]
      · simp [heq, Ne.symm heq]
    refine ⟨true, ⟨graph.index, graph.calls, graph.waiters.modify node (·.push waiter),
      graph.edgeCount + 1⟩, await_of_not_waits hlt hwaits, ⟨h.find?_eq_some_iff, ?_, ?_, ?_⟩,
      by simp [hwaits], rfl, rfl, rfl, hnew⟩
    · exact (Array.size_modify ..).trans h.size_waiters
    · intro other waiters hwaiters
      simp only [Array.getElem?_modify] at hwaiters
      split at hwaiters
      · next heq =>
        subst heq
        rw [hpresent] at hwaiters
        cases hwaiters
        rw [Array.toList_push]
        refine List.nodup_append.mpr ⟨h.nodup_waiters hpresent, by simp, ?_⟩
        intro a ha b hb heq
        obtain rfl := heq
        rw [List.mem_singleton] at hb
        exact hmem (hb ▸ Array.mem_toList_iff.mp ha)
      · exact h.nodup_waiters hwaiters
    · intro other waiter' hw
      rcases (hnew other waiter').mp hw with hold | ⟨-, rfl⟩
      · exact h.caller_lt hold
      · exact hcaller

end ContextFree.CallGraph
