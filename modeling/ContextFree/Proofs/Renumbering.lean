import ContextFree.Proofs.ScheduleIndependence
import Mathlib.Data.List.Perm.Basic
import Mathlib.Logic.Equiv.Defs

/-!
# The same state under other numbers

Calls are numbered in the order in which they come up, so two runs that know the same may number it
differently. A chart has no numbers in it; here the step back is taken. Two engines with the same
chart are in the same state, table by table, once the calls of one have been given the numbers that
they have in the other (`Invariant.exists_renumbered`).

Numbers that no call has are left as they are. That makes the change of numbers a permutation, so it
can be undone, and each statement about tables need only be shown in one direction.
-/

namespace ContextFree

/-- The waiter with another number for its caller. -/
def Waiter.renumber (number : Nat → Nat) (waiter : Waiter) : Waiter :=
  { waiter with caller := number waiter.caller }

/-- The descriptor with another number for its call. -/
def Descriptor.renumber (number : Nat → Nat) : Descriptor → Descriptor
  | .expand node => .expand (number node)
  | .resume node pos slot => .resume (number node) pos slot

@[simp]
theorem Waiter.renumber_symm_renumber (number : Equiv.Perm Nat) (waiter : Waiter) :
    (waiter.renumber number).renumber number.symm = waiter := by
  simp [renumber]

@[simp]
theorem Descriptor.renumber_symm_renumber (number : Equiv.Perm Nat) (descriptor : Descriptor) :
    (descriptor.renumber number).renumber number.symm = descriptor := by
  cases descriptor <;> simp [renumber]

@[simp]
theorem Descriptor.renumber_renumber_symm (number : Equiv.Perm Nat) (descriptor : Descriptor) :
    (descriptor.renumber number.symm).renumber number = descriptor := by
  cases descriptor <;> simp [renumber]

theorem Descriptor.renumber_injective (number : Equiv.Perm Nat) :
    Function.Injective (Descriptor.renumber number) :=
  Function.LeftInverse.injective (renumber_symm_renumber number)

namespace CallGraph

variable {graph other : CallGraph} {call : Call} {node : Nat}

/-- The number in `other` of the call that has a number in `graph`; a number that no call has stays
as it is. -/
def numberIn (graph other : CallGraph) (node : Nat) : Nat :=
  (graph.calls[node]?.bind other.find?).getD node

/-- Each call of a graph has its new number in another. -/
def NumberedIn (graph : CallGraph) (number : Nat → Nat) (other : CallGraph) : Prop :=
  ∀ {call node}, graph.find? call = some node → other.find? call = some (number node)

theorem numberIn_of_nodeCount_le (h : graph.nodeCount ≤ node) : graph.numberIn other node = node := by
  simp only [numberIn, Array.getElem?_eq_none h, Option.bind_none, Option.getD_none]

/-- Where the calls of a graph are calls of another, they have their new numbers there. -/
theorem Consistent.numberedIn (hc : graph.Consistent)
    (hcalls : ∀ {call node}, graph.find? call = some node → ∃ node', other.find? call = some node') :
    graph.NumberedIn (graph.numberIn other) other := by
  intro call node hfind
  obtain ⟨node', hother⟩ := hcalls hfind
  simp only [numberIn, hc.find?_eq_some_iff.mp hfind, Option.bind_some, hother, Option.getD_some]

/-- Taking the numbers of one graph to those of another and back changes nothing. -/
theorem numberIn_numberIn (hc : graph.Consistent) (hcount : graph.nodeCount = other.nodeCount)
    (h : graph.NumberedIn (graph.numberIn other) other)
    (h' : other.NumberedIn (other.numberIn graph) graph) (node : Nat) :
    other.numberIn graph (graph.numberIn other node) = node := by
  rcases Nat.lt_or_ge node graph.nodeCount with hlt | hge
  · obtain ⟨call, hfind⟩ := hc.exists_find? hlt
    exact Option.some.inj ((h' (h hfind)).symm.trans hfind)
  · rw [numberIn_of_nodeCount_le hge, numberIn_of_nodeCount_le (hcount ▸ hge)]

/-- Graphs of the same calls differ by a permutation of the numbers. -/
theorem exists_perm_numberedIn (hc : graph.Consistent) (hc' : other.Consistent)
    (hcalls : ∀ call, (∃ node, graph.find? call = some node) ↔ ∃ node, other.find? call = some node)
    (hcount : graph.nodeCount = other.nodeCount) :
    ∃ number : Equiv.Perm Nat, graph.NumberedIn number other ∧ other.NumberedIn number.symm graph := by
  have h : graph.NumberedIn (graph.numberIn other) other :=
    hc.numberedIn fun hfind => (hcalls _).mp ⟨_, hfind⟩
  have h' : other.NumberedIn (other.numberIn graph) graph :=
    hc'.numberedIn fun hfind => (hcalls _).mpr ⟨_, hfind⟩
  exact ⟨⟨graph.numberIn other, other.numberIn graph, numberIn_numberIn hc hcount h h',
    numberIn_numberIn hc' hcount.symm h' h⟩, h, h'⟩

theorem NumberedIn.denotes {number : Nat → Nat} (h : graph.NumberedIn number other)
    {descriptor : Descriptor} {task : Task} (hdenotes : graph.Denotes descriptor task) :
    other.Denotes (descriptor.renumber number) task := by
  cases hdenotes with
  | expand hfind => exact .expand (h hfind)
  | resume hfind => exact .resume (h hfind)

end CallGraph

namespace Facts

variable {facts other : Facts} {number : Nat → Nat} (hc : facts.Consistent)
  (hnumber : facts.graph.NumberedIn number other.graph) {node : Nat}

include hc hnumber

/-- Whoever waits for a call waits for it under the new numbers, if all edges are there. -/
theorem Consistent.waits_renumber (hedges : facts.edges ⊆ other.edges) {waiter : Waiter}
    (hwaits : facts.graph.Waits node waiter) :
    other.graph.Waits (number node) (waiter.renumber number) := by
  obtain ⟨callee, caller, hcallee, hcaller, hedge⟩ := hc.exists_edge hwaits
  obtain ⟨node', caller', hcallee', hcaller', hwaits'⟩ := hedges hedge
  rw [hnumber hcallee, Option.some.injEq] at hcallee'
  rw [hnumber hcaller, Option.some.injEq] at hcaller'
  rw [Waiter.renumber, hcallee', hcaller']
  exact hwaits'

/-- Where a call can end it can end under its new number, if all ends are there. -/
theorem Consistent.has_renumber (hends : facts.ends ⊆ other.ends) {stop : Nat}
    (hhas : facts.completions.has node stop = true) :
    other.completions.has (number node) stop = true := by
  obtain ⟨call, hfind, hend⟩ := hc.exists_end hhas
  obtain ⟨node', hfind', hhas'⟩ := hends hend
  rw [hnumber hfind, Option.some.injEq] at hfind'
  rwa [hfind']

end Facts

namespace Engine

variable {τ : Type} [Token τ] {grammar : Grammar} {input : Array τ} {start : Nat}
  {engine other : Engine} {descriptor : Descriptor}

/-- Two engines are in the same state up to the numbers of the calls: under its new number each call
has the same waiters and the same ends, the same descriptors have been queued, the same are pending,
and the counters are the same. -/
structure Renumbered (number : Equiv.Perm Nat) (engine other : Engine) : Prop where
  calls_eq : ∀ node : Nat, other.facts.graph.calls[number node]? = engine.facts.graph.calls[node]?
  waits_iff : ∀ (node : Nat) (waiter : Waiter),
    other.facts.graph.Waits (number node) (waiter.renumber number) ↔
      engine.facts.graph.Waits node waiter
  has_iff : ∀ node stop, other.facts.completions.has (number node) stop = true ↔
    engine.facts.completions.has node stop = true
  mem_endsOf_iff : ∀ node stop, stop ∈ other.facts.completions.endsOf (number node) ↔
    stop ∈ engine.facts.completions.endsOf node
  queued_iff : ∀ descriptor, other.worklist.Queued (descriptor.renumber number) ↔
    engine.worklist.Queued descriptor
  pending_perm :
    (engine.worklist.pending.toList.map (Descriptor.renumber number)).Perm
      other.worklist.pending.toList
  stats_eq : ∀ root length, (other.report root length).stats = (engine.report root length).stats

section Carried

variable {number : Nat → Nat} (h : Invariant grammar input start engine)
  (hnumber : engine.facts.graph.NumberedIn number other.facts.graph)

include h hnumber

/-- What has been queued has been queued under the new numbers, if all tasks are there. -/
theorem Invariant.queued_renumber (hqueued : engine.chart.queued ⊆ other.chart.queued)
    (hdescriptor : engine.worklist.Queued descriptor) :
    other.worklist.Queued (descriptor.renumber number) := by
  obtain ⟨task, hdenotes, hmem, -⟩ := h.exists_task_of_queued hdescriptor
  exact queued_of_mem (hnumber.denotes hdenotes) (hqueued hmem)

/-- What is pending is pending under the new numbers, if all tasks are there and no more are
done. -/
theorem Invariant.pending_renumber (hqueued : engine.chart.queued ⊆ other.chart.queued)
    (hdone : other.chart.done ⊆ engine.chart.done)
    (hdescriptor : descriptor ∈ engine.worklist.pending.toList) :
    descriptor.renumber number ∈ other.worklist.pending.toList := by
  obtain ⟨task, hdenotes, hmem, hnotDone, -⟩ := h.exists_task hdescriptor
  exact mem_pending_of_notMem_done (hnumber.denotes hdenotes) (hqueued hmem)
    fun hmem' => hnotDone (hdone hmem')

end Carried

/-- Engines with the same chart are in the same state up to the numbers of the calls, and there is
one number only that a call can have. -/
theorem Invariant.exists_renumbered (h : Invariant grammar input start engine)
    (h' : Invariant grammar input start other) (hchart : engine.chart = other.chart) :
    ∃ number : Equiv.Perm Nat, Renumbered number engine other ∧
      engine.facts.graph.NumberedIn number other.facts.graph := by
  have hcalls : engine.facts.calls = other.facts.calls := congrArg Chart.calls hchart
  have hedges : engine.facts.edges = other.facts.edges := congrArg Chart.edges hchart
  have hends : engine.facts.ends = other.facts.ends := congrArg Chart.ends hchart
  have hstats : ∀ root length, (engine.report root length).stats = (other.report root length).stats :=
    h.stats_eq h' hchart
  have hcount : engine.facts.graph.nodeCount = other.facts.graph.nodeCount :=
    congrArg Stats.nodes (hstats 0 0)
  obtain ⟨number, hnumber, hback⟩ := CallGraph.exists_perm_numberedIn h.facts.graph h'.facts.graph
    (fun call => Set.ext_iff.mp hcalls call) hcount
  have hhas : ∀ node stop, other.facts.completions.has (number node) stop = true ↔
      engine.facts.completions.has node stop = true := by
    intro node stop
    refine ⟨fun hhas => ?_, h.facts.has_renumber hnumber hends.le⟩
    simpa using h'.facts.has_renumber hback hends.ge hhas
  refine ⟨number,
    { calls_eq := ?_
      waits_iff := ?_
      has_iff := hhas
      mem_endsOf_iff := ?_
      queued_iff := ?_
      pending_perm := ?_
      stats_eq := fun root length => (hstats root length).symm }, hnumber⟩
  · intro node
    apply Option.ext
    intro call
    rw [← h'.facts.graph.find?_eq_some_iff, ← h.facts.graph.find?_eq_some_iff]
    exact ⟨fun hfind => by simpa using hback hfind, fun hfind => hnumber hfind⟩
  · intro node waiter
    refine ⟨fun hwaits => ?_, h.facts.waits_renumber hnumber hedges.le⟩
    simpa using h'.facts.waits_renumber hback hedges.ge hwaits
  · intro node stop
    rw [h'.facts.completions.mem_endsOf_iff, h.facts.completions.mem_endsOf_iff, hhas]
  · intro descriptor
    refine ⟨fun hqueued => ?_, h.queued_renumber hnumber (congrArg Chart.queued hchart).le⟩
    simpa using h'.queued_renumber hback (congrArg Chart.queued hchart).ge hqueued
  · have hnodup := h.worklist.nodup_pending.map (Descriptor.renumber_injective number)
    refine (List.perm_ext_iff_of_nodup hnodup h'.worklist.nodup_pending).mpr fun descriptor => ?_
    rw [List.mem_map]
    constructor
    · intro hbefore
      obtain ⟨before, hbefore, rfl⟩ := hbefore
      exact h.pending_renumber hnumber (congrArg Chart.queued hchart).le
        (congrArg Chart.done hchart).ge hbefore
    · intro hpending
      exact ⟨_, h'.pending_renumber hback (congrArg Chart.queued hchart).ge
        (congrArg Chart.done hchart).le hpending, Descriptor.renumber_renumber_symm _ _⟩

end Engine

end ContextFree
