import ContextFree.Engine.Step
import ContextFree.Proofs.Engine.CallGraph
import ContextFree.Proofs.Engine.Chart
import ContextFree.Proofs.Engine.Completions
import Mathlib.Data.Set.Card

/-!
# One step, told by call

`Facts.step` works with numbers; a chart tells the same by call. `CallGraph.Denotes` says which
descriptor stands for which task, and as calls keep their numbers (`CallGraph.Extends`), what stands
for a task once stands for it ever after.

The main statement is `Facts.step_told`: a step for a task that is due comes to no fault, adds the
news of the task to the facts and nothing else, and produces just the descriptors of the tasks that
are new because of it. The two ways of going on from an end, by the callee for its waiters and by a
late caller for itself, come out as the same set of replays; a step for a terminal or an expansion
has none.
-/

namespace ContextFree

/-! ## Numbers and what they stand for -/

/-- The number of the call that a descriptor is for. -/
def Descriptor.node : Descriptor → Nat
  | .expand node => node
  | .resume node _ _ => node

namespace CallGraph

variable {graph graph' : CallGraph}

/-- A descriptor is a task told by number. -/
inductive Denotes (graph : CallGraph) : Descriptor → Task → Prop where
  | expand {node : Nat} {call : Call} :
      graph.find? call = some node → Denotes graph (.expand node) (.expand call)
  | resume {node pos slot : Nat} {call : Call} :
      graph.find? call = some node → Denotes graph (.resume node pos slot) (.resume call pos slot)

theorem Denotes.find?_eq {descriptor : Descriptor} {task : Task}
    (h : graph.Denotes descriptor task) : graph.find? task.call = some descriptor.node := by
  cases h <;> assumption

/-- A descriptor denotes one task. -/
theorem Consistent.denotes_unique (hc : graph.Consistent) {descriptor : Descriptor}
    {task task' : Task} (h : graph.Denotes descriptor task) (h' : graph.Denotes descriptor task') :
    task = task' := by
  cases h with
  | expand hfind =>
    cases h' with
    | expand hfind' => rw [hc.call_unique hfind hfind']
  | resume hfind =>
    cases h' with
    | resume hfind' => rw [hc.call_unique hfind hfind']

/-- A task is denoted by one descriptor. -/
theorem Denotes.unique {descriptor descriptor' : Descriptor} {task : Task}
    (h : graph.Denotes descriptor task) (h' : graph.Denotes descriptor' task) :
    descriptor = descriptor' := by
  have hnode := h.find?_eq
  rw [h'.find?_eq, Option.some.injEq] at hnode
  cases h <;> cases h' <;> cases hnode <;> rfl

/-- Numbers that the graph has given out stand for calls. -/
theorem Consistent.exists_find? (hc : graph.Consistent) {node : Nat} (h : node < graph.nodeCount) :
    ∃ call, graph.find? call = some node :=
  ⟨graph.calls[node], hc.find?_eq_some_iff.mpr (Array.getElem?_eq_getElem h)⟩

/-- A descriptor for a call of the graph denotes a task. -/
theorem Consistent.exists_denotes (hc : graph.Consistent) {descriptor : Descriptor}
    (h : descriptor.node < graph.nodeCount) : ∃ task, graph.Denotes descriptor task := by
  obtain ⟨call, hfind⟩ := hc.exists_find? h
  cases descriptor with
  | expand node => exact ⟨_, .expand hfind⟩
  | resume node pos slot => exact ⟨_, .resume hfind⟩

/-- One graph has all calls of another, with the same numbers, and none of its numbers for
others. -/
structure Extends (graph graph' : CallGraph) : Prop where
  find?_of_find? : ∀ {call : Call} {node : Nat},
    graph.find? call = some node → graph'.find? call = some node
  find?_of_lt : ∀ {call : Call} {node : Nat},
    graph'.find? call = some node → node < graph.nodeCount → graph.find? call = some node

theorem Extends.refl (graph : CallGraph) : graph.Extends graph :=
  ⟨id, fun h _ => h⟩

/-- Entering a call leaves all others as they are. -/
theorem extends_enter (graph : CallGraph) (call : Call) : graph.Extends (graph.enter call).2 where
  find?_of_find? := by
    intro other node h
    rw [find?_enter]
    split
    · next heq =>
      subst heq
      rw [enter_of_find? h]
    · exact h
  find?_of_lt := by
    intro other node h hlt
    rw [find?_enter] at h
    split at h
    · next heq =>
      subst heq
      cases hfind : graph.find? other with
      | some found =>
        rw [enter_of_find? hfind] at h
        exact h
      | none =>
        rw [enter_of_find?_none hfind, Option.some.injEq] at h
        simp only at h
        omega
    · exact h

theorem Extends.denotes (h : graph.Extends graph') {descriptor : Descriptor} {task : Task}
    (hdenotes : graph.Denotes descriptor task) : graph'.Denotes descriptor task := by
  cases hdenotes with
  | expand hfind => exact .expand (h.find?_of_find? hfind)
  | resume hfind => exact .resume (h.find?_of_find? hfind)

theorem Extends.denotes_of_lt (h : graph.Extends graph') {descriptor : Descriptor} {task : Task}
    (hdenotes : graph'.Denotes descriptor task) (hlt : descriptor.node < graph.nodeCount) :
    graph.Denotes descriptor task := by
  cases hdenotes with
  | expand hfind => exact .expand (h.find?_of_lt hfind hlt)
  | resume hfind => exact .resume (h.find?_of_lt hfind hlt)

end CallGraph

namespace Facts

/-- The calls made so far. -/
def calls (facts : Facts) : Set Call :=
  {call | ∃ node, facts.graph.find? call = some node}

/-- Who waits for whom, told by call. -/
def edges (facts : Facts) : Set Edge :=
  {edge | ∃ callee caller, facts.graph.find? edge.callee = some callee ∧
    facts.graph.find? edge.caller = some caller ∧ facts.graph.Waits callee ⟨caller, edge.resume⟩}

/-- Where calls can end, told by call. -/
def ends (facts : Facts) : Set (Call × Nat) :=
  {fact | ∃ node, facts.graph.find? fact.1 = some node ∧
    facts.completions.has node fact.2 = true}

/-- The tables of a run agree with each other, and each counter tells the size of a set. -/
structure Consistent (facts : Facts) : Prop where
  graph : facts.graph.Consistent
  completions : facts.completions.Consistent
  node_lt_of_has : ∀ {node stop : Nat},
    facts.completions.has node stop = true → node < facts.graph.nodeCount
  encard_calls : facts.calls.encard = facts.graph.nodeCount
  encard_edges : facts.edges.encard = facts.graph.edgeCount
  encard_ends : facts.ends.encard = facts.completions.count

/-- Who waits for a call is told by an edge. -/
theorem Consistent.exists_edge {facts : Facts} (hc : facts.Consistent) {node : Nat}
    {waiter : Waiter} (hwaits : facts.graph.Waits node waiter) :
    ∃ callee caller, facts.graph.find? callee = some node ∧
      facts.graph.find? caller = some waiter.caller ∧
      ⟨callee, caller, waiter.resume⟩ ∈ facts.edges := by
  obtain ⟨callee, hcallee⟩ := hc.graph.exists_find? (hc.graph.node_lt hwaits)
  obtain ⟨caller, hcaller⟩ := hc.graph.exists_find? (hc.graph.caller_lt hwaits)
  exact ⟨callee, caller, hcallee, hcaller, node, waiter.caller, hcallee, hcaller, hwaits⟩

/-- Where a call is known to end is told by an end. -/
theorem Consistent.exists_end {facts : Facts} (hc : facts.Consistent) {node stop : Nat}
    (hhas : facts.completions.has node stop = true) :
    ∃ call, facts.graph.find? call = some node ∧ (call, stop) ∈ facts.ends := by
  obtain ⟨call, hfind⟩ := hc.graph.exists_find? (hc.node_lt_of_has hhas)
  exact ⟨call, hfind, node, hfind, hhas⟩

theorem find?_empty (call : Call) : CallGraph.empty.find? call = none :=
  Std.HashMap.getElem?_empty

theorem calls_empty : empty.calls = ∅ := by
  ext call
  simp [calls, empty, find?_empty]

theorem edges_empty : empty.edges = ∅ := by
  ext edge
  simp [edges, empty, find?_empty]

theorem ends_empty : empty.ends = ∅ := by
  ext fact
  simp [ends, empty, find?_empty]

theorem consistent_empty : empty.Consistent where
  graph := CallGraph.consistent_empty
  completions := Completions.consistent_empty
  node_lt_of_has h := by simp [empty, Completions.has, Completions.empty] at h
  encard_calls := by
    rw [calls_empty, Set.encard_empty]
    rfl
  encard_edges := by
    rw [edges_empty, Set.encard_empty]
    rfl
  encard_ends := by
    rw [ends_empty, Set.encard_empty]
    rfl

/-- What comes of a descriptor: the facts grow by the news of its task, and the descriptors produced
are those of the tasks that are new because of it. -/
structure Told (facts : Facts) (news : Chart) (produced : List Descriptor) (facts' : Facts) :
    Prop where
  consistent : facts'.Consistent
  extends_graph : facts.graph.Extends facts'.graph
  calls_eq : facts'.calls = facts.calls ∪ news.calls
  edges_eq : facts'.edges = facts.edges ∪ news.edges
  ends_eq : facts'.ends = facts.ends ∪ news.ends
  task_of_produced : ∀ descriptor ∈ produced,
    ∃ task ∈ news.queued ∪ replays facts'.edges facts'.ends, facts'.graph.Denotes descriptor task
  produced_of_task : ∀ task ∈ news.queued ∪ replays facts'.edges facts'.ends,
    task ∈ replays facts.edges facts.ends ∨
      ∃ descriptor ∈ produced, facts'.graph.Denotes descriptor task

variable {τ : Type} [Token τ] {grammar : Grammar} {input : Array τ} {facts : Facts} {call : Call}
  {node : Nat}

/-- Where nothing but tasks is new, the descriptors produced are those of the new tasks. -/
theorem Told.of_same (hc : facts.Consistent) {news : Chart} {produced : List Descriptor}
    (hcalls : news.calls ⊆ facts.calls) (hedges : news.edges ⊆ facts.edges)
    (hends : news.ends ⊆ facts.ends)
    (htask : ∀ descriptor ∈ produced, ∃ task ∈ news.queued, facts.graph.Denotes descriptor task)
    (hproduced : ∀ task ∈ news.queued, ∃ descriptor ∈ produced,
      facts.graph.Denotes descriptor task) : Told facts news produced facts where
  consistent := hc
  extends_graph := .refl _
  calls_eq := (Set.union_eq_left.mpr hcalls).symm
  edges_eq := (Set.union_eq_left.mpr hedges).symm
  ends_eq := (Set.union_eq_left.mpr hends).symm
  task_of_produced := by
    intro descriptor hdescriptor
    obtain ⟨task, htask, hdenotes⟩ := htask descriptor hdescriptor
    exact ⟨task, .inl htask, hdenotes⟩
  produced_of_task := by
    intro task htask
    rcases htask with htask | hreplay
    · exact .inr (hproduced task htask)
    · exact .inl hreplay

variable (input) in
/-- Expanding a call produces its resumption at each entry of its nonterminal. -/
theorem step_expand (hc : facts.Consistent) (hfind : facts.graph.find? call = some node)
    (hlt : call.nonterminal < grammar.nonterminalCount) :
    ∃ produced, facts.step grammar input (.expand node) = .ok (produced, facts) ∧
      Told facts ((Task.expand call).news grammar input) produced facts := by
  obtain ⟨entries, hentries, -⟩ := Grammar.entrySlots?_of_lt hlt
  have hcall := hc.graph.find?_eq_some_iff.mp hfind
  refine ⟨entries.map (.resume node call.start ·), ?_, ?_⟩
  · simp only [step, CallGraph.call, hcall, hentries]
  · refine .of_same hc (Set.empty_subset _) (Set.empty_subset _) (Set.empty_subset _) ?_ ?_
    · intro descriptor hdescriptor
      obtain ⟨slot, hslot, rfl⟩ := List.mem_map.mp hdescriptor
      obtain ⟨symbols, hdotted⟩ := (Grammar.mem_entrySlots_iff hentries).mp hslot
      exact ⟨_, ⟨slot, symbols, hdotted, rfl⟩, .resume hfind⟩
    · intro task htask
      obtain ⟨slot, symbols, hdotted, rfl⟩ := htask
      have hslot := (Grammar.mem_entrySlots_iff hentries).mpr ⟨symbols, hdotted⟩
      exact ⟨_, List.mem_map.mpr ⟨slot, hslot, rfl⟩, .resume hfind⟩

variable {pos slot : Nat} {before after : Alternative Nat}

variable (input) in
/-- At a terminal a call goes on after the token that spells it, if there is one. -/
theorem step_terminal (hc : facts.Consistent) (hfind : facts.graph.find? call = some node)
    {text : String}
    (hdotted : grammar.Dotted slot call.nonterminal before (.terminal text :: after)) :
    ∃ produced, facts.step grammar input (.resume node pos slot) = .ok (produced, facts) ∧
      Told facts ((Task.resume call pos slot).news grammar input) produced facts := by
  obtain ⟨alternative, -, hslot⟩ := id hdotted
  rw [Task.news, hdotted.next_eq]
  cases htoken : input[pos]? with
  | none =>
    refine ⟨[], by simp only [step, hslot, List.head?_cons, htoken], ?_⟩
    refine .of_same hc (Set.empty_subset _) (Set.empty_subset _) (Set.empty_subset _) ?_ ?_
    · intro descriptor h
      cases h
    · intro task htask
      obtain ⟨token, htoken', -⟩ := htask
      rw [htoken] at htoken'
      cases htoken'
  | some token =>
    refine ⟨if Token.spells token text then [.resume node (pos + 1) (slot + 1)] else [],
      by simp only [step, hslot, List.head?_cons, htoken], ?_⟩
    refine .of_same hc (Set.empty_subset _) (Set.empty_subset _) (Set.empty_subset _) ?_ ?_
    · intro descriptor hdescriptor
      split at hdescriptor
      · next hspells =>
        obtain rfl := List.mem_singleton.mp hdescriptor
        exact ⟨_, ⟨token, htoken, hspells, rfl⟩, .resume hfind⟩
      · cases hdescriptor
    · intro task htask
      obtain ⟨token', htoken', hspells, rfl⟩ := htask
      rw [htoken, Option.some.injEq] at htoken'
      subst htoken'
      rw [if_pos hspells]
      exact ⟨_, List.mem_singleton_self _, .resume hfind⟩

/-- A new end is one fact more, and nothing else changes. -/
theorem Consistent.record (hc : facts.Consistent) (hfind : facts.graph.find? call = some node)
    (hnew : facts.completions.has node pos = false) :
    Consistent ⟨facts.graph, (facts.completions.record node pos).2⟩ ∧
      ends ⟨facts.graph, (facts.completions.record node pos).2⟩ = facts.ends ∪ {(call, pos)} := by
  have hends : ends ⟨facts.graph, (facts.completions.record node pos).2⟩ =
      facts.ends ∪ {(call, pos)} := by
    ext ⟨other, stop⟩
    simp only [ends, Set.mem_ofPred_eq, Set.mem_union, Set.mem_singleton_iff, Prod.mk.injEq,
      Completions.has_record, Bool.or_eq_true, decide_eq_true_eq]
    constructor
    · intro h
      obtain ⟨number, hother, hhas | ⟨rfl, rfl⟩⟩ := h
      · exact .inl ⟨number, hother, hhas⟩
      · exact .inr ⟨hc.graph.call_unique hother hfind, rfl⟩
    · intro h
      rcases h with ⟨number, hother, hhas⟩ | ⟨rfl, rfl⟩
      · exact ⟨number, hother, .inl hhas⟩
      · exact ⟨node, hfind, .inr ⟨rfl, rfl⟩⟩
  have hnotMem : (call, pos) ∉ facts.ends := by
    intro h
    obtain ⟨number, hother, hhas⟩ := h
    rw [hfind, Option.some.injEq] at hother
    rw [← hother, hnew] at hhas
    cases hhas
  refine ⟨⟨hc.graph, hc.completions.record node pos, ?_, hc.encard_calls, hc.encard_edges, ?_⟩,
    hends⟩
  · intro other stop hhas
    rw [Completions.has_record, Bool.or_eq_true, decide_eq_true_eq] at hhas
    rcases hhas with hhas | ⟨rfl, -⟩
    · exact hc.node_lt_of_has hhas
    · exact hc.graph.lt_nodeCount hfind
  · rw [hends, Set.union_singleton, Set.encard_insert_of_notMem hnotMem, hc.encard_ends,
      Completions.count_record, hnew]
    rfl

/-- At the end of an alternative the end is recorded, and the waiters go on if it is new. -/
theorem step_end (hc : facts.Consistent) (hfind : facts.graph.find? call = some node)
    (hdotted : grammar.Dotted slot call.nonterminal before []) :
    ∃ produced facts', facts.step grammar input (.resume node pos slot) = .ok (produced, facts') ∧
      Told facts ((Task.resume call pos slot).news grammar input) produced facts' := by
  obtain ⟨alternative, -, hslot⟩ := id hdotted
  rw [Task.news, hdotted.next_eq]
  cases hhas : facts.completions.has node pos with
  | true =>
    -- the waiters went on from this end when it was recorded
    refine ⟨[], facts, ?_, ?_⟩
    · simp only [step, hslot, List.head?_nil, Completions.record_of_has hhas]
    · refine .of_same hc (Set.empty_subset _) (Set.empty_subset _) ?_ ?_ ?_
      · intro fact hfact
        obtain rfl := hfact
        exact ⟨node, hfind, hhas⟩
      · intro descriptor h
        cases h
      · intro task h
        cases h
  | false =>
    have hrecord : facts.completions.record node pos =
        (true, (facts.completions.record node pos).2) := by
      rw [← Prod.eta (facts.completions.record node pos), Completions.fst_record, hhas]
      rfl
    have hlt : node < facts.graph.waiters.size :=
      hc.graph.size_waiters ▸ hc.graph.lt_nodeCount hfind
    have hwaiters := Array.getElem?_eq_getElem hlt
    obtain ⟨hconsistent, hends⟩ := hc.record hfind hhas
    refine ⟨facts.graph.waiters[node].toList.map fun waiter =>
      .resume waiter.caller pos waiter.resume,
      ⟨facts.graph, (facts.completions.record node pos).2⟩, ?_, hconsistent, .refl _,
      (Set.union_empty _).symm, (Set.union_empty _).symm, hends, ?_, ?_⟩
    · rw [step]
      simp only [hslot, List.head?_nil]
      rw [hrecord]
      simp only [CallGraph.waitersOf, hwaiters]
    · intro descriptor hdescriptor
      obtain ⟨waiter, hwaiter, rfl⟩ := List.mem_map.mp hdescriptor
      have hwaits : facts.graph.Waits node waiter :=
        ⟨_, hwaiters, Array.mem_toList_iff.mp hwaiter⟩
      obtain ⟨caller, hcaller⟩ := hc.graph.exists_find? (hc.graph.caller_lt hwaits)
      refine ⟨.resume caller pos waiter.resume, .inr ?_, .resume hcaller⟩
      refine ⟨⟨call, caller, waiter.resume⟩, ⟨node, waiter.caller, hfind, hcaller, hwaits⟩, pos, ?_,
        rfl⟩
      rw [hends]
      exact .inr rfl
    · intro task htask
      rcases htask with htask | ⟨edge, hedge, stop, hstop, rfl⟩
      · exact absurd htask (Set.notMem_empty _)
      · rw [hends] at hstop
        rcases hstop with hstop | hstop
        · exact .inl ⟨edge, hedge, stop, hstop, rfl⟩
        · -- a replay that is not old has the new end, so its caller waits for this very call
          obtain ⟨rfl, rfl⟩ := Prod.mk.inj (Set.mem_singleton_iff.mp hstop)
          obtain ⟨callee, caller, hcallee, hcaller, waiters, hwaiters', hwaiter⟩ := hedge
          obtain rfl : node = callee := Option.some.inj (hfind.symm.trans hcallee)
          obtain rfl : facts.graph.waiters[node] = waiters :=
            Option.some.inj (hwaiters.symm.trans hwaiters')
          exact .inr ⟨_, List.mem_map.mpr ⟨_, Array.mem_toList_iff.mpr hwaiter, rfl⟩,
            .resume hcaller⟩

/-- Entering a call adds that call and nothing else. -/
theorem Consistent.enter (hc : facts.Consistent) (call : Call) :
    Consistent ⟨(facts.graph.enter call).2, facts.completions⟩ ∧
      calls ⟨(facts.graph.enter call).2, facts.completions⟩ = facts.calls ∪ {call} ∧
      edges ⟨(facts.graph.enter call).2, facts.completions⟩ = facts.edges ∧
      ends ⟨(facts.graph.enter call).2, facts.completions⟩ = facts.ends := by
  have hextends := CallGraph.extends_enter facts.graph call
  have hcalls : calls ⟨(facts.graph.enter call).2, facts.completions⟩ = facts.calls ∪ {call} := by
    ext other
    simp only [calls, Set.mem_ofPred_eq, Set.mem_union, Set.mem_singleton_iff,
      CallGraph.find?_enter]
    by_cases hother : other = call <;> simp [hother]
  have hedges : edges ⟨(facts.graph.enter call).2, facts.completions⟩ = facts.edges := by
    ext edge
    constructor
    · intro h
      obtain ⟨callee, caller, hcallee, hcaller, hwaits⟩ := h
      rw [CallGraph.waits_enter] at hwaits
      exact ⟨callee, caller, hextends.find?_of_lt hcallee (hc.graph.node_lt hwaits),
        hextends.find?_of_lt hcaller (hc.graph.caller_lt hwaits), hwaits⟩
    · intro h
      obtain ⟨callee, caller, hcallee, hcaller, hwaits⟩ := h
      exact ⟨callee, caller, hextends.find?_of_find? hcallee, hextends.find?_of_find? hcaller,
        (CallGraph.waits_enter call).mpr hwaits⟩
  have hends : ends ⟨(facts.graph.enter call).2, facts.completions⟩ = facts.ends := by
    ext fact
    constructor
    · intro h
      obtain ⟨number, hfact, hhas⟩ := h
      exact ⟨number, hextends.find?_of_lt hfact (hc.node_lt_of_has hhas), hhas⟩
    · intro h
      obtain ⟨number, hfact, hhas⟩ := h
      exact ⟨number, hextends.find?_of_find? hfact, hhas⟩
  refine ⟨⟨hc.graph.enter call, hc.completions, ?_, ?_, ?_, ?_⟩, hcalls, hedges, hends⟩
  · intro number stop hhas
    have := hc.node_lt_of_has hhas
    rw [CallGraph.nodeCount_enter]
    omega
  · rw [hcalls, CallGraph.nodeCount_enter]
    cases hfind : facts.graph.find? call with
    | some number =>
      have hmem : {call} ⊆ facts.calls := by
        intro other hother
        obtain rfl := hother
        exact ⟨number, hfind⟩
      rw [Set.union_eq_left.mpr hmem, hc.encard_calls]
      rfl
    | none =>
      have hnotMem : call ∉ facts.calls := by
        intro h
        obtain ⟨number, hnumber⟩ := h
        rw [hfind] at hnumber
        cases hnumber
      rw [Set.union_singleton, Set.encard_insert_of_notMem hnotMem, hc.encard_calls]
      rfl
  · rw [hedges, CallGraph.edgeCount_enter]
    exact hc.encard_edges
  · rw [hends]
    exact hc.encard_ends

/-- A new waiter is one edge more, and nothing else changes. -/
theorem Consistent.await (hc : facts.Consistent) (resume : Nat) {callee caller : Call} {child : Nat}
    (hcallee : facts.graph.find? callee = some child)
    (hcaller : facts.graph.find? caller = some node) :
    ∃ fresh graph', facts.graph.await child ⟨node, resume⟩ = .ok (fresh, graph') ∧
      (∀ call, graph'.find? call = facts.graph.find? call) ∧
      Consistent ⟨graph', facts.completions⟩ ∧
      edges ⟨graph', facts.completions⟩ = facts.edges ∪ {⟨callee, caller, resume⟩} := by
  obtain ⟨fresh, graph', hawait, hconsistent, hfresh, hindex, hcalls, hcount, hwaits⟩ :=
    hc.graph.await ⟨node, resume⟩ (hc.graph.lt_nodeCount hcallee)
      (hc.graph.lt_nodeCount hcaller)
  have hfind : ∀ call, graph'.find? call = facts.graph.find? call := fun call => by
    rw [CallGraph.find?, CallGraph.find?, hindex]
  have hedges : edges ⟨graph', facts.completions⟩ =
      facts.edges ∪ {⟨callee, caller, resume⟩} := by
    ext ⟨callee', caller', resume'⟩
    simp only [edges, Set.mem_ofPred_eq, Set.mem_union, Set.mem_singleton_iff, Edge.mk.injEq, hfind,
      hwaits, Waiter.mk.injEq]
    constructor
    · intro h
      obtain ⟨child', node', hcallee', hcaller', hold | ⟨rfl, rfl, rfl⟩⟩ := h
      · exact .inl ⟨child', node', hcallee', hcaller', hold⟩
      · exact .inr ⟨hc.graph.call_unique hcallee' hcallee, hc.graph.call_unique hcaller' hcaller,
          rfl⟩
    · intro h
      rcases h with ⟨child', node', hcallee', hcaller', hold⟩ | ⟨rfl, rfl, rfl⟩
      · exact ⟨child', node', hcallee', hcaller', .inl hold⟩
      · exact ⟨child, node, hcallee, hcaller, .inr ⟨rfl, rfl, rfl⟩⟩
  have hmem : ⟨callee, caller, resume⟩ ∈ facts.edges ↔
      facts.graph.Waits child ⟨node, resume⟩ := by
    constructor
    · intro h
      obtain ⟨child', node', hcallee', hcaller', hold⟩ := h
      rw [hcallee, Option.some.injEq] at hcallee'
      rw [hcaller, Option.some.injEq] at hcaller'
      rw [hcallee', hcaller']
      exact hold
    · exact fun hold => ⟨child, node, hcallee, hcaller, hold⟩
  refine ⟨fresh, graph', hawait, hfind, ⟨hconsistent, hc.completions, ?_, ?_, ?_, ?_⟩, hedges⟩
  · intro number stop hhas
    have hlt := hc.node_lt_of_has hhas
    unfold CallGraph.nodeCount at hlt ⊢
    rwa [hcalls]
  · have hsame : calls ⟨graph', facts.completions⟩ = facts.calls := by
      simp only [calls, hfind]
    rw [hsame, hc.encard_calls, CallGraph.nodeCount, CallGraph.nodeCount, hcalls]
  · rw [hedges, hcount]
    cases fresh with
    | true =>
      have hnotMem := fun hold => hfresh.mp rfl (hmem.mp hold)
      rw [Set.union_singleton, Set.encard_insert_of_notMem hnotMem, hc.encard_edges]
      rfl
    | false =>
      have hold : {⟨callee, caller, resume⟩} ⊆ facts.edges := by
        intro edge hedge
        obtain rfl := hedge
        exact hmem.mpr (by_contra fun hnot => Bool.noConfusion (hfresh.mpr hnot))
      rw [Set.union_eq_left.mpr hold, hc.encard_edges]
      rfl
  · have hsame : ends ⟨graph', facts.completions⟩ = facts.ends := by
      simp only [ends, hfind]
    rw [hsame]
    exact hc.encard_ends

/-- At a nonterminal a call makes a call and waits for it; it goes on from the ends that are already
known. -/
theorem step_call (hc : facts.Consistent) (hfind : facts.graph.find? call = some node)
    {callee : Nat}
    (hdotted : grammar.Dotted slot call.nonterminal before (.nonterminal callee :: after)) :
    ∃ produced facts', facts.step grammar input (.resume node pos slot) = .ok (produced, facts') ∧
      Told facts ((Task.resume call pos slot).news grammar input) produced facts' := by
  obtain ⟨alternative, -, hslot⟩ := id hdotted
  rw [Task.news, hdotted.next_eq]
  obtain ⟨hentered, hcalls, hedges, hends⟩ := hc.enter ⟨callee, pos⟩
  have hextends := CallGraph.extends_enter facts.graph ⟨callee, pos⟩
  have hchild : (facts.graph.enter ⟨callee, pos⟩).2.find? ⟨callee, pos⟩ =
      some (facts.graph.enter ⟨callee, pos⟩).1 := by
    rw [CallGraph.find?_enter, if_pos rfl]
  have hcaller := hextends.find?_of_find? hfind
  obtain ⟨fresh, graph', hawait, hfind', hconsistent, hedges'⟩ :=
    hentered.await (slot + 1) hchild hcaller
  generalize henter : facts.graph.enter ⟨callee, pos⟩ = entered at *
  obtain ⟨child, graph⟩ := entered
  have hends' : ends ⟨graph', facts.completions⟩ = facts.ends := by
    rw [← hends]
    simp only [ends, hfind']
  have hwaits : ⟨⟨callee, pos⟩, call, slot + 1⟩ ∈ edges ⟨graph', facts.completions⟩ := by
    rw [hedges']
    exact .inr rfl
  refine ⟨(facts.completions.endsOf child).toList.map (.resume node · (slot + 1)) ++
    [.expand child], ⟨graph', facts.completions⟩, ?_, hconsistent, ⟨?_, ?_⟩, ?_, ?_, ?_, ?_, ?_⟩
  · simp only [step, hslot, List.head?_cons, henter, hawait]
  · intro other number hother
    rw [hfind']
    exact hextends.find?_of_find? hother
  · intro other number hother
    rw [hfind'] at hother
    exact hextends.find?_of_lt hother
  · have hsame : calls ⟨graph', facts.completions⟩ = calls ⟨graph, facts.completions⟩ := by
      simp only [calls, hfind']
    exact hsame.trans hcalls
  · rw [hedges', hedges]
    rfl
  · exact hends'.trans (Set.union_empty _).symm
  · intro descriptor hdescriptor
    rcases List.mem_append.mp hdescriptor with hreplay | hexpand
    · obtain ⟨stop, hstop, rfl⟩ := List.mem_map.mp hreplay
      have hhas := (hc.completions.mem_endsOf_iff _ _).mp (Array.mem_toList_iff.mp hstop)
      have hknown : (⟨callee, pos⟩, stop) ∈ ends ⟨graph', facts.completions⟩ :=
        ⟨child, (hfind' _).trans hchild, hhas⟩
      exact ⟨.resume call stop (slot + 1), .inr ⟨_, hwaits, stop, hknown, rfl⟩,
        .resume ((hfind' _).trans hcaller)⟩
    · obtain rfl := List.mem_singleton.mp hexpand
      exact ⟨.expand ⟨callee, pos⟩, .inl rfl, .expand ((hfind' _).trans hchild)⟩
  · intro task htask
    rcases htask with htask | ⟨edge, hedge, stop, hstop, rfl⟩
    · obtain rfl := Set.mem_singleton_iff.mp htask
      exact .inr ⟨_, List.mem_append_right _ (List.mem_singleton_self _),
        .expand ((hfind' _).trans hchild)⟩
    · rw [hedges', hedges] at hedge
      rcases hedge with hedge | hedge
      · rw [hends'] at hstop
        exact .inl ⟨edge, hedge, stop, hstop, rfl⟩
      · -- a replay that is not old is of the new edge, so its end was known to the callee
        obtain rfl := Set.mem_singleton_iff.mp hedge
        obtain ⟨number, hnumber, hhas⟩ := hstop
        obtain rfl : child = number := by
          rw [hfind', hchild, Option.some.injEq] at hnumber
          exact hnumber
        have hmem := Array.mem_toList_iff.mpr ((hc.completions.mem_endsOf_iff _ _).mpr hhas)
        exact .inr ⟨_, List.mem_append_left _ (List.mem_map.mpr ⟨stop, hmem, rfl⟩),
          .resume ((hfind' _).trans hcaller)⟩

/-- A step for a task that is due finds all the numbers it needs, and tells the news of the task. -/
theorem step_told {start : Nat} (hc : facts.Consistent) (hstart : start < grammar.nonterminalCount)
    {descriptor : Descriptor} {task : Task} (hdenotes : facts.graph.Denotes descriptor task)
    (hdue : Due grammar input start task) :
    ∃ produced facts', facts.step grammar input descriptor = .ok (produced, facts') ∧
      Told facts (task.news grammar input) produced facts' := by
  cases hdenotes with
  | expand hfind =>
    have hdemanded : Demanded grammar input start _ := hdue
    obtain ⟨produced, hstep, htold⟩ := step_expand input hc hfind (hdemanded.nonterminal_lt hstart)
    exact ⟨produced, facts, hstep, htold⟩
  | resume hfind =>
    obtain ⟨-, before, after, hdotted, -⟩ := hdue
    cases after with
    | nil => exact step_end hc hfind hdotted
    | cons symbol after =>
      cases symbol with
      | terminal text =>
        obtain ⟨produced, hstep, htold⟩ := step_terminal input hc hfind hdotted
        exact ⟨produced, facts, hstep, htold⟩
      | nonterminal callee => exact step_call hc hfind hdotted

/-- A step for a due task whose news are known leaves the tables as they are. -/
theorem step_known {start : Nat} (hc : facts.Consistent)
    (hstart : start < grammar.nonterminalCount) {descriptor : Descriptor} {task : Task}
    (hdenotes : facts.graph.Denotes descriptor task) (hdue : Due grammar input start task)
    (hcalls : (task.news grammar input).calls ⊆ facts.calls)
    (hedges : (task.news grammar input).edges ⊆ facts.edges)
    (hends : (task.news grammar input).ends ⊆ facts.ends) :
    ∃ produced, facts.step grammar input descriptor = .ok (produced, facts) := by
  cases hdenotes with
  | expand hfind =>
    have hdemanded : Demanded grammar input start _ := hdue
    obtain ⟨produced, hstep, -⟩ := step_expand input hc hfind (hdemanded.nonterminal_lt hstart)
    exact ⟨produced, hstep⟩
  | @resume node pos slot call hfind =>
    obtain ⟨-, before, after, hdotted, -⟩ := hdue
    obtain ⟨alternative, -, hslot⟩ := id hdotted
    rw [Task.news, hdotted.next_eq] at hcalls hedges hends
    cases after with
    | nil =>
      obtain ⟨number, hnumber, hhas⟩ := hends rfl
      obtain rfl : node = number := Option.some.inj (hfind.symm.trans hnumber)
      refine ⟨[], ?_⟩
      simp only [step, hslot, List.head?_nil, Completions.record_of_has hhas]
    | cons symbol after =>
      cases symbol with
      | terminal text =>
        obtain ⟨produced, hstep, -⟩ := step_terminal input hc hfind hdotted
        exact ⟨produced, hstep⟩
      | nonterminal callee =>
        obtain ⟨child, hchild⟩ := hcalls rfl
        obtain ⟨child', node', hchild', hnode', hwaits⟩ := hedges rfl
        obtain rfl : child = child' := Option.some.inj (hchild.symm.trans hchild')
        obtain rfl : node = node' := Option.some.inj (hfind.symm.trans hnode')
        refine ⟨(facts.completions.endsOf child).toList.map (.resume node · (slot + 1)) ++
          [.expand child], ?_⟩
        simp only [step, hslot, List.head?_cons, CallGraph.enter_of_find? hchild,
          CallGraph.await_of_waits hwaits]

end Facts

end ContextFree
