import ContextFree.Proofs.Engine.Extent
import ContextFree.Proofs.Engine.Facts
import ContextFree.Proofs.Engine.Worklist
import Mathlib.Logic.Relation

/-!
# Runs in any order

A round takes some pending descriptor off the worklist and processes it. Which one is left open
(`Takes`), so what is shown of `Schedules`, any number of rounds, is shown of every order of work,
first in first out and last in first out among them.

`Engine.chart` tells by call what an engine knows and has queued. `Invariant` is what holds in every
state of every run; `Invariant.process` is the one step lemma, from which the rest follows: a round
never comes to a fault, and the chart learns the news of the task done. Two consequences are what a
caller of the engine builds on:

- with nothing pending the chart is exact (`Invariant.chart_eq_exact`), whatever the order was;
- `workLimit` rounds always are enough to come there (`Invariant.drain`), as each round does a task
  that was not done before.

An engine can also be made for an input of which only the length is stated. It is the same engine as
long as all that is computed from the length is a machine word (`ofLength?_eq_idle`).
-/

namespace ContextFree

namespace CallGraph

/-- A graph that extends another has no fewer calls. -/
theorem Extends.nodeCount_le {graph graph' : CallGraph} (h : graph.Extends graph')
    (hc : graph.Consistent) (hc' : graph'.Consistent) : graph.nodeCount ≤ graph'.nodeCount := by
  by_contra hlt
  obtain ⟨call, hfind⟩ := hc.exists_find? (Nat.lt_of_not_le hlt)
  exact Nat.lt_irrefl _ (hc'.lt_nodeCount (h.find?_of_find? hfind))

end CallGraph

/-- There are no more numbers of calls than there can be calls, as long as all are justified. -/
theorem Facts.Consistent.nodeCount_le {τ : Type} [Token τ] {grammar : Grammar} {input : Array τ}
    {start : Nat} {facts : Facts} (hc : facts.Consistent)
    (hstart : start < grammar.nonterminalCount)
    (hcalls : facts.calls ⊆ (Chart.exact grammar input start).calls) :
    facts.graph.nodeCount ≤ grammar.nonterminalCount * (input.size + 1) := by
  rw [← Nat.cast_le (α := ℕ∞), ← hc.encard_calls]
  exact (Set.encard_le_encard hcalls).trans (encard_calls_exact_le hstart)

namespace Engine

/-- What an engine knows and what it has queued, told by call. -/
def chart (engine : Engine) : Chart where
  calls := engine.facts.calls
  edges := engine.facts.edges
  ends := engine.facts.ends
  queued := {task | ∃ descriptor, engine.facts.graph.Denotes descriptor task ∧
    engine.worklist.Queued descriptor}
  done := {task | ∃ descriptor, engine.facts.graph.Denotes descriptor task ∧
    engine.worklist.Queued descriptor ∧ descriptor ∉ engine.worklist.pending.toList}

variable {τ : Type} [Token τ] (grammar : Grammar) (input : Array τ)

/-- One round: a pending descriptor, whichever, is taken off the worklist and processed. -/
def Takes (engine : Engine) (descriptor : Descriptor) (engine' : Engine) : Prop :=
  ∃ worklist answers, engine.worklist.Taken descriptor worklist ∧
    process grammar input ⟨engine.facts, worklist, engine.expansions⟩ descriptor =
      .ok (answers, engine')

/-- Any number of rounds, in any order of work. -/
def Schedules : Engine → Engine → Prop :=
  Relation.ReflTransGen fun engine engine' =>
    ∃ descriptor, Takes grammar input engine descriptor engine'

/-- What holds of an engine in every state of a run from a start symbol: its tables agree, its
counters tell the sizes of its sets, it knows and has queued nothing but what is justified, and no
consequence of what it has done is missing. -/
structure Invariant (start : Nat) (engine : Engine) : Prop where
  facts : engine.facts.Consistent
  worklist : engine.worklist.Consistent
  node_lt_of_queued : ∀ {descriptor : Descriptor},
    engine.worklist.Queued descriptor → descriptor.node < engine.facts.graph.nodeCount
  room : grammar.nonterminalCount * (input.size + 1) ≤ engine.worklist.expanded.capacity
  find?_root : engine.facts.graph.find? ⟨start, 0⟩ = some 0
  le_exact : engine.chart ≤ Chart.exact grammar input start
  closed : engine.chart.Closed grammar input
  encard_done : engine.chart.done.encard = engine.worklist.processed
  encard_expanded : {call | .expand call ∈ engine.chart.done}.encard = engine.expansions

variable {grammar input} {start : Nat} {engine engine' : Engine} {descriptor : Descriptor}

/-- A descriptor that has been queued denotes a task that is due. -/
theorem Invariant.exists_task_of_queued (h : Invariant grammar input start engine)
    (hqueued : engine.worklist.Queued descriptor) :
    ∃ task, engine.facts.graph.Denotes descriptor task ∧ task ∈ engine.chart.queued ∧
      Due grammar input start task := by
  obtain ⟨task, hdenotes⟩ := h.facts.graph.exists_denotes (h.node_lt_of_queued hqueued)
  have hmem : task ∈ engine.chart.queued := ⟨descriptor, hdenotes, hqueued⟩
  exact ⟨task, hdenotes, hmem, h.le_exact.queued hmem⟩

/-- The news of a task that is due are justified as well, and so is what follows from them. -/
theorem Invariant.learn_le_exact (h : Invariant grammar input start engine) {task : Task}
    (hdue : Due grammar input start task) :
    engine.chart.learn (task.news grammar input) ≤ Chart.exact grammar input start :=
  Chart.learn_le h.le_exact (news_le_exact hdue) replays_exact

/-- The descriptor of a task that is queued is queued. -/
theorem queued_of_mem {task : Task} (hdenotes : engine.facts.graph.Denotes descriptor task)
    (hmem : task ∈ engine.chart.queued) : engine.worklist.Queued descriptor := by
  obtain ⟨other, hother, hqueued⟩ := hmem
  rwa [hdenotes.unique hother]

/-- The descriptor of a task that is queued and not done is pending. -/
theorem mem_pending_of_notMem_done {task : Task}
    (hdenotes : engine.facts.graph.Denotes descriptor task) (hmem : task ∈ engine.chart.queued)
    (hnot : task ∉ engine.chart.done) : descriptor ∈ engine.worklist.pending.toList := by
  by_contra hpending
  exact hnot ⟨_, hdenotes, queued_of_mem hdenotes hmem, hpending⟩

/-- A pending descriptor denotes a task that is due, queued and not done. -/
theorem Invariant.exists_task (h : Invariant grammar input start engine)
    (hpending : descriptor ∈ engine.worklist.pending.toList) :
    ∃ task, engine.facts.graph.Denotes descriptor task ∧ task ∈ engine.chart.queued ∧
      task ∉ engine.chart.done ∧ Due grammar input start task := by
  obtain ⟨task, hdenotes, hmem, hdue⟩ :=
    h.exists_task_of_queued (h.worklist.queued_of_pending hpending)
  refine ⟨task, hdenotes, hmem, ?_, hdue⟩
  intro h
  obtain ⟨descriptor', hdenotes', -, hnot⟩ := h
  rw [hdenotes'.unique hdenotes] at hnot
  exact hnot hpending

section Learn

variable {task : Task} {produced : List Descriptor} {facts : Facts} {taken pushed : Worklist}
  (h : Invariant grammar input start engine) (expansions : Nat)
  (hdenotes : engine.facts.graph.Denotes descriptor task)
  (htaken : engine.worklist.Taken descriptor taken)
  (htold : engine.facts.Told (task.news grammar input) produced facts)
  (hpushed : taken.Pushed produced pushed)

include htaken htold hpushed

/-- What was queued stays queued, and denotes the same task. -/
theorem kept_of_told {other : Descriptor} {task' : Task}
    (hother : engine.facts.graph.Denotes other task') (hqueued : engine.worklist.Queued other) :
    facts.graph.Denotes other task' ∧ pushed.Queued other :=
  ⟨htold.extends_graph.denotes hother,
    hpushed.queued_iff.mpr (.inl (htaken.queued_iff.mpr hqueued))⟩

include h

/-- After the news of a task what was queued before is queued, and what its news and the replays
call for. -/
theorem Invariant.queued_eq_learn : (chart ⟨facts, pushed, expansions⟩).queued =
    (engine.chart.learn (task.news grammar input)).queued := by
  ext other
  constructor
  · intro hother
    obtain ⟨descriptor', hdenotes', hqueued'⟩ := hother
    rcases hpushed.queued_iff.mp hqueued' with hold | hnew
    · rw [htaken.queued_iff] at hold
      have hlt := h.node_lt_of_queued hold
      exact .inl (.inl ⟨descriptor', htold.extends_graph.denotes_of_lt hdenotes' hlt, hold⟩)
    · obtain ⟨task', htask', hdenotes''⟩ := htold.task_of_produced _ hnew
      rw [htold.consistent.graph.denotes_unique hdenotes' hdenotes'']
      rw [htold.edges_eq, htold.ends_eq] at htask'
      exact htask'.elim (fun hnews => .inl (.inr hnews)) .inr
  · intro hother
    have hnews : other ∈ engine.chart.queued ∨ other ∈ (task.news grammar input).queued ∪
        replays facts.edges facts.ends := by
      rw [htold.edges_eq, htold.ends_eq]
      rcases hother with (hold | hnews) | hreplay
      · exact .inl hold
      · exact .inr (.inl hnews)
      · exact .inr (.inr hreplay)
    have hold_or : other ∈ engine.chart.queued ∨
        ∃ descriptor ∈ produced, facts.graph.Denotes descriptor other := by
      rcases hnews with hold | hnews
      · exact .inl hold
      · exact (htold.produced_of_task other hnews).imp_left (h.closed.replays_subset ·)
    rcases hold_or with ⟨descriptor', hdenotes', hold⟩ | ⟨descriptor', hnew, hdenotes'⟩
    · exact ⟨descriptor', kept_of_told htaken htold hpushed hdenotes' hold⟩
    · exact ⟨descriptor', hdenotes', hpushed.queued_iff.mpr (.inr hnew)⟩

include hdenotes

/-- The task whose descriptor was taken off is done then, and what was done before. -/
theorem Invariant.done_eq_learn : (chart ⟨facts, pushed, expansions⟩).done =
    (engine.chart.learn (task.news grammar input)).done := by
  ext other
  rw [Chart.learn, Task.done_news]
  constructor
  · intro hother
    obtain ⟨descriptor', hdenotes', hqueued', hnot⟩ := hother
    rw [hpushed.pending_iff, not_or] at hnot
    -- whatever was pushed for the first time is pending, so this was queued before
    have hold : taken.Queued descriptor' :=
      (hpushed.queued_iff.mp hqueued').elim id fun hnew =>
        by_contra fun hfresh => hnot.2 ⟨hnew, hfresh⟩
    rw [htaken.queued_iff] at hold
    have hdenotes'' := htold.extends_graph.denotes_of_lt hdenotes' (h.node_lt_of_queued hold)
    by_cases heq : descriptor' = descriptor
    · subst heq
      exact .inr (h.facts.graph.denotes_unique hdenotes'' hdenotes)
    · exact .inl ⟨descriptor', hdenotes'', hold,
        fun hpending => hnot.1 ((htaken.pending_iff h.worklist).mpr ⟨hpending, heq⟩)⟩
  · have hnotPending : ∀ {descriptor'}, taken.Queued descriptor' →
        descriptor' ∉ taken.pending.toList → descriptor' ∉ pushed.pending.toList := by
      intro descriptor' hqueued' hnot hpending
      exact (hpushed.pending_iff.mp hpending).elim hnot fun hnew => hnew.2 hqueued'
    intro hother
    rcases hother with ⟨descriptor', hdenotes', hold, hnot⟩ | rfl
    · obtain ⟨hdenotes'', hqueued⟩ := kept_of_told htaken htold hpushed hdenotes' hold
      refine ⟨descriptor', hdenotes'', hqueued, hnotPending (htaken.queued_iff.mpr hold) ?_⟩
      exact fun hpending => hnot ((htaken.pending_iff h.worklist).mp hpending).1
    · have hold := h.worklist.queued_of_pending htaken.mem_pending
      obtain ⟨hdenotes', hqueued⟩ := kept_of_told htaken htold hpushed hdenotes hold
      refine ⟨descriptor, hdenotes', hqueued, hnotPending (htaken.queued_iff.mpr hold) ?_⟩
      exact fun hpending => ((htaken.pending_iff h.worklist).mp hpending).2 rfl

/-- Once the news of a task have been told and its descriptors queued, the chart has learned
them. -/
theorem Invariant.chart_eq_learn :
    chart ⟨facts, pushed, expansions⟩ = engine.chart.learn (task.news grammar input) := by
  have hqueued := h.queued_eq_learn expansions htaken htold hpushed
  have hdone := h.done_eq_learn expansions hdenotes htaken htold hpushed
  have hcalls := htold.calls_eq
  have hedges := htold.edges_eq
  have hends := htold.ends_eq
  show Chart.mk facts.calls facts.edges facts.ends _ _ = Chart.mk _ _ _ _ _
  rw [Chart.mk.injEq]
  exact ⟨hcalls, hedges, hends, hqueued, hdone⟩

end Learn

/-- The counter of expansions goes up with each expansion that is done, and with nothing else. -/
theorem process_eq {facts facts' : Facts} {taken pushed : Worklist} {expansions : Nat}
    {produced : List Descriptor} {answers : List (Descriptor × Bool)} {task : Task}
    {done : Set Task}
    (hstep : facts.step grammar input descriptor = .ok (produced, facts'))
    (hpush : taken.pushAll produced = .ok (answers, pushed))
    (hdenotes : facts.graph.Denotes descriptor task) (hnew : task ∉ done)
    (hcount : {call | .expand call ∈ done}.encard = expansions) :
    ∃ expansions', process grammar input ⟨facts, taken, expansions⟩ descriptor =
        .ok (answers, ⟨facts', pushed, expansions'⟩) ∧
      {call | .expand call ∈ done ∪ {task}}.encard = expansions' := by
  cases hdenotes with
  | @expand node call hfind =>
    have hinsert : {other | .expand other ∈ done ∪ {.expand call}} =
        insert call {other | .expand other ∈ done} := by
      ext other
      simp
    have hnotMem : call ∉ {other | .expand other ∈ done} := hnew
    refine ⟨expansions + 1, by simp only [process, hstep, hpush], ?_⟩
    rw [hinsert, Set.encard_insert_of_notMem hnotMem, hcount]
    rfl
  | @resume node pos slot call hfind =>
    have hsame : {other | .expand other ∈ done ∪ {.resume call pos slot}} =
        {other | .expand other ∈ done} := by
      ext other
      simp
    exact ⟨expansions, by simp only [process, hstep, hpush], by rw [hsame, hcount]⟩

/-- A round never comes to a fault, keeps the invariant, and makes the chart learn the news of a
task that was not done yet. -/
theorem Invariant.process (h : Invariant grammar input start engine)
    (hstart : start < grammar.nonterminalCount) {taken : Worklist}
    (htaken : engine.worklist.Taken descriptor taken) :
    ∃ answers engine', process grammar input ⟨engine.facts, taken, engine.expansions⟩ descriptor =
        .ok (answers, engine') ∧ Invariant grammar input start engine' ∧
      engine'.worklist.processed = engine.worklist.processed + 1 ∧
      engine'.worklist.order = engine.worklist.order ∧
      ∃ task, engine.facts.graph.Denotes descriptor task ∧ task ∈ engine.chart.queued ∧
        engine'.chart = engine.chart.learn (task.news grammar input) := by
  obtain ⟨task, hdenotes, hqueued, hnotDone, hdue⟩ := h.exists_task htaken.mem_pending
  obtain ⟨produced, facts, hstep, htold⟩ := Facts.step_told h.facts hstart hdenotes hdue
  have hexact := h.learn_le_exact hdue
  have hcalls : facts.calls ⊆ (Chart.exact grammar input start).calls := by
    rw [htold.calls_eq]
    exact hexact.calls
  -- the calls are justified even after this round, so their numbers stay within what was set aside
  have hcapacity : facts.graph.nodeCount ≤ taken.expanded.capacity := by
    rw [htaken.expanded_eq]
    exact (htold.consistent.nodeCount_le hstart hcalls).trans h.room
  have hroom : ∀ other ∈ produced, taken.HasRoom other := by
    intro other hother
    obtain ⟨task', -, hdenotes'⟩ := htold.task_of_produced other hother
    have hlt := htold.consistent.graph.lt_nodeCount hdenotes'.find?_eq
    cases other with
    | expand node => exact Nat.lt_of_lt_of_le hlt hcapacity
    | resume node pos slot => trivial
  obtain ⟨answers, pushed, hpush, hpushed⟩ :=
    Worklist.pushAll_of_hasRoom (htaken.consistent h.worklist) hroom
  obtain ⟨expansions, hprocess, hexpansions⟩ :=
    process_eq hstep hpush hdenotes hnotDone h.encard_expanded
  have hlearn := h.chart_eq_learn expansions hdenotes htaken htold hpushed
  have hdone : (engine.chart.learn (task.news grammar input)).done =
      engine.chart.done ∪ {task} := by
    rw [Chart.learn, Task.done_news]
  refine ⟨answers, ⟨facts, pushed, expansions⟩, hprocess,
    { facts := htold.consistent
      worklist := hpushed.consistent
      node_lt_of_queued := ?_
      room := ?_
      find?_root := htold.extends_graph.find?_of_find? h.find?_root
      le_exact := hlearn ▸ hexact
      closed := hlearn ▸ h.closed.learn hqueued
      encard_done := ?_
      encard_expanded := ?_ }, ?_, ?_, task, hdenotes, hqueued, hlearn⟩
  · intro other hother
    rcases hpushed.queued_iff.mp hother with hold | hnew
    · rw [htaken.queued_iff] at hold
      exact Nat.lt_of_lt_of_le (h.node_lt_of_queued hold)
        (htold.extends_graph.nodeCount_le h.facts.graph htold.consistent.graph)
    · obtain ⟨task', -, hdenotes'⟩ := htold.task_of_produced other hnew
      exact htold.consistent.graph.lt_nodeCount hdenotes'.find?_eq
  · rw [hpushed.capacity_eq, htaken.expanded_eq]
    exact h.room
  · rw [hlearn, hdone, Set.union_singleton, Set.encard_insert_of_notMem hnotDone, h.encard_done,
      hpushed.processed_eq, htaken.processed_eq]
    rfl
  · rw [hlearn, hdone]
    exact hexpansions
  · rw [hpushed.processed_eq, htaken.processed_eq]
  · rw [hpushed.order_eq, htaken.order_eq]

/-! ## The start of a run -/

/-- What is known at the start of a run: the root call has been made. -/
def rootFacts (start : Nat) : Facts :=
  ⟨(CallGraph.empty.enter ⟨start, 0⟩).2, .empty⟩

theorem enter_root : CallGraph.empty.enter ⟨start, 0⟩ = (0, (rootFacts start).graph) := by
  rw [rootFacts, CallGraph.enter_of_find?_none (Facts.find?_empty _)]
  rfl

theorem find?_rootFacts {call : Call} {node : Nat} :
    (rootFacts start).graph.find? call = some node ↔ call = ⟨start, 0⟩ ∧ node = 0 := by
  rw [rootFacts, CallGraph.find?_enter, enter_root]
  by_cases hcall : call = ⟨start, 0⟩
  · simp [hcall, eq_comm]
  · simp [hcall, Facts.find?_empty]

theorem denotes_rootFacts {node : Nat} {task : Task} :
    (rootFacts start).graph.Denotes (.expand node) task ↔
      task = .expand ⟨start, 0⟩ ∧ node = 0 := by
  constructor
  · intro h
    obtain ⟨hfind⟩ := h
    obtain ⟨rfl, rfl⟩ := find?_rootFacts.mp hfind
    exact ⟨rfl, rfl⟩
  · intro h
    obtain ⟨rfl, rfl⟩ := h
    exact .expand (find?_rootFacts.mpr ⟨rfl, rfl⟩)

/-- With the root call queued and nothing taken off, the chart is that of the start of a run. -/
theorem chart_rootFacts {worklist : Worklist} {expansions : Nat}
    (hqueued : ∀ {descriptor}, worklist.Queued descriptor ↔ descriptor = .expand 0)
    (hpending : .expand 0 ∈ worklist.pending.toList) :
    chart ⟨rootFacts start, worklist, expansions⟩ = Chart.root start := by
  obtain ⟨-, hcalls, hedges, hends⟩ := Facts.consistent_empty.enter ⟨start, 0⟩
  have hqueued_eq : (chart ⟨rootFacts start, worklist, expansions⟩).queued =
      {.expand ⟨start, 0⟩} := by
    ext task
    constructor
    · intro h
      obtain ⟨descriptor, hdenotes, hmem⟩ := h
      rw [hqueued.mp hmem] at hdenotes
      exact (denotes_rootFacts.mp hdenotes).1
    · intro heq
      obtain rfl := heq
      exact ⟨.expand 0, denotes_rootFacts.mpr ⟨rfl, rfl⟩, hqueued.mpr rfl⟩
  have hdone : (chart ⟨rootFacts start, worklist, expansions⟩).done = ∅ := by
    refine Set.eq_empty_of_forall_notMem ?_
    intro task htask
    obtain ⟨descriptor, -, hmem, hnot⟩ := htask
    rw [hqueued.mp hmem] at hnot
    exact hnot hpending
  show Chart.mk _ _ _ _ _ = Chart.mk _ _ _ _ _
  rw [Chart.mk.injEq]
  refine ⟨?_, ?_, ?_, hqueued_eq, hdone⟩
  · exact hcalls.trans (by rw [Facts.calls_empty, Set.empty_union])
  · exact hedges.trans Facts.edges_empty
  · exact hends.trans Facts.ends_empty

/-- For a stated length everything is as for an input of this length, if there is room for the facts
about one and its calls can be counted in machine words. -/
theorem ofLength?_eq_idle (grammar : Grammar) (order : Order) {length : UInt64}
    (hfacts : 16 * (length.toNat + 1) < UInt64.size / 2)
    (hcalls : grammar.nonterminalCount * (length.toNat + 1) + 63 < UInt64.size) :
    ofLength? grammar order length = some (idle grammar order length.toNat) := by
  have hlength : (length + 1).toNat = length.toNat + 1 := by
    have hword : length.toNat + 1 < UInt64.size := by
      simp only [UInt64.size] at hfacts ⊢
      omega
    rw [UInt64.toNat_add]
    exact Nat.mod_eq_of_lt hword
  have hcount : grammar.nonterminalCount.toUInt64.toNat = grammar.nonterminalCount := by
    have hle : grammar.nonterminalCount ≤ grammar.nonterminalCount * (length.toNat + 1) :=
      Nat.le_mul_of_pos_right _ (Nat.succ_pos _)
    exact Nat.mod_eq_of_lt (by omega : grammar.nonterminalCount < UInt64.size)
  have hroom : Completions.withRoom? (length + 1) = some .empty :=
    if_pos (hlength ▸ hfacts)
  have hworklist := Worklist.ofLength_eq_create order (hcount.symm ▸ hcalls)
  rw [hcount] at hworklist
  rw [ofLength?, hroom, Option.map_some, hworklist]
  rfl

/-- A run starts with the root call made and queued, and the invariant holds. -/
theorem exists_start (input : Array τ) (hstart : start < grammar.nonterminalCount) (order : Order) :
    ∃ engine, Engine.start grammar order input.size start = .ok (0, engine) ∧
      Invariant grammar input start engine ∧ engine.worklist.processed = 0 ∧
      engine.worklist.order = order := by
  have hroom : (Worklist.create order grammar.nonterminalCount input.size).HasRoom (.expand 0) := by
    refine Nat.lt_of_lt_of_le ?_ (BitSet.le_capacity_roomFor _)
    exact Nat.mul_pos (Nat.zero_lt_of_lt hstart) (Nat.succ_pos _)
  obtain ⟨fresh, pushed, hpush, -, hpushed⟩ :=
    Worklist.push_of_hasRoom (Worklist.consistent_create ..) hroom
  have hqueued : ∀ {descriptor}, pushed.Queued descriptor ↔ descriptor = .expand 0 := by
    intro descriptor
    rw [hpushed.queued_iff, List.mem_singleton]
    exact or_iff_right (Worklist.not_queued_create _ _ _ descriptor)
  have hpending : .expand 0 ∈ pushed.pending.toList :=
    hpushed.pending_iff.mpr (.inr ⟨List.mem_singleton_self _,
      Worklist.not_queued_create _ _ _ _⟩)
  have hchart : chart ⟨rootFacts start, pushed, 0⟩ = Chart.root start :=
    chart_rootFacts hqueued hpending
  have hfacts : (rootFacts start).Consistent := (Facts.consistent_empty.enter ⟨start, 0⟩).1
  refine ⟨⟨rootFacts start, pushed, 0⟩, ?_,
    { facts := hfacts
      worklist := hpushed.consistent
      node_lt_of_queued := ?_
      room := hpushed.capacity_eq ▸ BitSet.le_capacity_roomFor _
      find?_root := find?_rootFacts.mpr ⟨rfl, rfl⟩
      le_exact := hchart ▸ root_le_exact
      closed := hchart ▸ closed_root
      encard_done := ?_
      encard_expanded := ?_ }, hpushed.processed_eq, hpushed.order_eq⟩
  · simp only [Engine.start, enter_root, hpush]
    rfl
  · intro descriptor hdescriptor
    rw [hqueued.mp hdescriptor]
    exact hfacts.graph.lt_nodeCount (find?_rootFacts.mpr ⟨rfl, rfl⟩)
  · rw [hchart, hpushed.processed_eq]
    exact Set.encard_empty
  · rw [hchart]
    exact Set.encard_empty

/-! ## Runs -/

/-- Whatever pending descriptor is taken next, a round with it comes to no fault. -/
theorem Invariant.exists_takes (h : Invariant grammar input start engine)
    (hstart : start < grammar.nonterminalCount)
    (hpending : descriptor ∈ engine.worklist.pending.toList) :
    ∃ engine', Takes grammar input engine descriptor engine' := by
  obtain ⟨front, back, hsplit⟩ := List.append_of_mem hpending
  have htaken : engine.worklist.Taken descriptor
      { engine.worklist with pending := ⟨front ++ back, []⟩
                             processed := engine.worklist.processed + 1 } :=
    ⟨⟨front, back, hsplit, by simp [Deque.toList]⟩, rfl, rfl, rfl, rfl⟩
  obtain ⟨answers, engine', hprocess, -⟩ := h.process hstart htaken
  exact ⟨engine', _, answers, htaken, hprocess⟩

/-- A round keeps the invariant, and the chart learns the news of a task that is queued. -/
theorem Invariant.takes (h : Invariant grammar input start engine)
    (hstart : start < grammar.nonterminalCount)
    (htakes : Takes grammar input engine descriptor engine') :
    Invariant grammar input start engine' ∧
      engine'.worklist.processed = engine.worklist.processed + 1 ∧
      ∃ task, engine.facts.graph.Denotes descriptor task ∧ task ∈ engine.chart.queued ∧
        engine'.chart = engine.chart.learn (task.news grammar input) := by
  obtain ⟨worklist, answers, htaken, hprocess⟩ := htakes
  obtain ⟨answers', other, hprocess', hinvariant, hprocessed, -, hlearn⟩ := h.process hstart htaken
  rw [hprocess, Except.ok.injEq, Prod.mk.injEq] at hprocess'
  obtain ⟨-, rfl⟩ := hprocess'
  exact ⟨hinvariant, hprocessed, hlearn⟩

/-- Calls keep their numbers in a round. -/
theorem Invariant.extends_of_takes (h : Invariant grammar input start engine)
    (hstart : start < grammar.nonterminalCount)
    (htakes : Takes grammar input engine descriptor engine') :
    engine.facts.graph.Extends engine'.facts.graph := by
  obtain ⟨worklist, answers, htaken, hprocess⟩ := htakes
  obtain ⟨task, hdenotes, -, -, hdue⟩ := h.exists_task htaken.mem_pending
  obtain ⟨produced, facts, hstep, htold⟩ := Facts.step_told h.facts hstart hdenotes hdue
  simp only [Engine.process, hstep] at hprocess
  split at hprocess
  · cases hprocess
  · obtain rfl := congrArg Prod.snd (Except.ok.inj hprocess)
    exact htold.extends_graph

/-- The invariant holds after any number of rounds in any order. -/
theorem Invariant.schedules (h : Invariant grammar input start engine)
    (hstart : start < grammar.nonterminalCount)
    (hschedules : Schedules grammar input engine engine') :
    Invariant grammar input start engine' := by
  induction hschedules with
  | refl => exact h
  | tail _ hround ih =>
    obtain ⟨descriptor, htakes⟩ := hround
    exact (ih.takes hstart htakes).1

/-- There are never more descriptors processed than a run may take rounds. -/
theorem Invariant.processed_le (h : Invariant grammar input start engine)
    (hstart : start < grammar.nonterminalCount) :
    engine.worklist.processed ≤ workLimit grammar input.size := by
  refine Nat.cast_le (α := ℕ∞).mp ?_
  rw [← h.encard_done]
  exact (Set.encard_le_encard h.le_exact.done).trans (encard_queued_exact_le_workLimit hstart)

/-- With nothing pending, all that has been queued is done. -/
theorem queued_subset_done (hpending : engine.worklist.pending.toList = []) :
    engine.chart.queued ⊆ engine.chart.done := by
  intro task htask
  obtain ⟨descriptor, hdenotes, hqueued⟩ := htask
  refine ⟨descriptor, hdenotes, hqueued, ?_⟩
  rw [hpending]
  exact List.not_mem_nil

/-- With nothing pending, the chart is exact, in whatever order the rounds were. -/
theorem Invariant.chart_eq_exact (h : Invariant grammar input start engine)
    (hpending : engine.worklist.pending.toList = []) :
    engine.chart = Chart.exact grammar input start :=
  Chart.le_antisymm h.le_exact
    (h.closed.exact_le ⟨0, h.find?_root⟩ (queued_subset_done hpending))

/-- The worklist's own order makes a round, unless nothing is pending. -/
theorem Invariant.advance (h : Invariant grammar input start engine)
    (hstart : start < grammar.nonterminalCount) :
    engine.worklist.pending.toList = [] ∧ engine.advance grammar input = .ok (none, engine) ∨
      ∃ round engine', engine.advance grammar input = .ok (some round, engine') ∧
        Takes grammar input engine round.taken engine' := by
  cases hpop : engine.worklist.pop? with
  | none => exact .inl ⟨Worklist.pop?_eq_none_iff.mp hpop, by simp only [Engine.advance, hpop]⟩
  | some popped =>
    obtain ⟨descriptor, worklist⟩ := popped
    have htaken := Worklist.taken_of_pop? hpop
    obtain ⟨answers, engine', hprocess, -⟩ := h.process hstart htaken
    exact .inr ⟨⟨descriptor, answers⟩, engine', by simp only [Engine.advance, hpop, hprocess],
      worklist, answers, htaken, hprocess⟩

/-- A run of a bounded number of rounds comes to no fault. It takes all of them, a descriptor in
each, unless it ends with nothing pending. -/
theorem Invariant.drain_within (hstart : start < grammar.nonterminalCount) (limit : Nat) :
    ∀ {engine}, Invariant grammar input start engine →
      ∃ engine', engine.drain grammar input limit = .ok engine' ∧
        Schedules grammar input engine engine' ∧
        engine'.worklist.processed ≤ engine.worklist.processed + limit ∧
        (engine'.worklist.pending.toList = [] ∨
          engine'.worklist.processed = engine.worklist.processed + limit) := by
  induction limit with
  | zero => exact fun {engine} _ => ⟨engine, rfl, .refl, Nat.le_refl _, .inr rfl⟩
  | succ limit ih =>
    intro engine h
    rcases h.advance hstart with ⟨hpending, hadvance⟩ | ⟨round, engine', hadvance, htakes⟩
    · exact ⟨engine, by simp only [Engine.drain, hadvance], .refl, Nat.le_add_right _ _,
        .inl hpending⟩
    · obtain ⟨hinvariant, hprocessed, -⟩ := h.takes hstart htakes
      obtain ⟨last, hdrain, hschedules, hle, hlast⟩ := ih hinvariant
      refine ⟨last, by simp only [Engine.drain, hadvance, hdrain],
        .head ⟨round.taken, htakes⟩ hschedules, by omega, hlast.imp_right ?_⟩
      omega

/-- A run with rounds enough ends with nothing pending. Each round processes one descriptor more,
and there are never more than `workLimit`. -/
theorem Invariant.drain (hstart : start < grammar.nonterminalCount) (limit : Nat)
    (h : Invariant grammar input start engine)
    (hlimit : workLimit grammar input.size ≤ engine.worklist.processed + limit) :
    ∃ engine', engine.drain grammar input limit = .ok engine' ∧
      Schedules grammar input engine engine' ∧ engine'.worklist.pending.toList = [] := by
  obtain ⟨last, hdrain, hschedules, -, hlast⟩ := h.drain_within hstart limit
  refine ⟨last, hdrain, hschedules, hlast.elim id fun hprocessed => ?_⟩
  -- one round more would process more descriptors than there are
  rcases (h.schedules hstart hschedules).advance hstart with
    ⟨hpending, -⟩ | ⟨round, engine', -, htakes⟩
  · exact hpending
  · obtain ⟨hinvariant, hprocessed', -⟩ := (h.schedules hstart hschedules).takes hstart htakes
    have hle := hinvariant.processed_le hstart
    omega

/-- Rounds never take anything back. -/
theorem Invariant.chart_le (h : Invariant grammar input start engine)
    (hstart : start < grammar.nonterminalCount)
    (hschedules : Schedules grammar input engine engine') : engine.chart ≤ engine'.chart := by
  induction hschedules with
  | refl => exact Chart.le_refl _
  | tail hrounds hround ih =>
    obtain ⟨descriptor, htakes⟩ := hround
    obtain ⟨-, -, task, -, -, hlearn⟩ := (h.schedules hstart hrounds).takes hstart htakes
    exact Chart.le_trans ih (hlearn ▸ Chart.le_learn _ _)

/-- The number of processed descriptors never goes down. -/
theorem Invariant.processed_mono (h : Invariant grammar input start engine)
    (hstart : start < grammar.nonterminalCount)
    (hschedules : Schedules grammar input engine engine') :
    engine.worklist.processed ≤ engine'.worklist.processed := by
  rw [← Nat.cast_le (α := ℕ∞), ← h.encard_done, ← (h.schedules hstart hschedules).encard_done]
  exact Set.encard_le_encard (h.chart_le hstart hschedules).done

/-- Rounds that process nothing more are no rounds at all. -/
theorem Invariant.eq_of_processed_le (h : Invariant grammar input start engine)
    (hstart : start < grammar.nonterminalCount)
    (hschedules : Schedules grammar input engine engine')
    (hle : engine'.worklist.processed ≤ engine.worklist.processed) : engine' = engine := by
  rcases Relation.ReflTransGen.cases_head hschedules with heq | ⟨next, ⟨descriptor, htakes⟩, hrest⟩
  · exact heq.symm
  · obtain ⟨hnext, hprocessed, -⟩ := h.takes hstart htakes
    have hmono := hnext.processed_mono hstart hrest
    omega

/-- With nothing pending there are no rounds. -/
theorem eq_of_pending_eq_nil (hpending : engine.worklist.pending.toList = [])
    (hschedules : Schedules grammar input engine engine') : engine' = engine := by
  rcases Relation.ReflTransGen.cases_head hschedules with heq | ⟨next, ⟨descriptor, htakes⟩, -⟩
  · exact heq.symm
  · obtain ⟨worklist, answers, htaken, -⟩ := htakes
    have hmem := htaken.mem_pending
    rw [hpending] at hmem
    cases hmem

end Engine

end ContextFree
