import ContextFree.Proofs.Quiescence

/-!
# What holds in every state of every run

A run is in a new state after each round, and which pending descriptor a round takes is left open.
`Recognizer.Throughout` says of a property that it holds in all those states, from the start on;
where a budget stops a run is one of them. Whatever follows from `Engine.Invariant` holds throughout,
and two such properties are what the tables of a run are for:

- `Engine.Sound`: there is nothing in them without a derivation. Each entry, be it a descriptor
  queued, an end or a waiter, has its own, so a caller may trust a table that is not finished.
- `Engine.Resumed`: no caller waits in vain. For each waiter and each end of the call that it waits
  for, the resumption has been queued, whichever of the two came first.

With nothing pending the second becomes `Engine.Stable`: whatever was queued may be processed again,
and nothing comes of it.
-/

namespace ContextFree

variable {τ : Type} [Token τ]

namespace Recognizer

/-- A property holds in every state of every run: at the start, and after any number of rounds that
take pending descriptors as they please. Each of them can be taken, and a run comes to one of these
states under every budget; if there is none, to one with nothing pending. -/
def Throughout (recognizer : Recognizer) (input : Array τ) (property : Engine → Prop) : Prop :=
  ∃ root first,
    Engine.start recognizer.grammar recognizer.config.order input.size recognizer.start =
      .ok (root, first) ∧
    (∀ engine, Engine.Schedules recognizer.grammar input first engine →
      property engine ∧ ∀ descriptor ∈ engine.worklist.pending.toList,
        ∃ next, Engine.Takes recognizer.grammar input engine descriptor next) ∧
    ∀ budget, ∃ engine, recognizer.execute input budget = .ok (root, engine) ∧
      Engine.Schedules recognizer.grammar input first engine ∧
      (budget = none → engine.worklist.pop? = none)

/-- What follows from the invariant of runs holds throughout. -/
theorem throughout_of_invariant (recognizer : Recognizer) (input : Array τ) {property : Engine → Prop}
    (hproperty : ∀ engine,
      Engine.Invariant recognizer.grammar input recognizer.start engine → property engine) :
    recognizer.Throughout input property := by
  obtain ⟨first, hfirst, hinvariant, hruns⟩ := recognizer.exists_schedules input
  refine ⟨0, first, hfirst, ?_, ?_⟩
  · intro engine hschedules
    have h := hinvariant.schedules recognizer.start_lt hschedules
    exact ⟨hproperty engine h, fun descriptor hpending => h.exists_takes recognizer.start_lt hpending⟩
  · intro budget
    obtain ⟨engine, hexecute, hschedules, -, hlast⟩ := hruns budget
    refine ⟨engine, hexecute, hschedules, fun hnone => ?_⟩
    apply Worklist.pop?_eq_none_iff.mpr
    exact hlast.resolve_right fun hsome => Option.some_ne_none _ (hsome.symm.trans hnone)

end Recognizer

namespace Engine

/-! ## Nothing without a derivation -/

/-- Every entry in the tables of an engine is justified by a derivation of the grammar. -/
structure Sound (grammar : Grammar) (input : Array τ) (engine : Engine) : Prop where
  /-- Only calls are queued for expansion. -/
  lt_of_expand : ∀ {node : Nat}, engine.worklist.Queued (.expand node) →
    node < engine.facts.graph.nodeCount
  /-- A call goes on from a slot where it has matched all in front of the dot. -/
  spans_of_resume : ∀ {node pos slot : Nat}, engine.worklist.Queued (.resume node pos slot) →
    ∃ call before after, engine.facts.graph.calls[node]? = some call ∧
      grammar.Dotted slot call.nonterminal before after ∧
      call.start ≤ pos ∧ pos ≤ input.size ∧ Spans grammar input before call.start pos
  /-- A call ends where its nonterminal derives the input up to. -/
  derives_of_has : ∀ {node stop : Nat}, engine.facts.completions.has node stop = true →
    ∃ call, engine.facts.graph.calls[node]? = some call ∧
      Derives grammar input call.nonterminal call.start stop
  derives_of_mem_endsOf : ∀ {node stop : Nat}, stop ∈ engine.facts.completions.endsOf node →
    ∃ call, engine.facts.graph.calls[node]? = some call ∧
      Derives grammar input call.nonterminal call.start stop
  /-- A caller waits behind an occurrence of its callee, at which it has matched all in front. -/
  spans_of_waits : ∀ {node : Nat} {waiter : Waiter}, engine.facts.graph.Waits node waiter →
    ∃ callee caller before after, engine.facts.graph.calls[node]? = some callee ∧
      engine.facts.graph.calls[waiter.caller]? = some caller ∧
      grammar.Dotted waiter.resume caller.nonterminal
        (before ++ [.nonterminal callee.nonterminal]) after ∧
      Spans grammar input before caller.start callee.start

variable {grammar : Grammar} {input : Array τ} {start : Nat} {engine : Engine}

/-- Each end that is known is an end of the chart. -/
theorem Invariant.exists_derives (h : Invariant grammar input start engine) {node stop : Nat}
    (hhas : engine.facts.completions.has node stop = true) :
    ∃ call, engine.facts.graph.calls[node]? = some call ∧
      Derives grammar input call.nonterminal call.start stop := by
  obtain ⟨call, hfind, hend⟩ := h.facts.exists_end hhas
  exact ⟨call, h.facts.graph.find?_eq_some_iff.mp hfind, (h.le_exact.ends hend).2⟩

/-- The exact chart bounds the chart of every run, so what is in the tables is justified. -/
theorem Invariant.sound (h : Invariant grammar input start engine) :
    engine.Sound grammar input where
  lt_of_expand := h.node_lt_of_queued
  spans_of_resume := by
    intro node pos slot hqueued
    obtain ⟨task, hdenotes, -, hdue⟩ := h.exists_task_of_queued hqueued
    cases hdenotes with
    | @resume _ _ _ call hfind =>
      obtain ⟨hdemanded, before, after, hdotted, hspans⟩ := hdue
      exact ⟨call, before, after, h.facts.graph.find?_eq_some_iff.mp hfind, hdotted,
        hspans.start_le, hspans.le_size hdemanded.start_le, hspans⟩
  derives_of_has := h.exists_derives
  derives_of_mem_endsOf hmem := h.exists_derives ((h.facts.completions.mem_endsOf_iff _ _).mp hmem)
  spans_of_waits := by
    intro node waiter hwaits
    obtain ⟨callee, caller, hcallee, hcaller, hedge⟩ := h.facts.exists_edge hwaits
    obtain ⟨-, slot, before, after, hdotted, hresume, hspans⟩ := h.le_exact.edges hedge
    refine ⟨callee, caller, before, after, h.facts.graph.find?_eq_some_iff.mp hcallee,
      h.facts.graph.find?_eq_some_iff.mp hcaller, ?_, hspans⟩
    show grammar.Dotted (Edge.resume ⟨callee, caller, waiter.resume⟩) _ _ _
    rw [hresume]
    exact hdotted.advance

/-! ## No resumption is lost -/

/-- Every call has been queued for expansion, and every caller has been queued to go on from every
known end of a call that it waits for. -/
structure Resumed (engine : Engine) : Prop where
  queued_expand : ∀ {node : Nat}, node < engine.facts.graph.nodeCount →
    engine.worklist.Queued (.expand node)
  queued_resume : ∀ {node stop : Nat} {waiter : Waiter}, engine.facts.graph.Waits node waiter →
    engine.facts.completions.has node stop = true →
    engine.worklist.Queued (.resume waiter.caller stop waiter.resume)
  /-- The two tables of ends tell the same. -/
  mem_endsOf_iff : ∀ node stop, stop ∈ engine.facts.completions.endsOf node ↔
    engine.facts.completions.has node stop = true

/-- Whatever has been queued can be processed again without effect: nothing is found out that is not
known, and whatever is produced is refused. -/
def Stable (grammar : Grammar) (input : Array τ) (engine : Engine) : Prop :=
  ∀ descriptor, engine.worklist.Queued descriptor →
    ∃ produced, engine.facts.step grammar input descriptor = .ok (produced, engine.facts) ∧
      ∀ other ∈ produced, engine.worklist.push other = .ok (false, engine.worklist)

/-- The chart is closed at all times, so no resumption is missing. -/
theorem Invariant.resumed (h : Invariant grammar input start engine) : engine.Resumed where
  queued_expand := by
    intro node hlt
    obtain ⟨call, hfind⟩ := h.facts.graph.exists_find? hlt
    apply queued_of_mem (.expand hfind)
    exact h.closed.expand_mem call ⟨node, hfind⟩
  queued_resume := by
    intro node stop waiter hwaits hhas
    obtain ⟨callee, caller, hcallee, hcaller, hedge⟩ := h.facts.exists_edge hwaits
    have hend : (callee, stop) ∈ engine.chart.ends := ⟨node, hcallee, hhas⟩
    apply queued_of_mem (.resume hcaller)
    exact h.closed.replays_subset ⟨_, hedge, stop, hend, rfl⟩
  mem_endsOf_iff := h.facts.completions.mem_endsOf_iff

/-- With nothing pending every queued task is done, and what it tells has been told. -/
theorem Invariant.stable (h : Invariant grammar input start engine)
    (hstart : start < grammar.nonterminalCount)
    (hpending : engine.worklist.pending.toList = []) : engine.Stable grammar input := by
  intro descriptor hqueued
  obtain ⟨task, hdenotes, hmem, hdue⟩ := h.exists_task_of_queued hqueued
  have hnews : task.news grammar input ≤ engine.chart :=
    h.closed.news_le task (queued_subset_done hpending hmem)
  obtain ⟨produced, hstep⟩ :=
    Facts.step_known h.facts hstart hdenotes hdue hnews.calls hnews.edges hnews.ends
  obtain ⟨produced', facts', hstep', htold⟩ := Facts.step_told h.facts hstart hdenotes hdue
  rw [hstep, Except.ok.injEq, Prod.mk.injEq] at hstep'
  obtain ⟨rfl, rfl⟩ := hstep'
  refine ⟨produced, hstep, fun other hother => ?_⟩
  obtain ⟨task', htask', hdenotes'⟩ := htold.task_of_produced other hother
  apply Worklist.push_of_queued
  apply queued_of_mem hdenotes'
  rcases htask' with hnew | hreplay
  · exact hnews.queued hnew
  · exact h.closed.replays_subset hreplay

end Engine

namespace Recognizer

variable (recognizer : Recognizer) (input : Array τ)

/-- In every state of every run, whatever is in the tables is justified by a derivation. -/
theorem sound_throughout :
    recognizer.Throughout input (Engine.Sound recognizer.grammar input) :=
  recognizer.throughout_of_invariant input fun _ h => h.sound

/-- In every state of every run no resumption is lost, and whenever nothing is pending, nothing comes
of processing a descriptor again. -/
theorem resumed_throughout : recognizer.Throughout input fun engine =>
    engine.Resumed ∧ (engine.worklist.pop? = none → engine.Stable recognizer.grammar input) := by
  apply recognizer.throughout_of_invariant
  intro engine h
  refine ⟨h.resumed, fun hpop => ?_⟩
  exact h.stable recognizer.start_lt (Worklist.pop?_eq_none_iff.mp hpop)

end Recognizer

end ContextFree
