import ContextFree.Proofs.Quiescence

/-!
# The report does not depend on the order of work

Two orders of work may have no state in common between the start and the end: whether a caller or
the end of its callee comes first decides by which of two ways the caller goes on. But what a run
knows with nothing pending is the exact chart of the grammar and the input, and every counter of the
engine tells the size of a part of the chart. So all runs report the same
(`Recognizer.exists_report`), those of the two orders of the worklist and those that take pending
descriptors as they please.
-/

namespace ContextFree

variable {τ : Type} [Token τ] {grammar : Grammar} {input : Array τ} {start : Nat}
  {engine engine' : Engine}

/-- A queue is empty if it has no elements. -/
theorem Deque.isEmpty_eq_true_iff {α : Type} {queue : Deque α} :
    queue.isEmpty = true ↔ queue.toList = [] := by
  simp [isEmpty, toList]

namespace Stats

/-- A run was no more work than another, by any counter. -/
structure Le (stats other : Stats) : Prop where
  descriptors : stats.descriptors ≤ other.descriptors
  expansions : stats.expansions ≤ other.expansions
  nodes : stats.nodes ≤ other.nodes
  edges : stats.edges ≤ other.edges
  completions : stats.completions ≤ other.completions

instance : LE Stats :=
  ⟨Le⟩

theorem le_antisymm {stats other : Stats} (h : stats ≤ other) (h' : other ≤ stats) :
    stats = other := by
  obtain ⟨descriptors, expansions, nodes, edges, completions⟩ := stats
  obtain ⟨descriptors', expansions', nodes', edges', completions'⟩ := other
  rw [mk.injEq]
  exact ⟨Nat.le_antisymm h.descriptors h'.descriptors, Nat.le_antisymm h.expansions h'.expansions,
    Nat.le_antisymm h.nodes h'.nodes, Nat.le_antisymm h.edges h'.edges,
    Nat.le_antisymm h.completions h'.completions⟩

end Stats

namespace Engine

/-- An engine whose chart has no more in it than another's counts no more. -/
theorem Invariant.stats_le (h : Invariant grammar input start engine)
    (h' : Invariant grammar input start engine') (hchart : engine.chart ≤ engine'.chart)
    (root length : Nat) :
    (engine.report root length).stats ≤ (engine'.report root length).stats where
  descriptors := by
    show engine.worklist.processed ≤ engine'.worklist.processed
    rw [← Nat.cast_le (α := ℕ∞), ← h.encard_done, ← h'.encard_done]
    exact Set.encard_le_encard hchart.done
  expansions := by
    show engine.expansions ≤ engine'.expansions
    rw [← Nat.cast_le (α := ℕ∞), ← h.encard_expanded, ← h'.encard_expanded]
    exact Set.encard_le_encard fun _ hcall => hchart.done hcall
  nodes := by
    show engine.facts.graph.nodeCount ≤ engine'.facts.graph.nodeCount
    rw [← Nat.cast_le (α := ℕ∞), ← h.facts.encard_calls, ← h'.facts.encard_calls]
    exact Set.encard_le_encard hchart.calls
  edges := by
    show engine.facts.graph.edgeCount ≤ engine'.facts.graph.edgeCount
    rw [← Nat.cast_le (α := ℕ∞), ← h.facts.encard_edges, ← h'.facts.encard_edges]
    exact Set.encard_le_encard hchart.edges
  completions := by
    show engine.facts.completions.count ≤ engine'.facts.completions.count
    rw [← Nat.cast_le (α := ℕ∞), ← h.facts.encard_ends, ← h'.facts.encard_ends]
    exact Set.encard_le_encard hchart.ends

/-- The counters of two engines with the same chart are the same. -/
theorem Invariant.stats_eq (h : Invariant grammar input start engine)
    (h' : Invariant grammar input start engine') (hchart : engine.chart = engine'.chart)
    (root length : Nat) :
    (engine.report root length).stats = (engine'.report root length).stats :=
  Stats.le_antisymm (h.stats_le h' (hchart ▸ Chart.le_refl _) root length)
    (h'.stats_le h (hchart ▸ Chart.le_refl _) root length)

/-- With nothing pending, a report tells whether the start symbol derives the whole input. -/
theorem Invariant.outcome_eq [Decidable (Derives grammar input start 0 input.size)]
    (h : Invariant grammar input start engine) (hpending : engine.worklist.pending.toList = []) :
    (engine.report 0 input.size).outcome =
      if Derives grammar input start 0 input.size then .recognized else .rejected := by
  have hhas := h.has_iff_derives hpending h.find?_root input.size
  simp only [report, Deque.isEmpty_eq_true_iff.mpr hpending, hhas, if_true]

/-- Runs with nothing left pending report the same, in whatever order they did their work. -/
theorem Invariant.report_eq (h : Invariant grammar input start engine)
    (h' : Invariant grammar input start engine')
    (hpending : engine.worklist.pending.toList = [])
    (hpending' : engine'.worklist.pending.toList = []) :
    engine.report 0 input.size = engine'.report 0 input.size := by
  classical
  have hchart : engine.chart = engine'.chart :=
    (h.chart_eq_exact hpending).trans (h'.chart_eq_exact hpending').symm
  rw [Report.mk.injEq]
  exact ⟨(h.outcome_eq hpending).trans (h'.outcome_eq hpending').symm, h.stats_eq h' hchart 0 _⟩

/-- With nothing left pending each call has been expanded, once. -/
theorem Invariant.expansions_eq_nodeCount (h : Invariant grammar input start engine)
    (hpending : engine.worklist.pending.toList = []) :
    engine.expansions = engine.facts.graph.nodeCount := by
  have hexpanded : {call | .expand call ∈ engine.chart.done} = engine.facts.calls := by
    have hcalls : engine.facts.calls = (Chart.exact grammar input start).calls :=
      congrArg Chart.calls (h.chart_eq_exact hpending)
    rw [h.chart_eq_exact hpending, hcalls]
    rfl
  rw [← Nat.cast_inj (R := ℕ∞), ← h.encard_expanded, ← h.facts.encard_calls, hexpanded]

end Engine

namespace Recognizer

variable (recognizer : Recognizer) (input : Array τ)

/-- All runs without a budget give one and the same report, with as many expansions as calls: those
of both orders of the worklist, and those that take any pending descriptor whatever in each round.
Such a run can always go on while anything is pending, and not for ever. -/
theorem exists_report : ∃ report : Report, report.stats.expansions = report.stats.nodes ∧
    (∀ order, { recognizer with config := { order := order, budget := none } }.run input =
      .ok report) ∧
    ∀ order root first engine,
      Engine.start recognizer.grammar order input.size recognizer.start = .ok (root, first) →
      Engine.Schedules recognizer.grammar input first engine →
      (∀ descriptor ∈ engine.worklist.pending.toList,
        ∃ next, Engine.Takes recognizer.grammar input engine descriptor next) ∧
      engine.worklist.processed ≤ workLimit recognizer.grammar input.size ∧
      (engine.worklist.pending.toList = [] → engine.report root input.size = report) := by
  obtain ⟨last, -, h, hpending⟩ := recognizer.exists_execute input
  refine ⟨last.report 0 input.size, h.expansions_eq_nodeCount hpending, ?_, ?_⟩
  · intro order
    obtain ⟨engine, hexecute, h', hpending'⟩ :=
      { recognizer with config := { order := order, budget := none } }.exists_execute input
    simp only [run, hexecute]
    rw [h'.report_eq h hpending' hpending]
  · intro order root first engine hfirst hschedules
    obtain ⟨first', hfirst', hinvariant, -, -⟩ :=
      Engine.exists_start input recognizer.start_lt order
    rw [hfirst', Except.ok.injEq, Prod.mk.injEq] at hfirst
    obtain ⟨rfl, rfl⟩ := hfirst
    have h' := hinvariant.schedules recognizer.start_lt hschedules
    refine ⟨fun descriptor hmem => h'.exists_takes recognizer.start_lt hmem,
      h'.processed_le recognizer.start_lt, fun hpending' => h'.report_eq h hpending' hpending⟩

end Recognizer

end ContextFree
