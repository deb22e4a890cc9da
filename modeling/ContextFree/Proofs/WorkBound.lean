import ContextFree.Proofs.Budget
import Mathlib.Algebra.Group.Nat.Even

/-!
# Recognition is polynomial work

However ambiguous a grammar is, a run has no more to do than there are places to do it at: a call is
settled by its nonterminal and its start, a completion by a nonterminal and an interval of the input,
and an edge or a resumption by a slot and an interval. Each counter of a run is the size of a part of
its chart, and the chart is within the exact one, so the sizes found for that (`encard_calls_exact_le`
and what follows it) bound the counters of every run, whether or not a budget cuts it short.
-/

namespace ContextFree

/-- A slot or nonterminal in each interval of an input of `length` tokens. -/
theorem mul_card_intervals (count length : Nat) :
    count * (intervals length).card = count * (length + 1) * (length + 2) / 2 := by
  have heven : 2 ∣ (length + 1) * (length + 2) := (Nat.even_mul_succ_self (length + 1)).two_dvd
  rw [card_intervals, Nat.mul_assoc, Nat.mul_div_assoc count heven]

/-- The counters of a run are polynomial in the length of the input and the size of the grammar. -/
structure Stats.Within (nonterminals slots length : Nat) (stats : Stats) : Prop where
  nodes : stats.nodes ≤ nonterminals * (length + 1)
  expansions : stats.expansions ≤ stats.nodes
  completions : stats.completions ≤ nonterminals * (length + 1) * (length + 2) / 2
  edges : stats.edges ≤ slots * (length + 1) * (length + 2) / 2
  descriptors : stats.descriptors ≤
    slots * (length + 1) * (length + 2) / 2 + nonterminals * (length + 1)

variable {τ : Type} [Token τ] {grammar : Grammar} {input : Array τ} {start : Nat} {engine : Engine}

namespace Engine

/-- There is no expansion but of a call that has been made. -/
theorem expanded_subset_calls :
    {call | .expand call ∈ engine.chart.done} ⊆ engine.facts.calls := by
  intro call hcall
  obtain ⟨descriptor, hdenotes, -, -⟩ := hcall
  exact ⟨descriptor.node, hdenotes.find?_eq⟩

/-- Each counter tells the size of a part of the chart, which is within the exact chart. -/
theorem Invariant.stats_within (h : Invariant grammar input start engine)
    (hstart : start < grammar.nonterminalCount) (root : Nat) :
    (engine.report root input.size).stats.Within grammar.nonterminalCount grammar.slotCount
      input.size where
  nodes := h.facts.nodeCount_le hstart h.le_exact.calls
  expansions := by
    show engine.expansions ≤ engine.facts.graph.nodeCount
    rw [← Nat.cast_le (α := ℕ∞), ← h.encard_expanded, ← h.facts.encard_calls]
    exact Set.encard_le_encard expanded_subset_calls
  completions := by
    show engine.facts.completions.count ≤ _
    rw [← mul_card_intervals, ← Nat.cast_le (α := ℕ∞), ← h.facts.encard_ends]
    exact (Set.encard_le_encard h.le_exact.ends).trans (encard_ends_exact_le hstart)
  edges := by
    show engine.facts.graph.edgeCount ≤ _
    rw [← mul_card_intervals, ← Nat.cast_le (α := ℕ∞), ← h.facts.encard_edges]
    exact (Set.encard_le_encard h.le_exact.edges).trans encard_edges_exact_le
  descriptors := by
    show engine.worklist.processed ≤ _
    rw [← mul_card_intervals, ← Nat.cast_le (α := ℕ∞), ← h.encard_done]
    exact (Set.encard_le_encard h.le_exact.done).trans (encard_queued_exact_le hstart)

end Engine

/-- A run in either order and under any budget gives a report, and its counters are polynomial in
the length of the input. -/
theorem Recognizer.exists_run_within (recognizer : Recognizer) (input : Array τ) :
    ∃ report, recognizer.run input = .ok report ∧ report.stats.Within
      recognizer.grammar.nonterminalCount recognizer.grammar.slotCount input.size := by
  obtain ⟨engine, hexecute, h, -⟩ :=
    recognizer.exists_execute_within input recognizer.config.budget
  exact ⟨engine.report 0 input.size, by simp only [run, hexecute],
    h.stats_within recognizer.start_lt 0⟩

end ContextFree
