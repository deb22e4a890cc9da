import ContextFree.Proofs.EveryState
import ContextFree.Proofs.Renumbering

/-!
# Rounds commute

Of two pending descriptors either may be processed first. What a single round produces does depend on
that: where one of the two calls and the other completes the callee, the caller goes on by the one or
the other, whichever comes second; where both make a new call, the numbers of the two calls are
exchanged. But the chart only learns the news of the one task and then of the other, and in which
order it does so makes no difference (`Chart.learn_comm`). So both orders come to the same state, and
numbers given out before are the same in both (`Recognizer.commuting_throughout`).
-/

namespace ContextFree

variable {τ : Type} [Token τ]

namespace Engine

/-- Any two pending descriptors can be processed one after the other, and whatever this comes to is,
up to the numbers of the calls that are new, what processing them the other way round comes to. -/
structure Commuting (grammar : Grammar) (input : Array τ) (engine : Engine) : Prop where
  exists_takes : ∀ {first second : Descriptor}, first ∈ engine.worklist.pending.toList →
    second ∈ engine.worklist.pending.toList → first ≠ second →
    ∃ middle last, Takes grammar input engine first middle ∧ Takes grammar input middle second last
  exists_renumbered : ∀ {first second : Descriptor} {middle last middle' last' : Engine},
    Takes grammar input engine first middle → Takes grammar input middle second last →
    Takes grammar input engine second middle' → Takes grammar input middle' first last' →
    ∃ number : Equiv.Perm Nat, Renumbered number last last' ∧
      ∀ node < engine.facts.graph.nodeCount, number node = node

variable {grammar : Grammar} {input : Array τ} {start : Nat} {engine engine' : Engine}
  {descriptor : Descriptor} {task : Task}

/-- Where a descriptor is pending in a round before its own, it denotes the same task in both. -/
theorem Invariant.chart_of_takes (h : Invariant grammar input start engine)
    (hstart : start < grammar.nonterminalCount)
    (htakes : Takes grammar input engine descriptor engine')
    (hdenotes : engine.facts.graph.Denotes descriptor task) :
    engine'.chart = engine.chart.learn (task.news grammar input) := by
  obtain ⟨-, -, task', hdenotes', -, hlearn⟩ := h.takes hstart htakes
  rwa [h.facts.graph.denotes_unique hdenotes hdenotes']

/-- A descriptor is pending when it is taken, and denotes a task then. -/
theorem Invariant.exists_denotes_of_takes (h : Invariant grammar input start engine)
    (htakes : Takes grammar input engine descriptor engine') :
    ∃ task, engine.facts.graph.Denotes descriptor task := by
  obtain ⟨worklist, answers, htaken, -⟩ := htakes
  obtain ⟨task, hdenotes, -⟩ := h.exists_task htaken.mem_pending
  exact ⟨task, hdenotes⟩

variable {first second : Descriptor}

/-- Processing one descriptor leaves all others pending. -/
theorem Invariant.mem_pending_of_takes (h : Invariant grammar input start engine)
    (hstart : start < grammar.nonterminalCount)
    (htakes : Takes grammar input engine first engine')
    (hsecond : second ∈ engine.worklist.pending.toList) (hne : first ≠ second) :
    second ∈ engine'.worklist.pending.toList := by
  obtain ⟨task, hdenotes⟩ := h.exists_denotes_of_takes htakes
  obtain ⟨other, hother, hqueued, hnotDone, -⟩ := h.exists_task hsecond
  have hlearn := h.chart_of_takes hstart htakes hdenotes
  have hne' : other ≠ task := fun heq => hne (hdenotes.unique (heq ▸ hother))
  apply mem_pending_of_notMem_done ((h.extends_of_takes hstart htakes).denotes hother)
  · exact hlearn ▸ (Chart.le_learn _ _).queued hqueued
  · rw [hlearn, Chart.learn, Task.done_news]
    exact fun hdone => hdone.elim hnotDone hne'

/-- The chart after two rounds has learned the news of both tasks, each denoted by its descriptor
from the start. -/
theorem Invariant.chart_of_takes_takes (h : Invariant grammar input start engine)
    (hstart : start < grammar.nonterminalCount) {middle last : Engine} {other : Task}
    (htakes : Takes grammar input engine first middle)
    (htakes' : Takes grammar input middle second last)
    (hfirst : engine.facts.graph.Denotes first task)
    (hsecond : engine.facts.graph.Denotes second other) :
    last.chart = (engine.chart.learn (task.news grammar input)).learn (other.news grammar input) := by
  have hsecond' := (h.extends_of_takes hstart htakes).denotes hsecond
  rw [(h.takes hstart htakes).1.chart_of_takes hstart htakes' hsecond',
    h.chart_of_takes hstart htakes hfirst]

/-- In every state of a run rounds commute. -/
theorem Invariant.commuting (h : Invariant grammar input start engine)
    (hstart : start < grammar.nonterminalCount) : engine.Commuting grammar input where
  exists_takes := by
    intro first second hfirst hsecond hne
    obtain ⟨middle, htakes⟩ := h.exists_takes hstart hfirst
    have hmiddle := (h.takes hstart htakes).1
    have hpending := h.mem_pending_of_takes hstart htakes hsecond hne
    obtain ⟨last, htakes'⟩ := hmiddle.exists_takes hstart hpending
    exact ⟨middle, last, htakes, htakes'⟩
  exists_renumbered := by
    intro first second middle last middle' last' hfirst hsecond hsecond' hfirst'
    obtain ⟨task, hdenotes⟩ := h.exists_denotes_of_takes hfirst
    obtain ⟨other, hdenotes'⟩ := h.exists_denotes_of_takes hsecond'
    have hmiddle := (h.takes hstart hfirst).1
    have hmiddle' := (h.takes hstart hsecond').1
    have hchart : last.chart = last'.chart := by
      rw [h.chart_of_takes_takes hstart hfirst hsecond hdenotes hdenotes',
        h.chart_of_takes_takes hstart hsecond' hfirst' hdenotes' hdenotes, Chart.learn_comm]
    obtain ⟨number, hrenumbered, hnumber⟩ :=
      (hmiddle.takes hstart hsecond).1.exists_renumbered (hmiddle'.takes hstart hfirst').1 hchart
    refine ⟨number, hrenumbered, fun node hlt => ?_⟩
    -- a call that had a number before has it on both ways
    obtain ⟨call, hfind⟩ := h.facts.graph.exists_find? hlt
    have hlast := (hmiddle.extends_of_takes hstart hsecond).find?_of_find?
      ((h.extends_of_takes hstart hfirst).find?_of_find? hfind)
    have hlast' := (hmiddle'.extends_of_takes hstart hfirst').find?_of_find?
      ((h.extends_of_takes hstart hsecond').find?_of_find? hfind)
    exact Option.some.inj ((hnumber hlast).symm.trans hlast')

end Engine

/-- In every state of every run, processing two pending descriptors one after the other comes to the
same in either order, but for the numbers of the calls that are new. -/
theorem Recognizer.commuting_throughout (recognizer : Recognizer) (input : Array τ) :
    recognizer.Throughout input (Engine.Commuting recognizer.grammar input) :=
  recognizer.throughout_of_invariant input fun _ h => h.commuting recognizer.start_lt

end ContextFree
