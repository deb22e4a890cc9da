import ContextFree.Proofs.Demand
import Mathlib.Data.Set.Insert

/-!
# The chart of a run

What a run has found out and what it has queued, told by calls and not by their numbers, is a
`Chart`: five sets. Numbers depend on the order of work; a chart does not, as will be seen.

Processing a task adds the same to every chart (`Task.news`) and then lets every caller go on from
every known end of its callee (`replays`). So `Chart.learn` does not ask whether the caller or the
end came first. Two properties of charts carry everything else:

- `chart ≤ Chart.exact`: nothing in the chart but what the derivations of the grammar justify. The
  exact chart takes in whatever its tasks tell (`news_le_exact`, `replays_exact`).
- `chart.Closed`: what the tasks done so far tell is in the chart, and no caller waits for an end
  that is known. If in a closed chart no task is left to be done, then everything justified is in it
  (`exact_le_of_closed`), by induction on derivations.
-/

namespace ContextFree

/-- A unit of work, told by call. -/
inductive Task where
  /-- Try every alternative of a call's nonterminal. -/
  | expand (call : Call)
  /-- Go on matching for a call, at an input position, from a slot. -/
  | resume (call : Call) (pos slot : Nat)

/-- The call that a task is for. -/
def Task.call : Task → Call
  | .expand call => call
  | .resume call _ _ => call

/-- A caller that goes on at slot `resume` when its callee is complete. -/
structure Edge where
  callee : Call
  caller : Call
  resume : Nat

/-- What a run knows and what it has queued. -/
structure Chart where
  calls : Set Call
  edges : Set Edge
  /-- Calls and where they can end. -/
  ends : Set (Call × Nat)
  /-- The tasks queued so far. -/
  queued : Set Task
  /-- The tasks that are done. -/
  done : Set Task

/-- The tasks of callers that go on from an end of their callee. -/
def replays (edges : Set Edge) (ends : Set (Call × Nat)) : Set Task :=
  {task | ∃ edge ∈ edges, ∃ stop, (edge.callee, stop) ∈ ends ∧
    task = .resume edge.caller stop edge.resume}

theorem replays_mono {edges edges' : Set Edge} {ends ends' : Set (Call × Nat)}
    (hedges : edges ⊆ edges') (hends : ends ⊆ ends') :
    replays edges ends ⊆ replays edges' ends' := by
  intro task htask
  obtain ⟨edge, hedge, stop, hstop, rfl⟩ := htask
  exact ⟨edge, hedges hedge, stop, hends hstop, rfl⟩

namespace Chart

/-- One chart has all that another has. -/
structure Le (chart other : Chart) : Prop where
  calls : chart.calls ⊆ other.calls
  edges : chart.edges ⊆ other.edges
  ends : chart.ends ⊆ other.ends
  queued : chart.queued ⊆ other.queued
  done : chart.done ⊆ other.done

instance : LE Chart :=
  ⟨Le⟩

theorem le_refl (chart : Chart) : chart ≤ chart :=
  ⟨.rfl, .rfl, .rfl, .rfl, .rfl⟩

theorem le_antisymm {chart other : Chart} (h : chart ≤ other) (h' : other ≤ chart) :
    chart = other := by
  obtain ⟨calls, edges, ends, queued, done⟩ := chart
  obtain ⟨calls', edges', ends', queued', done'⟩ := other
  simp only [mk.injEq]
  exact ⟨h.calls.antisymm h'.calls, h.edges.antisymm h'.edges, h.ends.antisymm h'.ends,
    h.queued.antisymm h'.queued, h.done.antisymm h'.done⟩

/-- The chart with nothing in it. -/
def empty : Chart :=
  ⟨∅, ∅, ∅, ∅, ∅⟩

/-- The chart at the start of a run: the root call is made and queued for expansion. -/
def root (start : Nat) : Chart :=
  { empty with calls := {⟨start, 0⟩}, queued := {.expand ⟨start, 0⟩} }

/-- The chart with news taken in: callers go on from the ends of their callees, whichever of the two
is new. -/
def learn (chart news : Chart) : Chart where
  calls := chart.calls ∪ news.calls
  edges := chart.edges ∪ news.edges
  ends := chart.ends ∪ news.ends
  queued := chart.queued ∪ news.queued ∪ replays (chart.edges ∪ news.edges) (chart.ends ∪ news.ends)
  done := chart.done ∪ news.done

theorem le_learn (chart news : Chart) : chart ≤ chart.learn news where
  calls := Set.subset_union_left
  edges := Set.subset_union_left
  ends := Set.subset_union_left
  queued := fun _ h => .inl (.inl h)
  done := Set.subset_union_left

theorem news_le_learn (chart news : Chart) : news ≤ chart.learn news where
  calls := Set.subset_union_right
  edges := Set.subset_union_right
  ends := Set.subset_union_right
  queued := fun _ h => .inl (.inr h)
  done := Set.subset_union_right

theorem le_trans {a b c : Chart} (h : a ≤ b) (h' : b ≤ c) : a ≤ c :=
  ⟨h.calls.trans h'.calls, h.edges.trans h'.edges, h.ends.trans h'.ends, h.queued.trans h'.queued,
    h.done.trans h'.done⟩

/-- What is learned stays below a chart that has its own replays. -/
theorem learn_le {chart news other : Chart} (h : chart ≤ other) (h' : news ≤ other)
    (hreplays : replays other.edges other.ends ⊆ other.queued) : chart.learn news ≤ other where
  calls := Set.union_subset h.calls h'.calls
  edges := Set.union_subset h.edges h'.edges
  ends := Set.union_subset h.ends h'.ends
  queued := Set.union_subset (Set.union_subset h.queued h'.queued)
    ((replays_mono (Set.union_subset h.edges h'.edges)
      (Set.union_subset h.ends h'.ends)).trans hreplays)
  done := Set.union_subset h.done h'.done

/-- It does not matter which of two news is learned first. -/
theorem learn_comm (chart news other : Chart) :
    (chart.learn news).learn other = (chart.learn other).learn news := by
  have hle : ∀ news other : Chart,
      (chart.learn news).learn other ≤ (chart.learn other).learn news := by
    intro news other
    have hother : chart.learn other ≤ (chart.learn other).learn news := le_learn _ _
    have hreplays : replays ((chart.learn other).learn news).edges
        ((chart.learn other).learn news).ends ⊆ ((chart.learn other).learn news).queued :=
      Set.subset_union_right
    apply learn_le _ (le_trans (news_le_learn _ _) hother) hreplays
    exact learn_le (le_trans (le_learn _ _) hother) (news_le_learn _ _) hreplays
  exact le_antisymm (hle news other) (hle other news)

end Chart

variable {τ : Type} [Token τ] (grammar : Grammar) (input : Array τ)

/-- What a call tells that has come to a slot at a position, by the symbol behind the dot: it ends
there, goes on after a terminal, or makes a call. -/
def resumptionNews (input : Array τ) (call : Call) (pos slot : Nat) : Option (Symbol Nat) → Chart
  | none => { Chart.empty with ends := {(call, pos)} }
  | some (.terminal text) =>
    { Chart.empty with
      queued := {task | ∃ token, input[pos]? = some token ∧ Token.spells token text = true ∧
        task = .resume call (pos + 1) (slot + 1)} }
  | some (.nonterminal callee) =>
    { Chart.empty with
      calls := {⟨callee, pos⟩}
      edges := {⟨⟨callee, pos⟩, call, slot + 1⟩}
      queued := {.expand ⟨callee, pos⟩} }

/-- What there is to tell once a task is done, whatever else is known. -/
def Task.news : Task → Chart
  | .expand call =>
    { Chart.empty with
      queued := {task | ∃ slot symbols, grammar.Dotted slot call.nonterminal [] symbols ∧
        task = .resume call call.start slot}
      done := {.expand call} }
  | .resume call pos slot =>
    { resumptionNews input call pos slot ((grammar.slot? slot).bind Slot.next) with
      done := {.resume call pos slot} }

/-- A call comes to a slot of its nonterminal at a position: the symbols in front of the dot match
from the start of the call to there. -/
def Reaches (call : Call) (pos slot : Nat) : Prop :=
  ∃ before after, grammar.Dotted slot call.nonterminal before after ∧
    Spans grammar input before call.start pos

/-- A demanded call goes on at a slot when another call, which it made there, is complete. -/
def Justified (start : Nat) (edge : Edge) : Prop :=
  Demanded grammar input start edge.caller ∧ ∃ slot before after,
    grammar.Dotted slot edge.caller.nonterminal before
      (.nonterminal edge.callee.nonterminal :: after) ∧
    edge.resume = slot + 1 ∧ Spans grammar input before edge.caller.start edge.callee.start

/-- The tasks that a run from a start symbol has reason to do. -/
def Due (start : Nat) : Task → Prop
  | .expand call => Demanded grammar input start call
  | .resume call pos slot => Demanded grammar input start call ∧ Reaches grammar input call pos slot

/-- The chart that holds what the derivations of the grammar justify, and nothing else. -/
def Chart.exact (start : Nat) : Chart where
  calls := {call | Demanded grammar input start call}
  edges := {edge | Justified grammar input start edge}
  ends := {fact | Demanded grammar input start fact.1 ∧
    Derives grammar input fact.1.nonterminal fact.1.start fact.2}
  queued := {task | Due grammar input start task}
  done := {task | Due grammar input start task}

variable {grammar input} {start : Nat}

/-! ## Nothing but what is justified -/

/-- A caller goes on from an end of its callee with one symbol more in front of the dot. -/
theorem Justified.reaches {edge : Edge} {stop : Nat} (h : Justified grammar input start edge)
    (hderives : Derives grammar input edge.callee.nonterminal edge.callee.start stop) :
    Reaches grammar input edge.caller stop edge.resume := by
  obtain ⟨-, slot, before, after, hdotted, hresume, hspans⟩ := h
  rw [hresume]
  exact ⟨before ++ [.nonterminal edge.callee.nonterminal], after, hdotted.advance,
    hspans.append (spans_nonterminal_iff.mpr hderives)⟩

/-- The exact chart has its own replays. -/
theorem replays_exact : replays (Chart.exact grammar input start).edges
    (Chart.exact grammar input start).ends ⊆ (Chart.exact grammar input start).queued := by
  intro task htask
  obtain ⟨edge, hedge, stop, hstop, rfl⟩ := htask
  exact ⟨hedge.1, hedge.reaches hstop.2⟩

theorem Grammar.Dotted.next_eq {slot id : Nat} {before after : Alternative Nat}
    (h : grammar.Dotted slot id before after) :
    (grammar.slot? slot).bind Slot.next = after.head? := by
  obtain ⟨alternative, -, hslot⟩ := h
  rw [hslot]
  rfl

/-- Whatever a due task tells is justified. -/
theorem news_le_exact {task : Task} (h : Due grammar input start task) :
    task.news grammar input ≤ Chart.exact grammar input start := by
  cases task with
  | expand call =>
    refine ⟨Set.empty_subset _, Set.empty_subset _, Set.empty_subset _, ?_, ?_⟩
    · intro task htask
      obtain ⟨slot, symbols, hdotted, rfl⟩ := htask
      exact ⟨h, [], symbols, hdotted, .nil⟩
    · intro task htask
      obtain rfl := htask
      exact h
  | resume call pos slot =>
    have hdone : {.resume call pos slot} ⊆ (Chart.exact grammar input start).done := by
      intro task htask
      obtain rfl := htask
      exact h
    obtain ⟨hdemanded, before, after, hdotted, hspans⟩ := h
    rw [Task.news, hdotted.next_eq]
    cases after with
    | nil =>
      have hderives : Derives grammar input call.nonterminal call.start pos :=
        ⟨before, by simpa using hdotted.mem_alternatives, hspans⟩
      refine ⟨Set.empty_subset _, Set.empty_subset _, ?_, Set.empty_subset _, hdone⟩
      intro fact hfact
      obtain rfl := hfact
      exact ⟨hdemanded, hderives⟩
    | cons symbol after =>
      cases symbol with
      | terminal text =>
        refine ⟨Set.empty_subset _, Set.empty_subset _, Set.empty_subset _, ?_, hdone⟩
        intro task htask
        obtain ⟨token, htoken, hspells, rfl⟩ := htask
        exact ⟨hdemanded, _, _, hdotted.advance,
          hspans.append (spans_terminal_iff.mpr ⟨token, htoken, hspells, rfl⟩)⟩
      | nonterminal callee =>
        have hcallee : Demanded grammar input start ⟨callee, pos⟩ :=
          .callee hdemanded hdotted.mem_alternatives hspans
        refine ⟨?_, ?_, Set.empty_subset _, ?_, hdone⟩
        · intro other hother
          obtain rfl := hother
          exact hcallee
        · intro edge hedge
          obtain rfl := hedge
          exact ⟨hdemanded, slot, before, after, hdotted, rfl, hspans⟩
        · intro task htask
          obtain rfl := htask
          exact hcallee

theorem root_le_exact : Chart.root start ≤ Chart.exact grammar input start := by
  refine ⟨?_, Set.empty_subset _, Set.empty_subset _, ?_, Set.empty_subset _⟩
  · intro call hcall
    obtain rfl := hcall
    exact .root
  · intro task htask
    obtain rfl := htask
    exact Demanded.root

/-! ## Everything that is justified -/

/-- What the tasks done so far tell is in the chart, and no caller waits for an end that is
known. -/
structure Chart.Closed (grammar : Grammar) (input : Array τ) (chart : Chart) : Prop where
  done_subset : chart.done ⊆ chart.queued
  expand_mem : ∀ call ∈ chart.calls, .expand call ∈ chart.queued
  replays_subset : replays chart.edges chart.ends ⊆ chart.queued
  news_le : ∀ task ∈ chart.done, task.news grammar input ≤ chart

theorem closed_root : (Chart.root start).Closed grammar input where
  done_subset := Set.empty_subset _
  expand_mem := by
    intro call hcall
    obtain rfl := hcall
    exact Set.mem_singleton _
  replays_subset := by
    intro task htask
    obtain ⟨edge, ⟨⟩, -⟩ := htask
  news_le := by
    intro task htask
    cases htask

theorem Task.done_news (task : Task) : (task.news grammar input).done = {task} := by
  cases task <;> rfl

/-- A call that a task makes is queued for expansion by the same task. -/
theorem Task.expand_mem_news {task : Task} {call : Call}
    (h : call ∈ (task.news grammar input).calls) :
    .expand call ∈ (task.news grammar input).queued := by
  cases task with
  | expand other => cases h
  | resume other pos slot =>
    rw [Task.news] at h ⊢
    cases hnext : (grammar.slot? slot).bind Slot.next with
    | none =>
      rw [hnext] at h
      cases h
    | some symbol =>
      rw [hnext] at h
      cases symbol with
      | terminal text => cases h
      | nonterminal callee =>
        obtain rfl := Set.mem_singleton_iff.mp h
        exact Set.mem_singleton _

/-- Doing a queued task keeps a chart closed. -/
theorem Chart.Closed.learn {chart : Chart} (h : chart.Closed grammar input) {task : Task}
    (hqueued : task ∈ chart.queued) :
    (chart.learn (task.news grammar input)).Closed grammar input where
  done_subset := by
    intro other hother
    rcases hother with hother | hother
    · exact (chart.le_learn _).queued (h.done_subset hother)
    · rw [Task.done_news, Set.mem_singleton_iff] at hother
      rw [hother]
      exact (chart.le_learn _).queued hqueued
  expand_mem := by
    intro call hcall
    rcases hcall with hcall | hcall
    · exact (chart.le_learn _).queued (h.expand_mem call hcall)
    · exact (chart.news_le_learn _).queued (Task.expand_mem_news hcall)
  replays_subset := Set.subset_union_right
  news_le := by
    intro other hother
    rcases hother with hother | hother
    · exact Chart.le_trans (h.news_le other hother) (chart.le_learn _)
    · rw [Task.done_news, Set.mem_singleton_iff] at hother
      rw [hother]
      exact chart.news_le_learn _

/-- Along symbols that match, a call goes on from slot to slot once nothing is left to be done. The
induction is on the match: where it goes through a call, the call's own match carries the callee
from its entry to its end, and the end carries the caller on. -/
theorem Chart.Closed.resume_mem {chart : Chart} (h : chart.Closed grammar input)
    (hdone : chart.queued ⊆ chart.done) {symbols : Alternative Nat} {i j : Nat}
    (hspans : Spans grammar input symbols i j) :
    ∀ {call : Call} {slot : Nat} {before after : Alternative Nat},
      grammar.Dotted slot call.nonterminal before (symbols ++ after) →
      .resume call i slot ∈ chart.queued →
      .resume call j (slot + symbols.length) ∈ chart.queued := by
  induction hspans with
  | nil =>
    intro call slot before after _ hmem
    exact hmem
  | @terminal text rest token i j htoken hspells _ ih =>
    intro call slot before after hdotted hmem
    have hnews := (h.news_le _ (hdone hmem)).queued
    rw [Task.news, hdotted.next_eq] at hnews
    have hnext := ih hdotted.advance (hnews ⟨token, htoken, hspells, rfl⟩)
    rwa [List.length_cons, Nat.add_comm rest.length 1, ← Nat.add_assoc]
  | @nonterminal id symbols rest i k j hsymbols _ _ ih ih' =>
    intro call slot before after hdotted hmem
    have hnews := h.news_le _ (hdone hmem)
    rw [Task.news, hdotted.next_eq] at hnews
    -- down into the callee, along one of its alternatives, and back by a replay of its end
    have hexpand : .expand ⟨id, i⟩ ∈ chart.queued := hnews.queued rfl
    have hedge : ⟨⟨id, i⟩, call, slot + 1⟩ ∈ chart.edges := hnews.edges rfl
    obtain ⟨entry, hentry⟩ := Grammar.exists_dotted_of_mem hsymbols
    have hstart : .resume ⟨id, i⟩ i entry ∈ chart.queued :=
      (h.news_le _ (hdone hexpand)).queued ⟨entry, symbols, hentry, rfl⟩
    have hwhole : grammar.Dotted entry id [] (symbols ++ []) := by rwa [List.append_nil]
    have hstop : .resume ⟨id, i⟩ k (entry + symbols.length) ∈ chart.queued := ih hwhole hstart
    have hends := (h.news_le _ (hdone hstop)).ends
    rw [Task.news, hentry.end_of_entry.next_eq] at hends
    have hresumed : .resume call k (slot + 1) ∈ chart.queued :=
      h.replays_subset ⟨_, hedge, k, hends rfl, rfl⟩
    have hnext := ih' hdotted.advance hresumed
    rwa [List.length_cons, Nat.add_comm rest.length 1, ← Nat.add_assoc]

section Quiescent

variable {chart : Chart} (h : chart.Closed grammar input) (hroot : ⟨start, 0⟩ ∈ chart.calls)
  (hdone : chart.queued ⊆ chart.done)
include h hdone

/-- A call that has been made comes to every slot that it can come to. -/
theorem Chart.Closed.resume_mem_of_reaches {call : Call} {pos slot : Nat}
    (hcall : call ∈ chart.calls) (hreaches : Reaches grammar input call pos slot) :
    .resume call pos slot ∈ chart.queued := by
  obtain ⟨before, after, hdotted, hspans⟩ := hreaches
  obtain ⟨entry, rfl, hentry⟩ := hdotted.exists_entry
  have hstart : .resume call call.start entry ∈ chart.queued :=
    (h.news_le _ (hdone (h.expand_mem call hcall))).queued ⟨entry, _, hentry, rfl⟩
  exact h.resume_mem hdone hspans hentry hstart

/-- A call that has been made ends wherever its nonterminal derives the input up to. -/
theorem Chart.Closed.ends_mem {call : Call} {stop : Nat} (hcall : call ∈ chart.calls)
    (hderives : Derives grammar input call.nonterminal call.start stop) :
    (call, stop) ∈ chart.ends := by
  obtain ⟨symbols, hsymbols, hspans⟩ := hderives
  obtain ⟨entry, hentry⟩ := Grammar.exists_dotted_of_mem hsymbols
  have hlast := hentry.end_of_entry
  have hmem := h.resume_mem_of_reaches hdone hcall ⟨symbols, [], hlast, hspans⟩
  have hends := (h.news_le _ (hdone hmem)).ends
  rw [Task.news, hlast.next_eq] at hends
  exact hends rfl

/-- A call that has been made makes every call that it comes to. -/
theorem Chart.Closed.callee_mem {call : Call} {before after : Alternative Nat} {slot id pos : Nat}
    (hcall : call ∈ chart.calls)
    (hdotted : grammar.Dotted slot call.nonterminal before (.nonterminal id :: after))
    (hspans : Spans grammar input before call.start pos) :
    ⟨id, pos⟩ ∈ chart.calls ∧ ⟨⟨id, pos⟩, call, slot + 1⟩ ∈ chart.edges := by
  have hmem := h.resume_mem_of_reaches hdone hcall ⟨before, _, hdotted, hspans⟩
  have hnews := h.news_le _ (hdone hmem)
  rw [Task.news, hdotted.next_eq] at hnews
  exact ⟨hnews.calls rfl, hnews.edges rfl⟩

include hroot

/-- Every demanded call has been made. -/
theorem Chart.Closed.calls_mem {call : Call} (hdemanded : Demanded grammar input start call) :
    call ∈ chart.calls := by
  induction hdemanded with
  | root => exact hroot
  | callee _ hmem hspans ih =>
    obtain ⟨entry, hentry⟩ := Grammar.exists_dotted_of_mem hmem
    have hdotted := hentry.advance_append
    exact (h.callee_mem hdone ih hdotted hspans).1

/-- Once nothing is left to be done, everything that is justified is in a closed chart. -/
theorem Chart.Closed.exact_le : Chart.exact grammar input start ≤ chart := by
  have hqueued : (Chart.exact grammar input start).queued ⊆ chart.queued := by
    intro task hdue
    cases task with
    | expand call => exact h.expand_mem call (h.calls_mem hroot hdone hdue)
    | resume call pos slot =>
      exact h.resume_mem_of_reaches hdone (h.calls_mem hroot hdone hdue.1) hdue.2
  refine ⟨fun call hcall => h.calls_mem hroot hdone hcall, ?_, ?_, hqueued, hqueued.trans hdone⟩
  · intro edge hedge
    obtain ⟨callee, caller, resume⟩ := edge
    obtain ⟨hdemanded, slot, before, after, hdotted, rfl, hspans⟩ := hedge
    exact (h.callee_mem hdone (h.calls_mem hroot hdone hdemanded) hdotted hspans).2
  · intro fact hfact
    obtain ⟨call, stop⟩ := fact
    obtain ⟨hdemanded, hderives⟩ := hfact
    exact h.ends_mem hdone (h.calls_mem hroot hdone hdemanded) hderives

end Quiescent

end ContextFree
