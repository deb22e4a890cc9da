import ContextFree.Proofs.Engine.Schedule
import ContextFree.Recognizer

/-!
# What a finished run knows

A run without a budget comes to an end, with nothing pending (`Recognizer.exists_execute`), and then
its tables hold what the derivations of the grammar justify, no more and no less. `Facts.Exact`
spells that out by number, as the tables are read: a node for each demanded call, and for each node
the ends of its call. The answer to the question whether the input is in the language is one such
entry.

The chart of a run says the same by call (`Engine.Invariant.chart_eq_exact`); here it is carried
over to the tables.
-/

namespace ContextFree

variable {τ : Type} [Token τ]

/-- The tables of a run hold what the derivations from a start symbol justify: each demanded call
has exactly one node and no other call has any, and where a call can end is recorded once, for every
call and not for the root alone. -/
structure Facts.Exact (grammar : Grammar) (input : Array τ) (start : Nat) (facts : Facts) :
    Prop where
  existsUnique_node : ∀ {call : Call}, Demanded grammar input start call →
    ∃! node : Nat, facts.graph.calls[node]? = some call
  demanded_of_node : ∀ {node : Nat} {call : Call}, facts.graph.calls[node]? = some call →
    Demanded grammar input start call
  has_iff_derives : ∀ {node : Nat} {call : Call}, facts.graph.calls[node]? = some call →
    ∀ stop, facts.completions.has node stop = true ↔
      Derives grammar input call.nonterminal call.start stop
  mem_endsOf_iff_derives : ∀ {node : Nat} {call : Call}, facts.graph.calls[node]? = some call →
    ∀ stop, stop ∈ facts.completions.endsOf node ↔
      Derives grammar input call.nonterminal call.start stop
  nodup_endsOf : ∀ node, (facts.completions.endsOf node).toList.Nodup
  node_lt_of_has : ∀ {node stop : Nat}, facts.completions.has node stop = true →
    node < facts.graph.nodeCount

variable {grammar : Grammar} {input : Array τ} {start : Nat} {engine : Engine}

namespace Engine

/-- With nothing pending, the calls that have a node are the demanded ones. -/
theorem Invariant.exists_find?_iff (h : Invariant grammar input start engine)
    (hpending : engine.worklist.pending.toList = []) {call : Call} :
    (∃ node, engine.facts.graph.find? call = some node) ↔ Demanded grammar input start call := by
  have hcalls := congrArg Chart.calls (h.chart_eq_exact hpending)
  exact Set.ext_iff.mp hcalls call

/-- With nothing pending, the ends recorded for a node are those that its call derives. -/
theorem Invariant.has_iff_derives (h : Invariant grammar input start engine)
    (hpending : engine.worklist.pending.toList = []) {call : Call} {node : Nat}
    (hfind : engine.facts.graph.find? call = some node) (stop : Nat) :
    engine.facts.completions.has node stop = true ↔
      Derives grammar input call.nonterminal call.start stop := by
  have hends := congrArg Chart.ends (h.chart_eq_exact hpending)
  have hiff := Set.ext_iff.mp hends (call, stop)
  constructor
  · intro hhas
    exact (hiff.mp ⟨node, hfind, hhas⟩).2
  · intro hderives
    have hdemanded := (h.exists_find?_iff hpending).mp ⟨node, hfind⟩
    obtain ⟨node', hfind', hhas⟩ := hiff.mpr ⟨hdemanded, hderives⟩
    rw [hfind, Option.some.injEq] at hfind'
    rwa [hfind']

/-- With nothing pending, the tables are exact. -/
theorem Invariant.facts_exact (h : Invariant grammar input start engine)
    (hpending : engine.worklist.pending.toList = []) : engine.facts.Exact grammar input start where
  existsUnique_node hdemanded := by
    obtain ⟨node, hfind⟩ := (h.exists_find?_iff hpending).mpr hdemanded
    refine ⟨node, h.facts.graph.find?_eq_some_iff.mp hfind, ?_⟩
    intro other hother
    rw [← h.facts.graph.find?_eq_some_iff, hfind, Option.some.injEq] at hother
    exact hother.symm
  demanded_of_node hcall :=
    (h.exists_find?_iff hpending).mp ⟨_, h.facts.graph.find?_eq_some_iff.mpr hcall⟩
  has_iff_derives hcall :=
    h.has_iff_derives hpending (h.facts.graph.find?_eq_some_iff.mpr hcall)
  mem_endsOf_iff_derives hcall stop :=
    (h.facts.completions.mem_endsOf_iff _ stop).trans
      (h.has_iff_derives hpending (h.facts.graph.find?_eq_some_iff.mpr hcall) stop)
  nodup_endsOf := h.facts.completions.nodup_endsOf
  node_lt_of_has := h.facts.node_lt_of_has

/-- A report says that the input is recognized just if the root call is known to end at its end. -/
theorem outcome_report_beq_recognized (engine : Engine) (root length : Nat) :
    ((engine.report root length).outcome == .recognized) =
      engine.facts.completions.has root length := by
  unfold report
  split
  · next hhas => rw [hhas]; rfl
  · next hhas =>
    rw [eq_false_of_ne_true hhas]
    split <;> rfl

end Engine

namespace Recognizer

/-- A start symbol that has a number makes a recognizer. -/
theorem make_of_idOf? {grammar : Grammar} {start : String} {id : Nat}
    (hid : grammar.idOf? start = some id) {hlt : id < grammar.nonterminalCount} {config : Config} :
    make grammar start config = .ok ⟨grammar, id, hlt, config⟩ := by
  unfold make
  split
  · next id' hid' =>
    obtain rfl := Option.some.inj (hid.symm.trans hid')
    rfl
  · next hnone => cases hid.symm.trans hnone

/-- A start symbol without a rule makes none. -/
theorem make_of_idOf?_eq_none {grammar : Grammar} {start : String} {config : Config}
    (hid : grammar.idOf? start = none) :
    make grammar start config = .error (.invalidStart start) := by
  unfold make
  split
  · next id hid' => cases hid.symm.trans hid'
  · rfl

variable (recognizer : Recognizer) (input : Array τ)

omit [Token τ] in
/-- A bound on the rounds that is below what is always enough is the budget. -/
theorem roundLimit_eq_or_workLimit_le (budget : Option Nat) :
    budget = some (recognizer.roundLimit input budget) ∨
      workLimit recognizer.grammar input.size ≤ recognizer.roundLimit input budget := by
  cases budget with
  | none => exact .inr (Nat.le_refl _)
  | some budget =>
    simp only [roundLimit, Option.some.injEq]
    omega

/-- A recognizer starts, with the invariant, and under every budget it comes to no fault: where it
stops is on the way of some run from its start, and there nothing is pending unless as many
descriptors as the budget allows have been processed. -/
theorem exists_schedules : ∃ first,
    Engine.start recognizer.grammar recognizer.config.order input.size recognizer.start =
      .ok (0, first) ∧
    Engine.Invariant recognizer.grammar input recognizer.start first ∧
    ∀ budget, ∃ engine, recognizer.execute input budget = .ok (0, engine) ∧
      Engine.Schedules recognizer.grammar input first engine ∧
      engine.worklist.processed ≤ recognizer.roundLimit input budget ∧
      (engine.worklist.pending.toList = [] ∨ budget = some engine.worklist.processed) := by
  obtain ⟨first, hfirst, hinvariant, hzero, -⟩ :=
    Engine.exists_start input recognizer.start_lt recognizer.config.order
  refine ⟨first, hfirst, hinvariant, fun budget => ?_⟩
  obtain ⟨engine, hdrain, hschedules, hle, hlast⟩ :=
    hinvariant.drain_within recognizer.start_lt (recognizer.roundLimit input budget)
  rw [hzero, Nat.zero_add] at hle hlast
  refine ⟨engine, by simp only [execute, hfirst, hdrain], hschedules, hle, ?_⟩
  rcases recognizer.roundLimit_eq_or_workLimit_le input budget with hbudget | hlimit
  · refine hlast.imp_right fun hprocessed => ?_
    rwa [hprocessed]
  · obtain ⟨engine', hdrain', -, hpending⟩ := hinvariant.drain recognizer.start_lt
      (recognizer.roundLimit input budget) (by omega)
    rw [hdrain, Except.ok.injEq] at hdrain'
    exact .inl (hdrain' ▸ hpending)

/-- A run without a budget comes to no fault and ends with nothing pending. -/
theorem exists_execute : ∃ engine, recognizer.execute input none = .ok (0, engine) ∧
    Engine.Invariant recognizer.grammar input recognizer.start engine ∧
    engine.worklist.pending.toList = [] := by
  obtain ⟨first, -, hinvariant, hruns⟩ := recognizer.exists_schedules input
  obtain ⟨engine, hexecute, hschedules, -, hlast⟩ := hruns none
  exact ⟨engine, hexecute, hinvariant.schedules recognizer.start_lt hschedules,
    hlast.resolve_right (Option.some_ne_none _).symm⟩

/-- The answer of a run without a budget is an entry of its tables. -/
theorem accepts_eq {engine : Engine} {root : Nat}
    (hexecute : recognizer.execute input none = .ok (root, engine)) :
    recognizer.accepts input = .ok (engine.facts.completions.has root input.size) := by
  simp only [accepts, hexecute, Engine.outcome_report_beq_recognized]

/-- An answer is given just if it is the right one: there is always an answer, and only one. -/
theorem accepts_eq_ok_iff {answer : Bool} : recognizer.accepts input = .ok answer ↔
    (answer = true ↔ Derives recognizer.grammar input recognizer.start 0 input.size) := by
  obtain ⟨engine, hexecute, h, hpending⟩ := recognizer.exists_execute input
  rw [recognizer.accepts_eq input hexecute, Except.ok.injEq,
    ← h.has_iff_derives hpending h.find?_root, eq_comm, Bool.eq_iff_iff]

/-- Recognition decides membership: a run without a budget ends with nothing left on the worklist,
and the answer is whether the start symbol derives the whole input. -/
theorem accepts_iff_derives : ∃ root engine answer,
    recognizer.execute input none = .ok (root, engine) ∧ engine.worklist.pop? = none ∧
    recognizer.accepts input = .ok answer ∧
    (answer = true ↔ Derives recognizer.grammar input recognizer.start 0 input.size) := by
  obtain ⟨engine, hexecute, h, hpending⟩ := recognizer.exists_execute input
  exact ⟨0, engine, _, hexecute, Worklist.pop?_eq_none_iff.mpr hpending,
    recognizer.accepts_eq input hexecute, h.has_iff_derives hpending h.find?_root input.size⟩

/-- After a run without a budget the tables are exact: they hold every demanded call and every end
of it, and nothing else. -/
theorem execute_exact : ∃ root engine,
    recognizer.execute input none = .ok (root, engine) ∧ engine.worklist.pop? = none ∧
    engine.facts.Exact recognizer.grammar input recognizer.start := by
  obtain ⟨engine, hexecute, h, hpending⟩ := recognizer.exists_execute input
  exact ⟨0, engine, hexecute, Worklist.pop?_eq_none_iff.mpr hpending, h.facts_exact hpending⟩

end Recognizer

end ContextFree
