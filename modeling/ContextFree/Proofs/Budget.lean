import ContextFree.Proofs.ScheduleIndependence

/-!
# A budget only cuts a run short

A run under a budget takes the same rounds as a run without one, and stops before the first that the
budget does not cover. So it stands somewhere on the way of the run without a budget
(`Engine.Invariant.schedules_of_drain`), or at its end if the budget covers all of it, and what it
knows there is true. `Report.Cut` spells out what that means for the report. The boundary is the
number of descriptors that the run without a budget processes: a budget of just that many is enough.
-/

namespace ContextFree

variable {τ : Type} [Token τ] {grammar : Grammar} {input : Array τ} {start : Nat}
  {engine engine' : Engine}

namespace Engine

/-- A run of fewer rounds stands on the way of a run of more. -/
theorem Invariant.schedules_of_drain (hstart : start < grammar.nonterminalCount) (fewer : Nat) :
    ∀ {more : Nat} {first : Engine}, Invariant grammar input start first → fewer ≤ more →
      first.drain grammar input fewer = .ok engine → first.drain grammar input more = .ok engine' →
      Schedules grammar input engine engine' := by
  induction fewer with
  | zero =>
    intro more first h _ hfewer hmore
    obtain rfl := Except.ok.inj hfewer
    obtain ⟨last, hdrain, hschedules, -⟩ := h.drain_within hstart more
    rw [hdrain, Except.ok.injEq] at hmore
    exact hmore ▸ hschedules
  | succ fewer ih =>
    intro more first h hle hfewer hmore
    obtain ⟨more, rfl⟩ := Nat.exists_eq_succ_of_ne_zero (Nat.ne_zero_of_lt hle)
    rcases h.advance hstart with ⟨-, hadvance⟩ | ⟨round, next, hadvance, htakes⟩
    · simp only [Engine.drain, hadvance, Except.ok.injEq] at hfewer hmore
      rw [← hfewer, ← hmore]
      exact .refl
    · simp only [Engine.drain, hadvance] at hfewer hmore
      exact ih (h.takes hstart htakes).1 (Nat.le_of_succ_le_succ hle) hfewer hmore

/-- The outcome of a report is that the input is recognized just if the root call is known to end at
its end. -/
theorem outcome_eq_recognized_iff (engine : Engine) (root length : Nat) :
    (engine.report root length).outcome = .recognized ↔
      engine.facts.completions.has root length = true := by
  rw [← outcome_report_beq_recognized, beq_iff_eq]

/-- While anything is pending, nothing is rejected. -/
theorem outcome_of_pending_ne_nil (hpending : engine.worklist.pending.toList ≠ [])
    (root length : Nat) :
    (engine.report root length).outcome = .recognized ∨
      (engine.report root length).outcome = .inconclusive := by
  have hempty : engine.worklist.pending.isEmpty = false :=
    eq_false_of_ne_true fun h => hpending (Deque.isEmpty_eq_true_iff.mp h)
  simp only [report, hempty, Bool.false_eq_true, if_false]
  split
  · exact .inl rfl
  · exact .inr rfl

/-- Whatever a run recognizes before it is finished is derived. -/
theorem Invariant.derives_of_has (h : Invariant grammar input start engine) {stop : Nat}
    (hhas : engine.facts.completions.has 0 stop = true) : Derives grammar input start 0 stop := by
  have hmem : ((⟨start, 0⟩, stop) : Call × Nat) ∈ engine.chart.ends := ⟨0, h.find?_root, hhas⟩
  exact (h.le_exact.ends hmem).2

/-- An end of the root call that is known stays known. -/
theorem Invariant.has_of_schedules (h : Invariant grammar input start engine)
    (hstart : start < grammar.nonterminalCount)
    (hschedules : Schedules grammar input engine engine') {stop : Nat}
    (hhas : engine.facts.completions.has 0 stop = true) :
    engine'.facts.completions.has 0 stop = true := by
  have hmem : ((⟨start, 0⟩, stop) : Call × Nat) ∈ engine.chart.ends := ⟨0, h.find?_root, hhas⟩
  obtain ⟨node, hfind, hhas'⟩ := (h.chart_le hstart hschedules).ends hmem
  rw [(h.schedules hstart hschedules).find?_root, Option.some.injEq] at hfind
  rwa [hfind]

end Engine

/-- What the report of a run under a budget is, given that of the run without one: the same if the
budget covers all descriptors, and otherwise that of a run in which just so many were processed. -/
structure Report.Cut (budget : Nat) (full cut : Report) : Prop where
  eq_of_le : full.stats.descriptors ≤ budget → cut = full
  descriptors_eq : budget < full.stats.descriptors → cut.stats.descriptors = budget
  stats_le : cut.stats ≤ full.stats
  outcome_of_lt : budget < full.stats.descriptors →
    cut.outcome = .recognized ∧ full.outcome = .recognized ∨ cut.outcome = .inconclusive
  lt_of_inconclusive : cut.outcome = .inconclusive → budget < full.stats.descriptors

namespace Recognizer

variable (recognizer : Recognizer) (input)

/-- A run under any budget comes to no fault. It ends with nothing pending unless it has processed as
many descriptors as it may. -/
theorem exists_execute_within (budget : Option Nat) :
    ∃ engine, recognizer.execute input budget = .ok (0, engine) ∧
      Engine.Invariant recognizer.grammar input recognizer.start engine ∧
      engine.worklist.processed ≤ recognizer.roundLimit input budget ∧
      (engine.worklist.pending.toList = [] ∨ budget = some engine.worklist.processed) := by
  obtain ⟨first, -, hinvariant, hruns⟩ := recognizer.exists_schedules input
  obtain ⟨engine, hexecute, hschedules, hlimit⟩ := hruns budget
  exact ⟨engine, hexecute, hinvariant.schedules recognizer.start_lt hschedules, hlimit⟩

variable {recognizer input} {budget budget' : Option Nat}

/-- A run that may take fewer rounds stands on the way of a run that may take more. -/
theorem schedules_of_roundLimit_le {root root' : Nat}
    (hle : recognizer.roundLimit input budget ≤ recognizer.roundLimit input budget')
    (hexecute : recognizer.execute input budget = .ok (root, engine))
    (hexecute' : recognizer.execute input budget' = .ok (root', engine')) :
    Engine.Schedules recognizer.grammar input engine engine' := by
  obtain ⟨first, hfirst, hinvariant, -, -⟩ :=
    Engine.exists_start input recognizer.start_lt recognizer.config.order
  obtain ⟨last, hdrain, -⟩ :=
    hinvariant.drain_within recognizer.start_lt (recognizer.roundLimit input budget)
  obtain ⟨last', hdrain', -⟩ :=
    hinvariant.drain_within recognizer.start_lt (recognizer.roundLimit input budget')
  simp only [execute, hfirst, hdrain, Except.ok.injEq, Prod.mk.injEq] at hexecute
  simp only [execute, hfirst, hdrain', Except.ok.injEq, Prod.mk.injEq] at hexecute'
  obtain ⟨-, rfl⟩ := hexecute
  obtain ⟨-, rfl⟩ := hexecute'
  exact hinvariant.schedules_of_drain recognizer.start_lt _ hle hdrain hdrain'

omit [Token τ] in
/-- More budget never means fewer rounds. -/
theorem roundLimit_mono {budget budget' : Nat} (hle : budget ≤ budget') :
    recognizer.roundLimit input (some budget) ≤ recognizer.roundLimit input (some budget') :=
  min_le_min_right _ hle

omit [Token τ] in
/-- A budget never means more rounds. -/
theorem roundLimit_le_none (budget : Option Nat) :
    recognizer.roundLimit input budget ≤ recognizer.roundLimit input none := by
  cases budget with
  | none => exact Nat.le_refl _
  | some budget => exact min_le_right _ _

/-- The report of a run under a budget is that of the run without one, cut short. -/
theorem cut_report {budget root root' : Nat} {cut full : Engine}
    (hcut : recognizer.execute input (some budget) = .ok (root, cut))
    (hfull : recognizer.execute input none = .ok (root', full)) :
    Report.Cut budget (full.report 0 input.size) (cut.report 0 input.size) := by
  obtain ⟨cut', hexecute, h, hle, hlast⟩ := recognizer.exists_execute_within input (some budget)
  rw [hcut, Except.ok.injEq, Prod.mk.injEq] at hexecute
  obtain ⟨rfl, rfl⟩ := hexecute
  obtain ⟨full', hexecute', h', hpending'⟩ := recognizer.exists_execute input
  rw [hfull, Except.ok.injEq, Prod.mk.injEq] at hexecute'
  obtain ⟨rfl, rfl⟩ := hexecute'
  have hschedules := schedules_of_roundLimit_le (roundLimit_le_none _) hcut hfull
  have hspent : cut.worklist.processed ≤ budget := Nat.le_trans hle (min_le_left _ _)
  have hused : cut.worklist.pending.toList = [] ∨ cut.worklist.processed = budget :=
    hlast.imp_right fun heq => (Option.some.inj heq).symm
  have heq : full.worklist.processed ≤ budget → full = cut := by
    intro hle
    rcases hused with hnil | hbudget
    · exact Engine.eq_of_pending_eq_nil hnil hschedules
    · exact h.eq_of_processed_le recognizer.start_lt hschedules (hbudget ▸ hle)
  have hne : budget < full.worklist.processed → cut.worklist.pending.toList ≠ [] := by
    intro hlt hnil
    rw [Engine.eq_of_pending_eq_nil hnil hschedules] at hlt
    exact Nat.not_lt_of_le hspent hlt
  refine ⟨fun hle => by rw [heq hle], fun hlt => hused.resolve_left (hne hlt),
    h.stats_le h' (h.chart_le recognizer.start_lt hschedules) _ _, ?_, ?_⟩
  · intro hlt
    rcases Engine.outcome_of_pending_ne_nil (hne hlt) 0 input.size with hrecognized | hinconclusive
    · refine .inl ⟨hrecognized, ?_⟩
      rw [Engine.outcome_eq_recognized_iff] at hrecognized ⊢
      exact h.has_of_schedules recognizer.start_lt hschedules hrecognized
    · exact .inr hinconclusive
  · intro hinconclusive
    by_contra hle
    classical
    rw [← heq (Nat.le_of_not_lt hle), h'.outcome_eq hpending'] at hinconclusive
    split at hinconclusive <;> cases hinconclusive

/-- What is recognized under a budget is derived. -/
theorem derives_of_recognized {root : Nat} (hexecute : recognizer.execute input budget =
    .ok (root, engine)) (hrecognized : (engine.report root input.size).outcome = .recognized) :
    Derives recognizer.grammar input recognizer.start 0 input.size := by
  obtain ⟨engine', hexecute', h, -⟩ := recognizer.exists_execute_within input budget
  rw [hexecute, Except.ok.injEq, Prod.mk.injEq] at hexecute'
  obtain ⟨rfl, rfl⟩ := hexecute'
  exact h.derives_of_has ((Engine.outcome_eq_recognized_iff _ _ _).mp hrecognized)

variable (recognizer input)

/-- A run comes to no fault, what it reports is true, and it is conclusive unless there is a budget. -/
theorem exists_run : ∃ report, recognizer.run input = .ok report ∧
    (report.outcome = .recognized →
      Derives recognizer.grammar input recognizer.start 0 input.size) ∧
    (report.outcome = .rejected →
      ¬ Derives recognizer.grammar input recognizer.start 0 input.size) ∧
    (recognizer.config.budget = none → report.outcome ≠ .inconclusive) := by
  classical
  obtain ⟨engine, hexecute, h, -, hlast⟩ :=
    recognizer.exists_execute_within input recognizer.config.budget
  refine ⟨engine.report 0 input.size, by simp only [run, hexecute],
    derives_of_recognized hexecute, fun hrejected => ?_, fun hnone => ?_⟩
  · have hpending : engine.worklist.pending.toList = [] := by
      by_contra hne
      rcases Engine.outcome_of_pending_ne_nil hne 0 input.size with hother | hother <;>
        cases hrejected.symm.trans hother
    intro hderives
    rw [h.outcome_eq hpending, if_pos hderives] at hrejected
    cases hrejected
  · have hpending := hlast.resolve_right fun heq => Option.some_ne_none _ (heq.symm.trans hnone)
    rw [h.outcome_eq hpending]
    split <;> exact Outcome.noConfusion

/-- A budget only cuts a run short. A run without a budget and runs under all budgets come to no
fault; the reports under a budget are that of the run without one, cut at the budget; what they say
of the input is true; and what is recognized under one budget is recognized under every larger one. -/
theorem exists_report_cut : ∃ full : Report,
    { recognizer with config.budget := none }.run input = .ok full ∧
    ∀ budget, ∃ cut, { recognizer with config.budget := some budget }.run input = .ok cut ∧
      Report.Cut budget full cut ∧
      (cut.outcome = .recognized →
        Derives recognizer.grammar input recognizer.start 0 input.size) ∧
      (cut.outcome = .rejected →
        ¬ Derives recognizer.grammar input recognizer.start 0 input.size) ∧
      ∀ budget' later, budget ≤ budget' →
        { recognizer with config.budget := some budget' }.run input = .ok later →
        cut.outcome = .recognized → later.outcome = .recognized := by
  have hrun : ∀ {budget engine}, recognizer.execute input budget = .ok (0, engine) →
      { recognizer with config.budget := budget }.run input = .ok (engine.report 0 input.size) := by
    intro budget engine hexecute
    have hsame : { recognizer with config.budget := budget }.execute input budget =
        .ok (0, engine) := hexecute
    simp only [run, hsame]
  obtain ⟨full, hfull, hfinished, hpending⟩ := recognizer.exists_execute input
  refine ⟨full.report 0 input.size, hrun hfull, fun budget => ?_⟩
  obtain ⟨cut, hcut, h, -⟩ := recognizer.exists_execute_within input (some budget)
  have hreport := cut_report hcut hfull
  refine ⟨cut.report 0 input.size, hrun hcut, hreport, derives_of_recognized hcut, ?_, ?_⟩
  · intro hrejected hderives
    -- a rejection is never cut short, so it is that of the finished run
    have hle : full.worklist.processed ≤ budget := by
      by_contra hlt
      rcases hreport.outcome_of_lt (Nat.lt_of_not_le hlt) with ⟨hother, -⟩ | hother <;>
        cases hrejected.symm.trans hother
    classical
    rw [hreport.eq_of_le hle, hfinished.outcome_eq hpending, if_pos hderives] at hrejected
    cases hrejected
  · intro budget' later hle hlater hrecognized
    obtain ⟨last, hlast, -⟩ := recognizer.exists_execute_within input (some budget')
    rw [hrun hlast, Except.ok.injEq] at hlater
    subst hlater
    rw [Engine.outcome_eq_recognized_iff] at hrecognized ⊢
    exact h.has_of_schedules recognizer.start_lt
      (schedules_of_roundLimit_le (roundLimit_mono hle) hcut hlast) hrecognized

end Recognizer

end ContextFree
