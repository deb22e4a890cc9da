import ContextFree.CommandLine.Run
import ContextFree.Proofs.Budget
import ContextFree.Proofs.Descent.Agreement
import ContextFree.Proofs.Results

/-!
# What the status of a check certifies

A case is correct if it expects its word to be in the language just when it is. What is found for a
case is true by either method and under any budget (`checkCases_cases`), so a case that passes is
correct, and a correct case passes unless nothing was found (`CaseResult.Truthful.passed_iff`). From
there to the status there is only the count of the cases that passed.

So status 0 certifies all cases of the file, and it is given whenever they are all correct and there
is nothing that keeps an answer from being found: a budget, or left recursion where the method is
top-down (`check_exact`).
-/

namespace ContextFree

/-- A case expects its word to be in the language of a nonterminal just when it is. -/
def Case.Correct (case : Case) (grammar : Grammar) (start : Nat) : Prop :=
  case.expected = true ↔
    Derives grammar (characters case.word) start 0 (characters case.word).size

/-- What was found for a case is true, as far as something was found. -/
structure CaseResult.Truthful (result : CaseResult) (grammar : Grammar) (start : Nat) : Prop where
  of_recognized : result.outcome = .recognized →
    Derives grammar (characters result.case.word) start 0 (characters result.case.word).size
  of_rejected : result.outcome = .rejected →
    ¬ Derives grammar (characters result.case.word) start 0 (characters result.case.word).size

/-- What checking a case comes to. -/
structure Case.Checked (grammar : Grammar) (start : Nat) (method : Method) (config : Config)
    (case : Case) (result : CaseResult) : Prop where
  case_eq : result.case = case
  truthful : result.Truthful grammar start
  conclusive : method = .callGraph ∧ config.budget = none ∨ method = .topDown →
    result.outcome ≠ .inconclusive
  /-- Through the graph of calls the outcome is that of a run on the word. -/
  outcome_eq : method = .callGraph → ∀ hlt report,
    Recognizer.run ⟨grammar, start, hlt, config⟩ (characters case.word) = .ok report →
    result.outcome = report.outcome

variable {grammar : Grammar} {start : String} {id : Nat} {cases : List Case} {config : Config}
  {method : Method}

/-- A case passes just if it is correct and something was found. -/
theorem CaseResult.Truthful.passed_iff {result : CaseResult} (h : result.Truthful grammar id) :
    result.passed = true ↔ result.case.Correct grammar id ∧ result.outcome ≠ .inconclusive := by
  unfold passed Case.Correct
  cases houtcome : result.outcome with
  | recognized => simp [h.of_recognized houtcome]
  | rejected => simp [h.of_rejected houtcome]
  | inconclusive => simp

theorem Summary.allPassed_iff {summary : Summary} :
    summary.allPassed = true ↔ ∀ result ∈ summary.results, result.passed = true := by
  rw [allPassed, passed, beq_iff_eq, List.countP_eq_length]

/-- All cases pass just if all are correct and something was found for each. -/
theorem Summary.allPassed_iff_correct {summary : Summary}
    (h : List.Forall₂ (Case.Checked grammar id method config) cases summary.results) :
    summary.allPassed = true ↔ (∀ case ∈ cases, case.Correct grammar id) ∧
      ∀ result ∈ summary.results, result.outcome ≠ .inconclusive := by
  rw [allPassed_iff]
  constructor
  · intro hpassed
    constructor
    · intro case hcase
      obtain ⟨result, hresult, hchecked⟩ := exists_of_mem_left h hcase
      exact hchecked.case_eq ▸ (hchecked.truthful.passed_iff.mp (hpassed result hresult)).1
    · intro result hresult
      obtain ⟨case, -, hchecked⟩ := exists_of_mem_right h hresult
      exact (hchecked.truthful.passed_iff.mp (hpassed result hresult)).2
  · rintro ⟨hcorrect, hconclusive⟩ result hresult
    obtain ⟨case, hcase, hchecked⟩ := exists_of_mem_right h hresult
    have hcase' := hcorrect case hcase
    rw [← hchecked.case_eq] at hcase'
    exact hchecked.truthful.passed_iff.mpr ⟨hcase', hconclusive result hresult⟩

/-! ## Both methods -/

theorem checked_of_run (hlt : id < grammar.nonterminalCount) (config : Config) (case : Case) :
    ∃ result, case.checkWith ⟨grammar, id, hlt, config⟩ = .ok result ∧
      Case.Checked grammar id .callGraph config case result := by
  obtain ⟨report, hrun, hrecognized, hrejected, hconclusive⟩ :=
    Recognizer.exists_run (characters case.word) ⟨grammar, id, hlt, config⟩
  refine ⟨⟨case, report.outcome⟩, by rw [Case.checkWith, hrun]; rfl, rfl,
    ⟨hrecognized, hrejected⟩, fun h => hconclusive (h.resolve_right Method.noConfusion).2, ?_⟩
  intro _ hlt' other hother
  rw [hrun, Except.ok.injEq] at hother
  exact congrArg Report.outcome hother

/-- Through the graph of calls every case is checked. -/
theorem checkCases_callGraph (hid : grammar.idOf? start = some id) (cases : List Case)
    (config : Config) : ∃ summary, checkCases grammar start cases .callGraph config = .ok summary ∧
      List.Forall₂ (Case.Checked grammar id .callGraph config) cases summary.results := by
  have hlt := grammar.idOf?_lt hid
  obtain ⟨results, hresults⟩ : ∃ results, List.Forall₂ (fun case result =>
      case.checkWith ⟨grammar, id, hlt, config⟩ = .ok result ∧
        Case.Checked grammar id .callGraph config case result) cases results :=
    exists_forall₂ fun case _ => checked_of_run hlt config case
  have hmapM := mapM_eq_ok_iff.mpr (hresults.imp fun _ _ h => h.1)
  refine ⟨⟨results⟩, ?_, hresults.imp fun _ _ h => h.2⟩
  have hmake : Recognizer.make grammar start config = .ok ⟨grammar, id, hlt, config⟩ :=
    Recognizer.make_of_idOf? hid
  simp only [checkCases, hmake, hmapM]

theorem checked_topDown (topDown : TopDown) (config : Config) (case : Case) :
    Case.Checked topDown.grammar topDown.start .topDown config case
      (case.checkTopDown topDown) := by
  have haccepts := topDown.accepts_eq_true_iff (characters case.word)
  unfold Case.checkTopDown
  split
  · next hanswer =>
    exact ⟨rfl, ⟨fun _ => haccepts.mp hanswer, Outcome.noConfusion⟩,
      fun _ => Outcome.noConfusion, Method.noConfusion⟩
  · next hanswer =>
    exact ⟨rfl, ⟨Outcome.noConfusion, fun _ hderives => hanswer (haccepts.mpr hderives)⟩,
      fun _ => Outcome.noConfusion, Method.noConfusion⟩

/-- Top-down every case is checked, unless the grammar is left recursive. -/
theorem checkCases_topDown (hid : grammar.idOf? start = some id)
    (hnone : ∀ other, ¬ grammar.LeftRecursive other) (cases : List Case) (config : Config) :
    ∃ summary, checkCases grammar start cases .topDown config = .ok summary ∧
      List.Forall₂ (Case.Checked grammar id .topDown config) cases summary.results := by
  let topDown : TopDown :=
    ⟨grammar, id, grammar.idOf?_lt hid, Analysis.leftRecursive?_eq_none_iff.mpr hnone⟩
  have hmake : TopDown.make grammar start = .ok topDown := TopDown.make_eq_ok_iff.mpr ⟨rfl, hid⟩
  refine ⟨⟨cases.map (Case.checkTopDown topDown)⟩, by simp only [checkCases, hmake], ?_⟩
  rw [List.forall₂_map_right_iff, List.forall₂_same]
  exact fun case _ => checked_topDown topDown config case

/-- What checking cases comes to: an error that is no fault, where the start symbol has no rule or
the method is not for the grammar, and otherwise a result for each case. -/
theorem checkCases_cases (grammar : Grammar) (start : String) (cases : List Case) (method : Method)
    (config : Config) :
    (∃ error, checkCases grammar start cases method config = .error error ∧
      (∀ cause, error ≠ .fault cause) ∧
      (grammar.idOf? start = none ∨ method = .topDown ∧ ∃ id, grammar.LeftRecursive id)) ∨
    ∃ id summary, grammar.idOf? start = some id ∧
      checkCases grammar start cases method config = .ok summary ∧
      (method = .topDown → ∀ other, ¬ grammar.LeftRecursive other) ∧
      List.Forall₂ (Case.Checked grammar id method config) cases summary.results := by
  cases hid : grammar.idOf? start with
  | none =>
    cases method with
    | callGraph =>
      exact .inl ⟨_, by rw [checkCases, Recognizer.make_of_idOf?_eq_none hid],
        fun _ => CheckError.noConfusion, .inl rfl⟩
    | topDown =>
      exact .inl ⟨_, by rw [checkCases, TopDown.make_of_idOf?_eq_none hid],
        fun _ => CheckError.noConfusion, .inl rfl⟩
  | some id =>
    cases method with
    | callGraph =>
      obtain ⟨summary, hcheck, hresults⟩ := checkCases_callGraph hid cases config
      exact .inr ⟨id, summary, rfl, hcheck, nofun, hresults⟩
    | topDown =>
      cases hrecursive : Analysis.leftRecursive? grammar with
      | none =>
        have hnone := Analysis.leftRecursive?_eq_none_iff.mp hrecursive
        obtain ⟨summary, hcheck, hresults⟩ := checkCases_topDown hid hnone cases config
        exact .inr ⟨id, summary, rfl, hcheck, fun _ => hnone, hresults⟩
      | some name =>
        refine .inl ⟨_, by rw [checkCases, TopDown.make_of_leftRecursive? hid hrecursive],
          fun _ => CheckError.noConfusion, .inr ⟨rfl, ?_⟩⟩
        by_contra hnone
        rw [Analysis.leftRecursive?_eq_none_iff.mpr (not_exists.mp hnone)] at hrecursive
        cases hrecursive

end ContextFree

namespace ContextFree.CommandLine

/-- What the status of a check tells. -/
structure ChecksExactly (path : String) (options : RunOptions)
    (content : Except ReadFault ByteArray) (status : Nat) : Prop where
  status_eq : status = 0 ∨ status = 1
  /-- Status 0 says that the file is in order, that the start symbol has a rule and that all cases
  are correct. -/
  certified : status = 0 → ∃ file id, CaseFile.ofFile path content = .ok file ∧
    file.grammar.idOf? (options.start.getD file.grammar.startSymbol) = some id ∧
    ∀ case ∈ file.cases, case.Correct file.grammar id
  /-- It is given to all files that it can be given to, through the graph of calls if there is no
  budget, and top-down if there is no left recursion. -/
  complete : ∀ file id, CaseFile.ofFile path content = .ok file →
    file.grammar.idOf? (options.start.getD file.grammar.startSymbol) = some id →
    (∀ case ∈ file.cases, case.Correct file.grammar id) →
    options.method = .callGraph ∧ options.budget = none ∨
      options.method = .topDown ∧ (∀ other, ¬ file.grammar.LeftRecursive other) →
    status = 0
  leftRecursive : ∀ file id, CaseFile.ofFile path content = .ok file →
    options.method = .topDown → file.grammar.LeftRecursive id → status = 1
  inconclusive : ∀ file, CaseFile.ofFile path content = .ok file → options.method = .callGraph →
    ∀ case ∈ file.cases, ∀ recognizer report,
      Recognizer.make file.grammar (options.start.getD file.grammar.startSymbol) options.config =
        .ok recognizer →
      recognizer.run (characters case.word) = .ok report → report.outcome = .inconclusive →
      status = 1

variable {path : String} {options : RunOptions} {content : Except ReadFault ByteArray}

theorem status_runCheck_of_summary {file : CaseFile} {summary : Summary}
    (hfile : CaseFile.ofFile path content = .ok file)
    (hcheck : checkCases file.grammar (options.start.getD file.grammar.startSymbol) file.cases
      options.method options.config = .ok summary) :
    (runCheck path options content).status = if summary.allPassed then 0 else 1 := by
  simp only [runCheck, hfile, hcheck]

/-- Every error of the file or of its grammar ends in failure. -/
theorem status_runCheck_of_error {file : CaseFile} {error : CheckError}
    (hfile : CaseFile.ofFile path content = .ok file)
    (hcheck : checkCases file.grammar (options.start.getD file.grammar.startSymbol) file.cases
      options.method options.config = .error error) (hfault : ∀ cause, error ≠ .fault cause) :
    (runCheck path options content).status = 1 := by
  simp only [runCheck, hfile, hcheck]
  cases error with
  | fault cause => exact absurd rfl (hfault cause)
  | _ => rfl

theorem check_of_invalid_file {errors : List (Located CaseError)}
    (hfile : CaseFile.ofFile path content = .error errors) :
    ChecksExactly path options content 1 where
  status_eq := .inr rfl
  certified h := absurd h Nat.one_ne_zero
  complete file _ hfile' := by cases hfile.symm.trans hfile'
  leftRecursive _ _ _ _ _ := rfl
  inconclusive _ _ _ _ _ _ _ _ _ _ := rfl

theorem check_of_error {file : CaseFile} (hfile : CaseFile.ofFile path content = .ok file)
    (hwhy : file.grammar.idOf? (options.start.getD file.grammar.startSymbol) = none ∨
      options.method = .topDown ∧ ∃ id, file.grammar.LeftRecursive id) :
    ChecksExactly path options content 1 where
  status_eq := .inr rfl
  certified h := absurd h Nat.one_ne_zero
  complete file' id hfile' hid _ hway := by
    obtain rfl := Except.ok.inj (hfile.symm.trans hfile')
    rcases hwhy with hnone | ⟨hmethod, other, hother⟩
    · cases hid.symm.trans hnone
    · rcases hway with ⟨hmethod', -⟩ | ⟨-, hnone⟩
      · cases hmethod.symm.trans hmethod'
      · exact absurd hother (hnone other)
  leftRecursive _ _ _ _ _ := rfl
  inconclusive _ _ _ _ _ _ _ _ _ _ := rfl

theorem check_of_results {file : CaseFile} {id : Nat} {summary : Summary}
    (hfile : CaseFile.ofFile path content = .ok file)
    (hid : file.grammar.idOf? (options.start.getD file.grammar.startSymbol) = some id)
    (hnone : options.method = .topDown → ∀ other, ¬ file.grammar.LeftRecursive other)
    (hresults : List.Forall₂ (Case.Checked file.grammar id options.method options.config)
      file.cases summary.results) :
    ChecksExactly path options content (if summary.allPassed then 0 else 1) where
  status_eq := by split <;> simp
  certified h := by
    have hpassed : summary.allPassed = true := by
      by_contra hnot
      rw [if_neg hnot] at h
      cases h
    exact ⟨file, id, hfile, hid, ((Summary.allPassed_iff_correct hresults).mp hpassed).1⟩
  complete file' id' hfile' hid' hcorrect hway := by
    obtain rfl := Except.ok.inj (hfile.symm.trans hfile')
    obtain rfl := Option.some.inj (hid.symm.trans hid')
    refine if_pos ((Summary.allPassed_iff_correct hresults).mpr ⟨hcorrect, fun result hresult => ?_⟩)
    obtain ⟨case, -, hchecked⟩ := exists_of_mem_right hresults hresult
    exact hchecked.conclusive (hway.imp_right And.left)
  leftRecursive file' other hfile' hmethod hother := by
    obtain rfl := Except.ok.inj (hfile.symm.trans hfile')
    exact absurd hother (hnone hmethod other)
  inconclusive file' hfile' hmethod case hcase recognizer report hmake hrun houtcome := by
    obtain rfl := Except.ok.inj (hfile.symm.trans hfile')
    have hmade : Recognizer.make file.grammar _ options.config =
        .ok ⟨file.grammar, id, file.grammar.idOf?_lt hid, options.config⟩ :=
      Recognizer.make_of_idOf? hid
    obtain rfl := Except.ok.inj (hmade.symm.trans hmake)
    obtain ⟨result, hresult, hchecked⟩ := exists_of_mem_left hresults hcase
    refine if_neg fun hpassed => ?_
    have hconclusive := ((Summary.allPassed_iff_correct hresults).mp hpassed).2 result hresult
    exact hconclusive ((hchecked.outcome_eq hmethod _ _ hrun).trans houtcome)

/-- Any check tells exactly that. -/
theorem check_exact (path : String) (options : RunOptions) (content : Except ReadFault ByteArray)
    (source : RandomSource) :
    ChecksExactly path options content
      ((Command.check path options).run content source).status := by
  show ChecksExactly path options content (runCheck path options content).status
  cases hfile : CaseFile.ofFile path content with
  | error errors =>
    have hstatus : (runCheck path options content).status = 1 := by
      simp only [runCheck, hfile]
      rfl
    exact hstatus ▸ check_of_invalid_file hfile
  | ok file =>
    rcases checkCases_cases file.grammar (options.start.getD file.grammar.startSymbol) file.cases
      options.method options.config with ⟨error, hcheck, hfault, hwhy⟩ |
        ⟨id, summary, hid, hcheck, hnone, hresults⟩
    · rw [status_runCheck_of_error hfile hcheck hfault]
      exact check_of_error hfile hwhy
    · rw [status_runCheck_of_summary hfile hcheck]
      exact check_of_results hfile hid hnone hresults

end ContextFree.CommandLine
