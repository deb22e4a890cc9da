import ContextFree.CaseFile.Basic
import ContextFree.Descent.TopDown
import ContextFree.Recognizer

/-!
# Checking cases

Runs every case through a recognizer and compares. A case passes if its word was recognized and
should be, or was rejected and should be; where the recognizer gave up there is no pass.
-/

namespace ContextFree

/-- How words are recognized. -/
inductive Method where
  /-- Through the graph of calls, for any grammar. -/
  | callGraph
  /-- Top-down, for grammars without left recursion. -/
  | topDown
  deriving DecidableEq

/-- Why cases cannot be checked. -/
inductive CheckError where
  | invalidGrammar (cause : GrammarError)
  | topDown (cause : TopDownError)
  | fault (cause : Fault)

namespace CheckError

/-- The error as it is shown. -/
def message : CheckError → String
  | .invalidGrammar cause => cause.message
  | .topDown cause => cause.message
  | .fault cause => cause.message?.getD "index out of range"

end CheckError

/-- A case and what was found. -/
structure CaseResult where
  case : Case
  outcome : Outcome

namespace CaseResult

/-- Whether what was found is what was expected. -/
def passed (result : CaseResult) : Bool :=
  match result.outcome with
  | .recognized => result.case.expected
  | .rejected => !result.case.expected
  | .inconclusive => false

end CaseResult

/-- The results of all cases, in order. -/
structure Summary where
  results : List CaseResult

namespace Summary

variable (summary : Summary)

/-- How many cases passed. -/
def passed : Nat :=
  summary.results.countP CaseResult.passed

/-- How many cases have no answer. -/
def inconclusive : Nat :=
  summary.results.countP fun result => result.outcome == .inconclusive

/-- Whether every case passed. -/
def allPassed : Bool :=
  summary.passed == summary.results.length

/-- What checking tells at its end: each result, and how many passed. -/
def log : List Log.Entry :=
  let each (result : CaseResult) : Log.Entry :=
    ⟨.debug, s!"[{result.case.location.message}] {Text.quote result.case.word}: " ++
      result.outcome.name⟩
  summary.results.map each ++
    [⟨.info, s!"passed {summary.passed}/{summary.results.length} cases"⟩]

end Summary

namespace Case

/-- A case checked through the graph of calls. -/
def checkWith (recognizer : Recognizer) (case : Case) : Except Fault CaseResult :=
  (recognizer.run (characters case.word)).map fun report => ⟨case, report.outcome⟩

/-- A case checked top-down. -/
def checkTopDown (topDown : TopDown) (case : Case) : CaseResult :=
  ⟨case, if topDown.accepts (characters case.word) then .recognized else .rejected⟩

end Case

/-- Checks every case on its own. -/
def checkCases (grammar : Grammar) (start : String) (cases : List Case) (method : Method)
    (config : Config) : Except CheckError Summary :=
  match method with
  | .callGraph =>
    match Recognizer.make grammar start config with
    | .error cause => .error (.invalidGrammar cause)
    | .ok recognizer =>
      match cases.mapM (Case.checkWith recognizer) with
      | .error cause => .error (.fault cause)
      | .ok results => .ok ⟨results⟩
  | .topDown =>
    match TopDown.make grammar start with
    | .error cause => .error (.topDown cause)
    | .ok topDown => .ok ⟨cases.map (Case.checkTopDown topDown)⟩

/-- What the recognizer tells about each case. -/
def recognitionLog (grammar : Grammar) (start : String) (cases : List Case) (method : Method)
    (config : Config) : List Log.Entry :=
  match method with
  | .callGraph =>
    match Recognizer.make grammar start config with
    | .error _ => []
    | .ok recognizer => cases.flatMap fun case => recognizer.log (characters case.word)
  | .topDown =>
    match TopDown.make grammar start with
    | .error _ => []
    | .ok topDown => cases.flatMap fun case => topDown.log (characters case.word)

/-- What checking tells: about each recognition, and then about the results. -/
def checkLog (grammar : Grammar) (start : String) (cases : List Case) (method : Method)
    (config : Config) : List Log.Entry :=
  match checkCases grammar start cases method config with
  | .error _ => []
  | .ok summary => recognitionLog grammar start cases method config ++ summary.log

end ContextFree
