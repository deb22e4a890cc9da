import ContextFree.CaseFile.Check

/-!
# The report on a case file

A table with a row for each case, and below it how many cases passed. Columns are as wide as their
headings ask for; a longer word is not cut but pushes its row to the right.
-/

namespace ContextFree

/-- A text filled up with blanks to a width in characters. -/
def padTo (width : Nat) (text : String) : String :=
  text ++ String.ofList (List.replicate (width - text.length) ' ')

/-- A row of the table. -/
def tableRow (word expected actual passed : String) : String :=
  s!"{padTo 20 word} {padTo 8 expected} {padTo 6 actual} {passed}\n"

/-- An outcome as a label. -/
def Outcome.label : Outcome → String
  | .recognized => "1"
  | .rejected => "0"
  | .inconclusive => "?"

/-- The row of a result. -/
def CaseResult.row (result : CaseResult) : String :=
  let word := if result.case.word = "" then "ε" else result.case.word
  tableRow word (if result.case.expected then "1" else "0") result.outcome.label
    (if result.passed then "Y" else "N")

/-- The report. -/
def Summary.report (summary : Summary) : String :=
  let unknown := summary.inconclusive
  "\n=============== Test Cases ===============\n" ++
    tableRow "  WORD" "EXPECTED" "ACTUAL" "OK?" ++
    String.ofList (List.replicate 40 '-') ++ "\n" ++
    String.join (summary.results.map CaseResult.row) ++
    "\n=============== Summary ===============\n" ++
    s!"Passed {summary.passed}/{summary.results.length} tests" ++
    (if unknown = 0 then "" else s!" ({unknown} inconclusive)") ++ "\n"

end ContextFree
