import ContextFree.Analysis.Height
import ContextFree.Analysis.LeftRecursion
import ContextFree.CaseFile.Report
import ContextFree.CommandLine.Run
import ContextFree.Derivation
import ContextFree.Derivation.Tree
import ContextFree.Descent.TopDown
import ContextFree.Main
import ContextFree.Notation.Loader
import ContextFree.Notation.Printer
import ContextFree.Proofs.Analysis.EmptyWord
import ContextFree.Proofs.Analysis.Height
import ContextFree.Proofs.Analysis.LeftRecursion
import ContextFree.Proofs.Analysis.Nullable
import ContextFree.Proofs.Analysis.SearchOrder
import ContextFree.Proofs.Analysis.SelfRewriting
import ContextFree.Proofs.Analysis.Settle
import ContextFree.Proofs.BinarySearch
import ContextFree.Proofs.Budget
import ContextFree.Proofs.CaseFile.Parts
import ContextFree.Proofs.CaseFile.RoundTrip
import ContextFree.Proofs.CommandLine.Check
import ContextFree.Proofs.Commutation
import ContextFree.Proofs.Definitions
import ContextFree.Proofs.Demand
import ContextFree.Proofs.Derivation.Rewriting
import ContextFree.Proofs.Derivation.Tree
import ContextFree.Proofs.Descent.Agreement
import ContextFree.Proofs.Descent.Inquiry
import ContextFree.Proofs.Descent.Memo
import ContextFree.Proofs.Descent.Questions
import ContextFree.Proofs.Engine.BitSet
import ContextFree.Proofs.Engine.CallGraph
import ContextFree.Proofs.Engine.Chart
import ContextFree.Proofs.Engine.Completions
import ContextFree.Proofs.Engine.Extent
import ContextFree.Proofs.Engine.Facts
import ContextFree.Proofs.Engine.Schedule
import ContextFree.Proofs.Engine.Worklist
import ContextFree.Proofs.EveryState
import ContextFree.Proofs.Grammar.Basic
import ContextFree.Proofs.Grammar.Numbering
import ContextFree.Proofs.InRange
import ContextFree.Proofs.Notation.Content
import ContextFree.Proofs.Notation.Diagnosis
import ContextFree.Proofs.Notation.Fault
import ContextFree.Proofs.Notation.Lexeme
import ContextFree.Proofs.Notation.Loader
import ContextFree.Proofs.Notation.Pieces
import ContextFree.Proofs.Notation.RoundTrip
import ContextFree.Proofs.Notation.Rule
import ContextFree.Proofs.Notation.Stages
import ContextFree.Proofs.Places
import ContextFree.Proofs.Quiescence
import ContextFree.Proofs.Renaming.Basic
import ContextFree.Proofs.Renaming.Engine
import ContextFree.Proofs.Renaming.EqualGrammars
import ContextFree.Proofs.Renaming.Sentence
import ContextFree.Proofs.Renumbering
import ContextFree.Proofs.Results
import ContextFree.Proofs.ScheduleIndependence
import ContextFree.Proofs.Sentence.Generator
import ContextFree.Proofs.Sentence.Recursion
import ContextFree.Proofs.Text
import ContextFree.Proofs.Text.Encoding
import ContextFree.Proofs.WorkBound
import ContextFree.Recognizer
import ContextFree.Sentence.Generator
import ContextFree.Proofs.CaseFile.RoundTrip
import ContextFree.Proofs.Spelling
import ContextFree.Proofs.Grammar.Construction
import ContextFree.Proofs.History.Basic
import ContextFree.Proofs.History.BitSet
import ContextFree.Proofs.History.CallGraph
import ContextFree.Proofs.History.Completions
import ContextFree.Proofs.History.Worklist
