import ContextFree.Engine.Run

/-!
# Recognition

Whether an input belongs to the language of a nonterminal. A `Recognizer` is a grammar and a start
symbol that has a rule, with the order of work and, if wanted, a budget; every call runs with
fresh state. A report tells the outcome and how much work there was.

An outcome under a budget may be inconclusive, but never wrong: the input is accepted as soon as
the start symbol is known to end at its end, and refused only when nothing was left to do.
-/

namespace ContextFree

/-- What a run found. -/
inductive Outcome where
  | recognized
  | rejected
  /-- The budget ran out before the answer was known. -/
  | inconclusive
  deriving DecidableEq

namespace Outcome

/-- The outcome as it is shown. -/
def name : Outcome → String
  | .recognized => "recognized"
  | .rejected => "rejected"
  | .inconclusive => "inconclusive"

end Outcome

/-- How much work a run was. -/
structure Stats where
  descriptors : Nat
  expansions : Nat
  nodes : Nat
  edges : Nat
  completions : Nat
  deriving DecidableEq

namespace Stats

/-- The statistics as they are shown. -/
def message (stats : Stats) : String :=
  s!"{stats.descriptors} descriptors, {stats.expansions} expansions, {stats.nodes} GSS nodes, " ++
    s!"{stats.edges} GSS edges, {stats.completions} completions"

end Stats

/-- The outcome of a run and its statistics. -/
structure Report where
  outcome : Outcome
  stats : Stats
  deriving DecidableEq

/-- How to run. -/
structure Config where
  order : Order := .fifo
  /-- How many descriptors may be processed, if that is to be bounded. -/
  budget : Option Nat := none

/-- The report on an engine, for a root call and an input of `length` tokens. -/
def Engine.report (engine : Engine) (root length : Nat) : Report where
  outcome :=
    if engine.facts.completions.has root length then .recognized
    else if engine.worklist.pending.isEmpty then .rejected
    else .inconclusive
  stats :=
    { descriptors := engine.worklist.processed
      expansions := engine.expansions
      nodes := engine.facts.graph.nodeCount
      edges := engine.facts.graph.edgeCount
      completions := engine.facts.completions.count }

/-- A grammar, a start symbol by number, and how to run. -/
structure Recognizer where
  grammar : Grammar
  start : Nat
  start_lt : start < grammar.nonterminalCount
  config : Config := {}

namespace Recognizer

/-- The recognizer of a grammar from a start symbol, which must have a rule. -/
def make (grammar : Grammar) (start : String) (config : Config := {}) :
    Except GrammarError Recognizer :=
  match h : grammar.idOf? start with
  | some id => .ok ⟨grammar, id, grammar.idOf?_lt h, config⟩
  | none => .error (.invalidStart start)

variable {τ : Type} [Token τ] (recognizer : Recognizer) (input : Array τ)

/-- How many rounds a run may take: as many as there can be, or the budget if that is less. -/
def roundLimit (budget : Option Nat) : Nat :=
  match budget with
  | none => workLimit recognizer.grammar input.size
  | some budget => min budget (workLimit recognizer.grammar input.size)

/-- The root call and the engine at the end of a run under a budget. -/
def execute (budget : Option Nat) : Except Fault (Nat × Engine) :=
  match Engine.start recognizer.grammar recognizer.config.order input.size recognizer.start with
  | .error fault => .error fault
  | .ok (root, engine) =>
    match engine.drain recognizer.grammar input (recognizer.roundLimit input budget) with
    | .error fault => .error fault
    | .ok engine => .ok (root, engine)

/-- The report on a run under the configured budget. -/
def run : Except Fault Report :=
  match recognizer.execute input recognizer.config.budget with
  | .error fault => .error fault
  | .ok (root, engine) => .ok (engine.report root input.size)

/-- Whether the input is in the language. The budget does not apply. -/
def accepts : Except Fault Bool :=
  match recognizer.execute input none with
  | .error fault => .error fault
  | .ok (root, engine) => .ok ((engine.report root input.size).outcome == .recognized)

/-- What a run tells when it begins. -/
def openingEntry : Log.Entry :=
  ⟨.debug, s!"recognizing {input.size} tokens from " ++
    s!"`{recognizer.grammar.nameOf recognizer.start}` ({recognizer.config.order.name} order)"⟩

/-- What a run tells when it ends: whether work was left over, and the report. -/
def closingEntries (engine : Engine) (report : Report) : List Log.Entry :=
  let left := engine.worklist.pendingCount
  let warning : List Log.Entry :=
    if left = 0 then []
    else [⟨.warn, s!"step budget of {engine.worklist.processed} descriptors exhausted " ++
      s!"with {left} still pending"⟩]
  warning ++ [⟨.debug, s!"{report.outcome.name} after {report.stats.message}"⟩]

/-- What a run under the configured budget tells: its beginning, each descriptor, its end. -/
def log : List Log.Entry :=
  let budget := recognizer.config.budget
  let rounds : Array Log.Entry :=
    match Engine.start recognizer.grammar recognizer.config.order input.size recognizer.start with
    | .error _ => #[]
    | .ok (_, engine) =>
      engine.trace recognizer.grammar input (recognizer.roundLimit input budget) #[]
  let closing :=
    match recognizer.execute input budget with
    | .error _ => []
    | .ok (root, engine) => closingEntries engine (engine.report root input.size)
  recognizer.openingEntry input :: rounds.toList ++ closing

end Recognizer

end ContextFree
