import ContextFree.Engine.Step
import ContextFree.Log

/-!
# Runs

The engine takes a descriptor off the worklist, processes it and queues what comes of it, until
nothing is left. There are only so many descriptors for a grammar and an input, and none is queued
twice, so `workLimit` rounds are always enough; a budget below that cuts the run short.
-/

namespace ContextFree

/-- The state of a run. -/
structure Engine where
  facts : Facts
  worklist : Worklist
  /-- How many calls have been expanded. -/
  expansions : Nat

/-- One round: the descriptor taken, and the descriptors that came of it, with whether each was
new. -/
structure Round where
  taken : Descriptor
  produced : List (Descriptor × Bool)

/-- A bound on the distinct descriptors of a run: an expansion for each call, of which there is at
most one for each nonterminal and start, and a resumption for each slot, start and position. -/
def workLimit (grammar : Grammar) (length : Nat) : Nat :=
  grammar.slotCount * ((length + 1) * (length + 1)) + grammar.nonterminalCount * (length + 1)

namespace Engine

variable {τ : Type} [Token τ] (grammar : Grammar) (input : Array τ)

/-- Nothing is known and nothing is queued. -/
def idle (order : Order) (length : Nat) : Engine :=
  ⟨.empty, .create order grammar.nonterminalCount length, 0⟩

/-- Nothing is known and nothing is queued, for an input of which only the length is stated; nothing
if there is no room for the facts about so long an input. -/
def ofLength? (order : Order) (length : UInt64) : Option Engine :=
  (Completions.withRoom? (length + 1)).map fun completions =>
    ⟨⟨.empty, completions⟩, .ofLength order grammar.nonterminalCount.toUInt64 length, 0⟩

/-- The start of a run: the call of a nonterminal at the start of the input is queued. -/
def start (order : Order) (length nonterminal : Nat) : Except Fault (Nat × Engine) :=
  let (root, graph) := CallGraph.empty.enter ⟨nonterminal, 0⟩
  match (Worklist.create order grammar.nonterminalCount length).push (.expand root) with
  | .error fault => .error fault
  | .ok (_, worklist) => .ok (root, ⟨⟨graph, .empty⟩, worklist, 0⟩)

/-- Processes a descriptor that has left the worklist and queues what comes of it; of each it is
told whether it was new. -/
def process (engine : Engine) (descriptor : Descriptor) :
    Except Fault (List (Descriptor × Bool) × Engine) :=
  let ⟨facts, worklist, expansions⟩ := engine
  match facts.step grammar input descriptor with
  | .error fault => .error fault
  | .ok (produced, facts) =>
    match worklist.pushAll produced with
    | .error fault => .error fault
    | .ok (answers, worklist) =>
      let expansions := match descriptor with
        | .expand _ => expansions + 1
        | .resume _ _ _ => expansions
      .ok (answers, ⟨facts, worklist, expansions⟩)

/-- One round, if there is anything left to do, and the state after it. -/
def advance (engine : Engine) : Except Fault (Option Round × Engine) :=
  let ⟨facts, worklist, expansions⟩ := engine
  match worklist.pop? with
  | none => .ok (none, ⟨facts, worklist, expansions⟩)
  | some (descriptor, worklist) =>
    match process grammar input ⟨facts, worklist, expansions⟩ descriptor with
    | .error fault => .error fault
    | .ok (answers, engine) => .ok (some ⟨descriptor, answers⟩, engine)

/-- Rounds until nothing is left, `limit` at the most. -/
def drain : Nat → Engine → Except Fault Engine
  | 0, engine => .ok engine
  | limit + 1, engine =>
    match engine.advance grammar input with
    | .error fault => .error fault
    | .ok (none, engine) => .ok engine
    | .ok (some _, engine) => drain limit engine

/-- What happens in up to `limit` rounds, one by one, and the state after them. -/
def rounds : Nat → Engine → Except Fault (List Round × Engine)
  | 0, engine => .ok ([], engine)
  | limit + 1, engine =>
    match engine.advance grammar input with
    | .error fault => .error fault
    | .ok (none, engine) => .ok ([], engine)
    | .ok (some round, engine) =>
      match rounds limit engine with
      | .error fault => .error fault
      | .ok (later, engine) => .ok (round :: later, engine)

/-- A call as it is shown: its nonterminal and its start. -/
def describeCall (engine : Engine) (node : Nat) : String :=
  match engine.facts.graph.calls[node]? with
  | some call => s!"{grammar.nameOf call.nonterminal}@{call.start}"
  | none => "?"

/-- What a descriptor asks for, as it is shown. -/
def describe (engine : Engine) : Descriptor → String
  | .expand node => s!"expand {engine.describeCall grammar node}"
  | .resume node pos slot =>
    let place := ((grammar.slot? slot).map grammar.describeSlot).getD "?"
    s!"continue [{place}] at {pos} for {engine.describeCall grammar node}"

/-- An entry for each descriptor taken in up to `limit` rounds, after the entries so far. -/
def trace : Nat → Engine → Array Log.Entry → Array Log.Entry
  | 0, _, entries => entries
  | limit + 1, engine, entries =>
    match engine.worklist.pop? with
    | none => entries
    | some (descriptor, _) =>
      let entries := entries.push ⟨.trace, engine.describe grammar descriptor⟩
      match engine.advance grammar input with
      | .ok (_, engine) => trace limit engine entries
      | .error _ => entries

end Engine

end ContextFree
