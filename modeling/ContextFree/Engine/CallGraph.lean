import ContextFree.Engine.Fault
import Std.Data.HashMap

/-!
# The graph of calls

A call is a nonterminal started at an input position. All descriptors that call the same
nonterminal at the same position share one node of this graph, which is what keeps recognition
polynomial: it is the stack of a recursive recognizer, with equal suffixes shared.

An edge is kept at the node that is called: a waiter, the call that goes on when this one is
complete, and the slot at which it goes on. Nodes are numbered as they come up and refer to each
other by number only, so a call that waits for itself is nothing special.
-/

namespace ContextFree

/-- A nonterminal started at an input position. -/
structure Call where
  nonterminal : Nat
  start : Nat
  deriving DecidableEq, Hashable

/-- A call that goes on at slot `resume` when the call it waits for is complete. -/
structure Waiter where
  caller : Nat
  resume : Nat
  deriving DecidableEq

/-- Calls by number, and who waits for each. -/
structure CallGraph where
  index : Std.HashMap Call Nat
  calls : Array Call
  /-- The waiters of each call, in the order in which they came, none twice. -/
  waiters : Array (Array Waiter)
  edgeCount : Nat

namespace CallGraph

/-- The graph without calls. -/
def empty : CallGraph :=
  ⟨∅, #[], #[], 0⟩

/-- How many calls there are. -/
def nodeCount (graph : CallGraph) : Nat :=
  graph.calls.size

/-- The number of a call, if it has come up. -/
def find? (graph : CallGraph) (call : Call) : Option Nat :=
  graph.index[call]?

/-- The number of a call, which gets the next one if it has not come up before. -/
def enter (graph : CallGraph) (call : Call) : Nat × CallGraph :=
  match graph.find? call with
  | some node => (node, graph)
  | none =>
    let ⟨index, calls, waiters, edgeCount⟩ := graph
    let node := calls.size
    (node, ⟨index.insert call node, calls.push call, waiters.push #[], edgeCount⟩)

/-- The call of a number. -/
def call (graph : CallGraph) (node : Nat) : Except Fault Call :=
  match graph.calls[node]? with
  | some call => .ok call
  | none => .error (.unknownCall node)

/-- Who waits for a call. -/
def waitersOf (graph : CallGraph) (node : Nat) : Except Fault (Array Waiter) :=
  match graph.waiters[node]? with
  | some waiters => .ok waiters
  | none => .error (.outOfRange node)

/-- One waiter more for a call, and whether it is new there. -/
def await (graph : CallGraph) (node : Nat) (waiter : Waiter) : Except Fault (Bool × CallGraph) :=
  match graph.waiters[node]? with
  | some present =>
    if present.contains waiter then .ok (false, graph)
    else
      let ⟨index, calls, waiters, edgeCount⟩ := graph
      .ok (true, ⟨index, calls, waiters.modify node (·.push waiter), edgeCount + 1⟩)
  | none => .error (.outOfRange node)

end CallGraph

end ContextFree
