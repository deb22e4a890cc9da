import ContextFree.Engine.BitSet
import ContextFree.Engine.Deque
import ContextFree.Engine.Fault
import Std.Data.HashSet

/-!
# Descriptors and the worklist

A descriptor is one unit of work. The worklist queues each distinct descriptor once, for good: one
that has left the queue is still refused. Descriptors leave in the order of the queue or the
newest first; which of the two decides how much is done before an answer shows, not the answer.
-/

namespace ContextFree

/-- One unit of work. -/
inductive Descriptor where
  /-- Try every alternative of a call's nonterminal from the call's start. -/
  | expand (node : Nat)
  /-- Go on matching for a call, at an input position, from a slot. -/
  | resume (node pos slot : Nat)
  deriving DecidableEq

/-- Which descriptor leaves the worklist next. -/
inductive Order where
  /-- The one queued first. -/
  | fifo
  /-- The one queued last. -/
  | lifo
  deriving DecidableEq

namespace Order

/-- The order as it is shown. -/
def name : Order → String
  | .fifo => "fifo"
  | .lifo => "lifo"

end Order

/-- Descriptors to be processed and descriptors ever queued. -/
structure Worklist where
  order : Order
  pending : Deque Descriptor
  /-- The calls queued for expansion so far. Their number is bounded in advance. -/
  expanded : BitSet
  /-- Everything else queued so far. -/
  resumed : Std.HashSet (Nat × Nat × Nat)
  /-- How many descriptors have left. -/
  processed : Nat

namespace Worklist

/-- The worklist in which nothing was queued yet, with the set that is to hold the calls. -/
def empty (order : Order) (expanded : BitSet) : Worklist where
  order := order
  pending := .empty
  expanded := expanded
  resumed := ∅
  processed := 0

/-- The empty worklist for a grammar of `nonterminals` nonterminals and an input of `length`
tokens: there is at most one call for each nonterminal and position, however many these are. -/
def create (order : Order) (nonterminals length : Nat) : Worklist :=
  .empty order (.roomFor (nonterminals * (length + 1)))

/-- The empty worklist for an input of which only the length is stated. The number of calls is
computed in machine words, and may start again from 0. -/
def ofLength (order : Order) (nonterminals length : UInt64) : Worklist :=
  .empty order (.withCapacity (nonterminals * (length + 1)))

/-- Queues a descriptor unless it was queued before, and tells which. -/
def push (worklist : Worklist) (descriptor : Descriptor) : Except Fault (Bool × Worklist) :=
  let ⟨order, pending, expanded, resumed, processed⟩ := worklist
  match descriptor with
  | .expand node =>
    match expanded.insert? node with
    | none => .error (.outOfRange node)
    | some (fresh, expanded) =>
      let pending := if fresh then pending.pushBack descriptor else pending
      .ok (fresh, ⟨order, pending, expanded, resumed, processed⟩)
  | .resume node pos slot =>
    if resumed.contains (node, pos, slot) then
      .ok (false, ⟨order, pending, expanded, resumed, processed⟩)
    else
      .ok (true, ⟨order, pending.pushBack descriptor, expanded, resumed.insert (node, pos, slot),
        processed⟩)

/-- Queues descriptors one after the other, and tells of each whether it was new. -/
def pushAll (worklist : Worklist) :
    List Descriptor → Except Fault (List (Descriptor × Bool) × Worklist)
  | [] => .ok ([], worklist)
  | descriptor :: rest =>
    match worklist.push descriptor with
    | .error fault => .error fault
    | .ok (fresh, worklist) =>
      match worklist.pushAll rest with
      | .error fault => .error fault
      | .ok (answers, worklist) => .ok ((descriptor, fresh) :: answers, worklist)

/-- The descriptor that leaves next, and the worklist without it. -/
def pop? (worklist : Worklist) : Option (Descriptor × Worklist) :=
  let ⟨order, pending, expanded, resumed, processed⟩ := worklist
  let left := match order with
    | .fifo => pending.popFront?
    | .lifo => pending.popBack?
  left.map fun (descriptor, pending) =>
    (descriptor, ⟨order, pending, expanded, resumed, processed + 1⟩)

/-- How many descriptors are queued. -/
def pendingCount (worklist : Worklist) : Nat :=
  worklist.pending.size

end Worklist

end ContextFree
