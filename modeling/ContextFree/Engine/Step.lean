import ContextFree.Engine.CallGraph
import ContextFree.Engine.Completions
import ContextFree.Engine.Worklist
import ContextFree.Grammar.Basic
import ContextFree.Token

/-!
# One step of recognition

Calling a nonterminal does not descend into it. The caller leaves itself as a waiter at the callee
and is done; whenever the callee turns out to end somewhere, all its waiters go on from there. A
caller that comes late goes on at once from the ends that are already known. So it does not matter
which comes first, the caller or the end, and a call may well wait for itself: left recursion is
nothing special.
-/

namespace ContextFree

/-- What a run has found out so far: the calls made and where they can end. -/
structure Facts where
  graph : CallGraph
  completions : Completions

namespace Facts

/-- Nothing is known. -/
def empty : Facts :=
  ⟨.empty, .empty⟩

/-- Processes one descriptor: what there is to do because of it, and what is known then. What has
been queued before is for the worklist to tell. -/
def step {τ : Type} [Token τ] (grammar : Grammar) (input : Array τ) (facts : Facts)
    (descriptor : Descriptor) : Except Fault (List Descriptor × Facts) :=
  let ⟨graph, completions⟩ := facts
  match descriptor with
  | .expand node =>
    match graph.call node with
    | .error fault => .error fault
    | .ok call =>
      match grammar.entrySlots? call.nonterminal with
      | none => .error (.outOfRange call.nonterminal)
      | some slots => .ok (slots.map (.resume node call.start ·), ⟨graph, completions⟩)
  | .resume node pos slot =>
    match grammar.slot? slot with
    | none => .error (.outOfRange slot)
    | some dotted =>
      match dotted.next with
      | none =>
        match completions.record node pos with
        | (false, completions) => .ok ([], ⟨graph, completions⟩)
        | (true, completions) =>
          match graph.waitersOf node with
          | .error fault => .error fault
          | .ok waiters =>
            .ok (waiters.toList.map fun waiter => .resume waiter.caller pos waiter.resume,
              ⟨graph, completions⟩)
      | some (.terminal text) =>
        match input[pos]? with
        | some token =>
          .ok (if Token.spells token text then [.resume node (pos + 1) (slot + 1)] else [],
            ⟨graph, completions⟩)
        | none => .ok ([], ⟨graph, completions⟩)
      | some (.nonterminal callee) =>
        let (child, graph) := graph.enter ⟨callee, pos⟩
        match graph.await child ⟨node, slot + 1⟩ with
        | .error fault => .error fault
        | .ok (_, graph) =>
          let known := (completions.endsOf child).toList
          .ok (known.map (.resume node · (slot + 1)) ++ [.expand child], ⟨graph, completions⟩)

end Facts

end ContextFree
