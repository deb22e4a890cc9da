import ContextFree.Descent.Positions
import ContextFree.Engine.CallGraph
import ContextFree.Grammar.Basic
import ContextFree.Token

/-!
# Where a call can end

Top-down recognition asks where a nonterminal can end when it starts at some position, and keeps
each answer. An answer is worked out from the answers to the calls it makes. Calls whose answers
are still missing are stacked, and the call on top is tried again after the one it lacked has been
answered; so the depth of the input is never the depth of a recursion.

Without left recursion a call never waits for itself, and no call is stacked twice, so
`Inquiry.limit` rounds are enough for any question.
-/

namespace ContextFree

/-- The answers so far: where calls can end. -/
abbrev Memo : Type :=
  Std.HashMap Call Positions

namespace Memo

variable {τ : Type} [Token τ] (grammar : Grammar) (input : Array τ)

/-- Where the input goes on after one symbol from some positions, or the first call that would
have to be answered before that can be told. -/
def afterSymbol (memo : Memo) (frontier : Positions) : Symbol Nat → Except Call Positions
  | .terminal text =>
    .ok (.unions (frontier.toList.map fun pos =>
      match input[pos]? with
      | some token => if Token.spells token text then .single (pos + 1) else .empty
      | none => .empty))
  | .nonterminal callee =>
    let answers : Except Call (List Positions) := frontier.toList.mapM fun pos =>
      match memo[(⟨callee, pos⟩ : Call)]? with
      | some ends => .ok ends
      | none => .error ⟨callee, pos⟩
    answers.map .unions

/-- Where the input goes on after the symbols of an alternative from some positions. -/
def afterSymbols (memo : Memo) (frontier : Positions) :
    Alternative Nat → Except Call Positions
  | [] => .ok frontier
  | symbol :: rest =>
    match memo.afterSymbol input frontier symbol with
    | .error missing => .error missing
    | .ok next => memo.afterSymbols next rest

/-- Where a call can end, or the first call that would have to be answered before that. -/
def tryEnds (memo : Memo) (call : Call) : Except Call Positions :=
  let answers := (grammar.alternatives call.nonterminal).mapM
    (memo.afterSymbols input (.single call.start))
  answers.map .unions

end Memo

/-- A question on its way to an answer: the calls that wait, the last stacked first, and the
answers so far. -/
structure Inquiry where
  pending : List Call
  memo : Memo

namespace Inquiry

variable {τ : Type} [Token τ] (grammar : Grammar) (input : Array τ)

/-- One round: drops the call on top if it has been answered, answers it, or stacks what it
lacks. -/
def advance (inquiry : Inquiry) : Inquiry :=
  let ⟨pending, memo⟩ := inquiry
  match pending with
  | [] => ⟨[], memo⟩
  | call :: waiting =>
    if memo.contains call then ⟨waiting, memo⟩
    else
      match memo.tryEnds grammar input call with
      | .ok ends => ⟨waiting, memo.insert call ends⟩
      | .error missing => ⟨missing :: call :: waiting, memo⟩

/-- Rounds until no call waits, `limit` at the most. -/
def settle : Nat → Inquiry → Inquiry
  | 0, inquiry => inquiry
  | limit + 1, inquiry =>
    if inquiry.pending.isEmpty then inquiry else settle limit (inquiry.advance grammar input)

/-- How many rounds a question can take: each call is stacked once and answered once, and the
question itself may be found answered. -/
def limit (length : Nat) : Nat :=
  2 * (grammar.nonterminalCount * (length + 1)) + 1

end Inquiry

namespace Memo

variable {τ : Type} [Token τ] (grammar : Grammar) (input : Array τ)

/-- Where a call can end, with the answers that were worked out for it. -/
def ends (memo : Memo) (call : Call) : Positions × Memo :=
  let inquiry := Inquiry.settle grammar input (Inquiry.limit grammar input.size) ⟨[call], memo⟩
  (inquiry.memo[call]?.getD .empty, inquiry.memo)

end Memo

end ContextFree
