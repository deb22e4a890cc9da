import ContextFree.Analysis.Height
import ContextFree.Log
import ContextFree.Sentence.RandomSource
import ContextFree.Text.Quoted

/-!
# Sentences of a grammar

Derives a sentence from a start symbol by choosing an alternative at each nonterminal. Only
alternatives with a finite derivation are candidates, and from a given depth on only those that
lead to a shallowest one, so a derivation is closed off soon after that depth whatever is chosen.
-/

namespace ContextFree

/-- Why there is no sentence. -/
inductive SentenceError where
  | undefinedNonterminal (name : String)
  /-- Every derivation of the nonterminal is infinite. -/
  | unproductive (name : String)
  deriving DecidableEq

namespace SentenceError

/-- The error as it is shown. -/
def message : SentenceError → String
  | .undefinedNonterminal name => s!"No definition for nonterminal `{name}`"
  | .unproductive name => s!"`{name}` derives no finite sentence"

end SentenceError

/-- The depth from which derivations are closed off, if nothing else is asked for. -/
def defaultMaxDepth : Nat :=
  8

/-- A grammar with the heights of its nonterminals, and the depth from which derivations are
closed off. -/
structure Generator where
  grammar : Grammar
  maxDepth : Nat
  /-- The heights are kept with the grammar, not computed for each sentence. -/
  heights : Array (Option Nat) := Analysis.heights grammar
  heights_eq : heights = Analysis.heights grammar := by rfl

namespace Generator

variable {σ : Type} (generator : Generator)

/-- Whether an alternative of a nonterminal may be chosen at a depth. -/
def isCandidate (depth id : Nat) (alternative : Alternative Nat) : Bool :=
  match Analysis.alternativeHeight generator.heights alternative with
  | none => false
  | some height =>
    depth < generator.maxDepth || generator.heights.getD id none == some height

/-- The alternatives of a nonterminal that may be chosen at a depth. -/
def candidates (depth id : Nat) : Alternatives Nat :=
  (generator.grammar.alternatives id).filter (generator.isCandidate depth id)

/-- The terminals of an alternative in which each nonterminal is derived in turn. -/
def deriveAlternative (derive : Nat → σ → List String × σ) :
    Alternative Nat → σ → List String × σ
  | [], source => ([], source)
  | .terminal text :: rest, source =>
    let (sentence, source) := deriveAlternative derive rest source
    (text :: sentence, source)
  | .nonterminal id :: rest, source =>
    let (first, source) := derive id source
    let (others, source) := deriveAlternative derive rest source
    (first ++ others, source)

/-- Derives a nonterminal at a depth; `levels` bounds how many levels there are from there down. -/
def derive (choose : Chooser σ) : (levels depth id : Nat) → σ → List String × σ
  | 0, _, _, source => ([], source)
  | levels + 1, depth, id, source =>
    match generator.candidates depth id with
    | [] => ([], source)
    | first :: others =>
      let (choice, source) := choose (first :: others).length (by simp) source
      deriveAlternative (derive choose levels (depth + 1)) ((first :: others).get choice) source

/-- How many levels a derivation can have: heights descend from the maximal depth on. -/
def levelLimit : Nat :=
  generator.maxDepth + generator.grammar.nonterminalCount

/-- A sentence derived from a start symbol, and the state of the source after it. -/
def generate (start : String) (choose : Chooser σ) (source : σ) :
    Except SentenceError (List String × σ) :=
  match generator.grammar.idOf? start with
  | none => .error (.undefinedNonterminal start)
  | some id =>
    match generator.heights.getD id none with
    | none => .error (.unproductive start)
    | some _ => .ok (generator.derive choose generator.levelLimit 0 id source)

/-- What generating a sentence tells. -/
def sentenceLog (start : String) (sentence : List String) : List Log.Entry :=
  let terminals := ", ".intercalate (sentence.map Text.quote)
  [⟨.trace, s!"generated [{terminals}] from `{start}`"⟩]

end Generator

end ContextFree
