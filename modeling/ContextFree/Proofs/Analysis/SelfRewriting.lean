import ContextFree.Proofs.Analysis.SearchOrder
import ContextFree.Proofs.Derivation.Rewriting
import Mathlib.Data.List.Find

/-!
# Left recursion as rewriting

That a nonterminal comes back to itself before it consumes any input can be said without any input at
all: it can be rewritten, in one step or more, to a form that starts with itself. `RewritesToItself`
says so of the grammar by name, with the rewriting of `ContextFreeGrammar`. What a nonterminal calls
first by name it calls first by number and the other way round, as erasing by name is matching nothing
by number (`derives_nil_of_spans`, `spans_of_derives_nil`). So rewriting to oneself is left recursion
(`rewritesToItself_iff`), and what `Analysis.leftRecursive?` answers is exactly the first nonterminal
that does it (`Analysis.leftRecursive?_exact`).
-/

namespace ContextFree

/-- Symbols as a form of a `ContextFreeGrammar`, with a name for each reference. -/
def formOf {ν : Type} (nameOf : ν → String) (symbols : Alternative ν) :
    ContextFreeGrammar.Form String String :=
  symbols.map fun
    | .terminal text => .terminal text
    | .nonterminal id => .nonterminal (nameOf id)

theorem formOf_append {ν : Type} (nameOf : ν → String) (left right : Alternative ν) :
    formOf nameOf (left ++ right) = formOf nameOf left ++ formOf nameOf right :=
  List.map_append

/-- Where a form has a nonterminal, the symbols that it was made of have one of that name. -/
theorem formOf_eq_append_cons {ν : Type} {nameOf : ν → String} {symbols : Alternative ν}
    {name : String} {before after : ContextFreeGrammar.Form String String}
    (h : formOf nameOf symbols = before ++ .nonterminal name :: after) :
    ∃ before' id after', symbols = before' ++ .nonterminal id :: after' ∧
      formOf nameOf before' = before ∧ nameOf id = name ∧ formOf nameOf after' = after := by
  obtain ⟨before', rest, rfl, hbefore, hrest⟩ := List.map_eq_append_iff.mp h
  obtain ⟨symbol, after', rfl, hsymbol, hafter⟩ := List.map_eq_cons_iff.mp hrest
  cases symbol with
  | terminal text => cases hsymbol
  | nonterminal id =>
    cases hsymbol
    exact ⟨before', id, after', rfl, hbefore, rfl, hafter⟩

namespace Grammar

/-- The grammar by name, as a start symbol and a set of rules, one for each alternative. It is to be
seen through, as its nonterminals are just strings. -/
abbrev toContextFreeGrammar (grammar : Grammar) : ContextFreeGrammar String where
  NT := String
  initial := grammar.startSymbol
  rules := (grammar.rules.entries.flatMap fun rule => rule.2.map fun symbols =>
    ⟨rule.1, formOf (fun name => name) symbols⟩).toFinset

/-- A nonterminal can be rewritten, in one step or more, to a form that starts with itself. -/
def RewritesToItself (grammar : Grammar) (name : String) : Prop :=
  ∃ rest, Relation.TransGen grammar.toContextFreeGrammar.Produces [.nonterminal name]
    (.nonterminal name :: rest)

variable {grammar : Grammar} {name : String} {id : Nat}

/-- The names in a rule come back from their numbers. -/
theorem formOf_nameOf {rule : String × Alternatives String} {alternative : Alternative String}
    (hrule : rule ∈ grammar.rules.entries) (halternative : alternative ∈ rule.2) :
    formOf grammar.nameOf (alternative.map (Symbol.map fun name => (grammar.idOf? name).getD 0)) =
      formOf (fun name => name) alternative := by
  rw [formOf, List.map_map]
  refine List.map_congr_left fun symbol hsymbol => ?_
  cases symbol with
  | terminal text => rfl
  | nonterminal callee =>
    obtain ⟨id, hid⟩ := exists_idOf?_of_mem hrule halternative hsymbol
    simp only [Function.comp_apply, Symbol.map, hid, Option.getD_some, nameOf_of_idOf? hid]

/-- The rules by name are the alternatives by number. -/
theorem mem_rules_iff {form : ContextFreeGrammar.Form String String} :
    ⟨name, form⟩ ∈ grammar.toContextFreeGrammar.rules ↔ ∃ id, grammar.idOf? name = some id ∧
      ∃ symbols ∈ grammar.alternatives id, form = formOf grammar.nameOf symbols := by
  simp only [List.mem_toFinset, List.mem_flatMap, List.mem_map, ContextFreeRule.mk.injEq]
  constructor
  · intro h
    obtain ⟨rule, hrule, alternative, halternative, rfl, rfl⟩ := h
    obtain ⟨id, hentry⟩ := List.getElem?_of_mem hrule
    refine ⟨id, idOf?_eq_some_iff.mpr ⟨rule.2, hentry⟩, _, ?_,
      (formOf_nameOf hrule halternative).symm⟩
    rw [alternatives_eq hentry]
    exact List.mem_map_of_mem halternative
  · intro h
    obtain ⟨id, hid, symbols, hsymbols, rfl⟩ := h
    obtain ⟨alternatives, hentry⟩ := idOf?_eq_some_iff.mp hid
    rw [alternatives_eq hentry] at hsymbols
    obtain ⟨alternative, halternative, rfl⟩ := List.mem_map.mp hsymbols
    have hrule := List.mem_of_getElem? hentry
    exact ⟨_, hrule, alternative, halternative, rfl, (formOf_nameOf hrule halternative).symm⟩

/-! ## Erasing -/

/-- What matches nothing can be erased. -/
theorem derives_nil_of_spans {symbols : Alternative Nat} {i j : Nat}
    (h : Spans grammar (#[] : Array Char) symbols i j) :
    grammar.toContextFreeGrammar.Derives (formOf grammar.nameOf symbols) [] := by
  induction h with
  | nil => exact .refl _
  | terminal htoken => simp at htoken
  | @nonterminal id symbols rest _ _ _ hmem _ _ ih ih' =>
    have hrule : ⟨grammar.nameOf id, formOf grammar.nameOf symbols⟩ ∈
        grammar.toContextFreeGrammar.rules :=
      mem_rules_iff.mpr ⟨id, idOf?_nameOf (lt_of_mem_alternatives hmem), symbols, hmem, rfl⟩
    have hfirst := ContextFreeGrammar.produces_of_mem hrule (formOf grammar.nameOf rest)
    exact (hfirst.single.trans (ih.append_right _)).trans ih'

/-- Rewriting by name is rewriting by number, as long as all numbers are those of nonterminals. -/
theorem exists_alternative_of_produces {symbols : Alternative Nat}
    {form : ContextFreeGrammar.Form String String}
    (hlt : ∀ {id}, .nonterminal id ∈ symbols → id < grammar.nonterminalCount)
    (h : grammar.toContextFreeGrammar.Produces (formOf grammar.nameOf symbols) form) :
    ∃ before id after, symbols = before ++ .nonterminal id :: after ∧
      ∃ alternative ∈ grammar.alternatives id,
        form = formOf grammar.nameOf (before ++ alternative ++ after) := by
  obtain ⟨rule, hrule, hrewrites⟩ := h
  obtain ⟨left, right, hform, rfl⟩ := hrewrites.exists_parts
  rw [List.append_assoc, List.singleton_append] at hform
  obtain ⟨before, id, after, rfl, rfl, hname, rfl⟩ := formOf_eq_append_cons hform
  obtain ⟨id', hid', alternative, halternative, houtput⟩ := mem_rules_iff.mp hrule
  have hid := idOf?_nameOf (hlt (List.mem_append_right _ List.mem_cons_self))
  rw [hname, hid', Option.some.injEq] at hid
  refine ⟨before, id, after, rfl, alternative, hid ▸ halternative, ?_⟩
  rw [formOf_append, formOf_append, houtput]

/-- What can be erased matches nothing. -/
theorem spans_of_derives_nil {symbols : Alternative Nat}
    (hlt : ∀ {id}, .nonterminal id ∈ symbols → id < grammar.nonterminalCount)
    (h : grammar.toContextFreeGrammar.Derives (formOf grammar.nameOf symbols) []) (i : Nat) :
    Spans grammar (#[] : Array Char) symbols i i := by
  generalize hform : formOf grammar.nameOf symbols = form at h
  induction h using Relation.ReflTransGen.head_induction_on generalizing symbols with
  | refl =>
    obtain rfl := List.map_eq_nil_iff.mp hform
    exact .nil
  | head hproduces _ ih =>
    subst hform
    obtain ⟨before, id, after, rfl, alternative, hmem, rfl⟩ :=
      exists_alternative_of_produces hlt hproduces
    have hspans : Spans grammar (#[] : Array Char) (before ++ alternative ++ after) i i := by
      refine ih ?_ rfl
      intro callee hcallee
      rcases List.mem_append.mp hcallee with hleft | hafter
      · rcases List.mem_append.mp hleft with hbefore | halternative
        · exact hlt (List.mem_append_left _ hbefore)
        · exact lt_of_nonterminal_mem hmem halternative
      · exact hlt (List.mem_append_right _ (List.mem_cons_of_mem _ hafter))
    obtain ⟨k, hleft, hafter⟩ := spans_append_iff.mp hspans
    obtain ⟨j, hbefore, halternative⟩ := spans_append_iff.mp hleft
    exact hbefore.append (.nonterminal hmem halternative hafter)

/-! ## Calling first -/

/-- What a nonterminal calls first by number it calls first by name. -/
theorem CallsFirst.nameOf {callee : Nat} (h : grammar.CallsFirst id callee) :
    grammar.toContextFreeGrammar.CallsFirst (grammar.nameOf id) (grammar.nameOf callee) := by
  obtain ⟨before, after, hmem, hspans⟩ := h
  refine ⟨formOf grammar.nameOf before, formOf grammar.nameOf after, ?_, derives_nil_of_spans hspans⟩
  refine mem_rules_iff.mpr ⟨id, idOf?_nameOf (lt_of_mem_alternatives hmem), _, hmem, ?_⟩
  rw [formOf_append]
  rfl

/-- What a nonterminal calls first by name it calls first by number. -/
theorem exists_callsFirst {callee : String}
    (h : grammar.toContextFreeGrammar.CallsFirst name callee) :
    ∃ id calleeId, grammar.idOf? name = some id ∧ grammar.idOf? callee = some calleeId ∧
      grammar.CallsFirst id calleeId := by
  obtain ⟨before, after, hrule, hbefore⟩ := h
  obtain ⟨id, hid, symbols, hsymbols, hform⟩ := mem_rules_iff.mp hrule
  obtain ⟨before', calleeId, after', rfl, rfl, rfl, -⟩ := formOf_eq_append_cons hform.symm
  refine ⟨id, calleeId, hid, ?_, before', after', hsymbols, ?_⟩
  · apply idOf?_nameOf
    exact lt_of_nonterminal_mem hsymbols (List.mem_append_right _ List.mem_cons_self)
  · refine spans_of_derives_nil ?_ hbefore 0
    exact fun hcallee => lt_of_nonterminal_mem hsymbols (List.mem_append_left _ hcallee)

/-- The nonterminals that can be rewritten to a form that starts with themselves are those that are
left-recursive. -/
theorem rewritesToItself_iff :
    grammar.RewritesToItself name ↔ ∃ id, grammar.idOf? name = some id ∧ grammar.LeftRecursive id := by
  rw [RewritesToItself, ContextFreeGrammar.transGen_produces_iff]
  constructor
  · intro h
    obtain ⟨first, hfirst, -⟩ := Relation.TransGen.head'_iff.mp h
    obtain ⟨id, -, hid, -⟩ := exists_callsFirst hfirst
    have hnumber : grammar.toContextFreeGrammar.CallsFirst ≤
        Function.onFun grammar.CallsFirst fun name => (grammar.idOf? name).getD 0 := by
      intro caller callee hcall
      obtain ⟨callerId, calleeId, hcaller, hcallee, hcall⟩ := exists_callsFirst hcall
      rwa [Function.onFun, hcaller, hcallee]
    refine ⟨id, hid, ?_⟩
    have hcycle := h.lift _ hnumber
    rwa [Function.onFun, hid] at hcycle
  · intro h
    obtain ⟨id, hid, hcycle⟩ := h
    rw [← nameOf_of_idOf? hid]
    exact hcycle.lift grammar.nameOf fun _ _ hcall => hcall.nameOf

end Grammar

namespace Analysis

variable {grammar : Grammar}

/-- What is told to be left-recursive is the first nonterminal that can be rewritten to a form that
starts with itself. -/
theorem leftRecursive?_eq_find? (grammar : Grammar) [DecidablePred grammar.RewritesToItself] :
    leftRecursive? grammar = grammar.nonterminals.find? (decide <| grammar.RewritesToItself ·) := by
  rw [leftRecursive?, Grammar.nonterminals_eq, List.find?_map, size_leftCalls]
  refine congrArg (Option.map grammar.nameOf) (List.find?_congr fun id hid => ?_)
  rw [Bool.eq_iff_iff, isLeftRecursive_iff, Function.comp_apply, decide_eq_true_eq,
    Grammar.rewritesToItself_iff, Grammar.idOf?_nameOf (List.mem_range.mp hid)]
  simp only [Option.some.injEq, exists_eq_left']

/-- The search for left recursion is exact: it tells of some nonterminal just if there is one that
can be rewritten to a form that starts with itself, it tells of the first such nonterminal in
definition order, and each search that it makes comes to an end, with the same answer in any order. -/
theorem leftRecursive?_exact (grammar : Grammar) :
    ((∃ name, leftRecursive? grammar = some name) ↔ ∃ name, grammar.RewritesToItself name) ∧
      (∀ name, leftRecursive? grammar = some name ↔ grammar.RewritesToItself name ∧
        ∃ earlier later, grammar.nonterminals = earlier ++ name :: later ∧
          ∀ other ∈ earlier, ¬ grammar.RewritesToItself other) ∧
      ∀ id, Decides (leftCalls grammar) id ((leftCalls grammar).getD id [])
        (Array.replicate (leftCalls grammar).size false)
        (isLeftRecursive (leftCalls grammar) id) := by
  classical
  refine ⟨?_, fun name => ?_, decides_isLeftRecursive _⟩
  · rw [← Option.isSome_iff_exists, leftRecursive?_eq_find?, List.find?_isSome]
    constructor
    · intro h
      obtain ⟨name, -, hname⟩ := h
      exact ⟨name, of_decide_eq_true hname⟩
    · intro h
      obtain ⟨name, hname⟩ := h
      refine ⟨name, ?_, decide_eq_true hname⟩
      obtain ⟨id, hid, -⟩ := Grammar.rewritesToItself_iff.mp hname
      obtain ⟨alternatives, hentry⟩ := Grammar.idOf?_eq_some_iff.mp hid
      exact List.mem_map_of_mem (List.mem_of_getElem? hentry)
  · rw [leftRecursive?_eq_find?, List.find?_eq_some_iff_append]
    simp only [decide_eq_true_eq, Bool.not_eq_true', decide_eq_false_iff_not]

end Analysis

end ContextFree
