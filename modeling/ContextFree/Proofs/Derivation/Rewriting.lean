import Mathlib.Computability.ContextFreeGrammar

/-!
# What a form can come to start with

A form is rewritten one nonterminal at a time, anywhere in it. For what it starts with only two kinds
of rewriting matter: those that erase what stands in front, and those of the nonterminal that comes
first then. `CallsFirst` takes both together as one step from nonterminal to nonterminal, and
`transGen_produces_iff` says that there is no other way to a form that starts with a given
nonterminal. Whether what stands in front can be erased is a matter of its parts
(`derives_append_nil_iff`).
-/

namespace ContextFreeGrammar

/-- Terminals and nonterminals in a row, as a rule gives them and rewriting changes them. -/
abbrev Form (T N : Type*) : Type _ :=
  List (Symbol T N)

variable {T : Type*} {g : ContextFreeGrammar T}

/-- A nonterminal has a rule in which another stands behind nothing but what can be erased. -/
def CallsFirst (g : ContextFreeGrammar T) (caller callee : g.NT) : Prop :=
  ∃ before after, ⟨caller, before ++ .nonterminal callee :: after⟩ ∈ g.rules ∧ g.Derives before []

/-- A nonterminal is rewritten by one of its rules, whatever comes after it. -/
theorem produces_of_mem {id : g.NT} {form : Form T g.NT} (h : ⟨id, form⟩ ∈ g.rules)
    (rest : Form T g.NT) : g.Produces (.nonterminal id :: rest) (form ++ rest) :=
  ⟨_, h, .head rest⟩

/-- A nonterminal alone is rewritten by its rules only. -/
theorem mem_of_produces_singleton {id : g.NT} {form : Form T g.NT}
    (h : g.Produces [.nonterminal id] form) : ⟨id, form⟩ ∈ g.rules := by
  obtain ⟨rule, hrule, hrewrites⟩ := h
  rcases hrewrites with _ | ⟨_, ⟨⟩⟩
  rwa [List.append_nil]

/-- Rewriting two forms in a row rewrites one of them. -/
theorem Produces.append_cases {left right form : Form T g.NT}
    (h : g.Produces (left ++ right) form) :
    (∃ left', g.Produces left left' ∧ form = left' ++ right) ∨
      ∃ right', g.Produces right right' ∧ form = left ++ right' := by
  induction left generalizing form with
  | nil => exact .inr ⟨form, h, rfl⟩
  | cons symbol left ih =>
    obtain ⟨rule, hrule, hrewrites⟩ := h
    cases hrewrites with
    | head => exact .inl ⟨_, produces_of_mem hrule left, (List.append_assoc ..).symm⟩
    | cons _ hrest =>
      rcases ih ⟨rule, hrule, hrest⟩ with ⟨left', hleft, rfl⟩ | ⟨right', hright, rfl⟩
      · exact .inl ⟨_, hleft.append_left [symbol], rfl⟩
      · exact .inr ⟨right', hright, rfl⟩

/-- Forms in a row can be erased just if each of them can. -/
theorem derives_append_nil_iff {left right : Form T g.NT} :
    g.Derives (left ++ right) [] ↔ g.Derives left [] ∧ g.Derives right [] := by
  constructor
  · intro h
    generalize hform : left ++ right = form at h
    induction h using Relation.ReflTransGen.head_induction_on generalizing left right with
    | refl =>
      obtain ⟨rfl, rfl⟩ := List.append_eq_nil_iff.mp hform
      exact ⟨.refl _, .refl _⟩
    | head hproduces _ ih =>
      subst hform
      rcases hproduces.append_cases with ⟨left', hleft, rfl⟩ | ⟨right', hright, rfl⟩
      · exact (ih rfl).imp_left hleft.trans_derives
      · exact (ih rfl).imp_right hright.trans_derives
  · intro h
    exact (h.1.append_right right).trans h.2

/-- If rewriting brings a nonterminal to where only what can be erased stands in front of it, then
before there was one in such a place that the other was come to from. -/
theorem Produces.exists_first {form before after : Form T g.NT} {callee : g.NT}
    (h : g.Produces form (before ++ .nonterminal callee :: after)) (hbefore : g.Derives before []) :
    ∃ before' caller after', form = before' ++ .nonterminal caller :: after' ∧
      g.Derives before' [] ∧ Relation.ReflTransGen g.CallsFirst caller callee := by
  obtain ⟨rule, hrule, hrewrites⟩ := h
  generalize hform : before ++ .nonterminal callee :: after = rewritten at hrewrites
  induction hrewrites generalizing before with
  | head rest =>
    have hplace : (∃ after', rule.output = before ++ .nonterminal callee :: after') ∨
        ∃ between, before = rule.output ++ between ∧
          rest = between ++ .nonterminal callee :: after := by
      rcases List.append_eq_append_iff.mp hform with ⟨between, houtput, hafter⟩ | hbehind
      · rcases List.cons_eq_append_iff.mp hafter with ⟨rfl, hrest⟩ | ⟨after', rfl, -⟩
        · exact .inr ⟨[], by rw [houtput, List.append_nil, List.append_nil], hrest⟩
        · exact .inl ⟨after', houtput⟩
      · exact .inr hbehind
    rcases hplace with ⟨after', houtput⟩ | ⟨between, rfl, rfl⟩
    · -- the rule has just put it there
      refine ⟨[], rule.input, rest, rfl, .refl _, .single ⟨before, after', houtput ▸ hrule, hbefore⟩⟩
    · -- all that the rule has put there can be erased, and so can its nonterminal
      obtain ⟨houtput, hbetween⟩ := derives_append_nil_iff.mp hbefore
      refine ⟨.nonterminal rule.input :: between, callee, after, rfl, ?_, .refl⟩
      exact ((produces_of_mem hrule between).single.trans (houtput.append_right between)).trans
        hbetween
  | cons symbol hrest ih =>
    cases before with
    | nil =>
      obtain ⟨rfl, -⟩ := List.cons.inj hform
      exact ⟨[], callee, _, rfl, .refl _, .refl⟩
    | cons first before =>
      obtain ⟨rfl, hform'⟩ := List.cons.inj hform
      obtain ⟨hfirst, hbefore⟩ := derives_append_nil_iff.mp (List.singleton_append ▸ hbefore)
      obtain ⟨before', caller, after', rfl, hbefore', hcalls⟩ := ih hbefore hform'
      refine ⟨first :: before', caller, after', rfl, ?_, hcalls⟩
      exact derives_append_nil_iff.mpr ⟨hfirst, hbefore'⟩

/-- Where a form can be rewritten to start with a nonterminal, this was come to from one that only
what can be erased stands in front of. -/
theorem exists_first_of_derives {form rest : Form T g.NT} {first : g.NT}
    (h : g.Derives form (.nonterminal first :: rest)) :
    ∃ before caller after, form = before ++ .nonterminal caller :: after ∧
      g.Derives before [] ∧ Relation.ReflTransGen g.CallsFirst caller first := by
  induction h using Relation.ReflTransGen.head_induction_on with
  | refl => exact ⟨[], first, rest, rfl, .refl _, .refl⟩
  | head hproduces _ ih =>
    obtain ⟨before, callee, after, rfl, hbefore, hcalls⟩ := ih
    obtain ⟨before', caller, after', rfl, hbefore', hcall⟩ := hproduces.exists_first hbefore
    exact ⟨before', caller, after', rfl, hbefore', hcall.trans hcalls⟩

/-- What a nonterminal calls first it can be rewritten to start with. -/
theorem CallsFirst.exists_transGen_produces {caller callee : g.NT} (h : g.CallsFirst caller callee) :
    ∃ rest, Relation.TransGen g.Produces [.nonterminal caller] (.nonterminal callee :: rest) := by
  obtain ⟨before, after, hrule, hbefore⟩ := h
  refine ⟨after, .head' (produces_of_mem hrule []) ?_⟩
  rw [List.append_nil]
  exact Derives.append_right hbefore (.nonterminal callee :: after)

/-- A nonterminal can be rewritten, in one step or more, to a form that starts with another just if
it comes to it by one nonterminal calling the next first. -/
theorem transGen_produces_iff {caller callee : g.NT} :
    (∃ rest, Relation.TransGen g.Produces [.nonterminal caller] (.nonterminal callee :: rest)) ↔
      Relation.TransGen g.CallsFirst caller callee := by
  constructor
  · intro h
    obtain ⟨rest, hproduces⟩ := h
    obtain ⟨form, hfirst, hderives⟩ := Relation.TransGen.head'_iff.mp hproduces
    obtain ⟨before, next, after, rfl, hbefore, hcalls⟩ := exists_first_of_derives hderives
    exact .head' ⟨before, after, mem_of_produces_singleton hfirst, hbefore⟩ hcalls
  · intro h
    induction h with
    | single hcall => exact hcall.exists_transGen_produces
    | tail _ hcall ih =>
      obtain ⟨rest, hproduces⟩ := ih
      obtain ⟨rest', hproduces'⟩ := hcall.exists_transGen_produces
      refine ⟨rest' ++ rest, hproduces.trans ?_⟩
      exact hproduces'.lift (· ++ rest) fun _ _ hproduces => hproduces.append_right rest

end ContextFreeGrammar
