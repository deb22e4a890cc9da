import ContextFree.Proofs.Sentence.Generator

/-!
# The recursion of a generator comes to an end

`Generator.derive` goes down so many levels and no further. `Generator.Unfolds` is the same
recursion without any such bound: it goes down as far as the choices lead, and where a nonterminal
has no candidate it goes on without it, silently. It also tells each visit that it makes, to which
nonterminal and at which depth.

Neither the bound nor the silence ever matters (`Generator.unfolds_safely`): with room for a
nonterminal (`Generator.Room`) the unbounded recursion comes to the same sentence as `derive`, and
at each visit there is a candidate and a level left. A generator starts with one level for each
depth above the maximal one and for each nonterminal, so there is no visit below these.
-/

namespace ContextFree.Generator

/-- The recursion comes to a nonterminal at some depth. -/
structure Visit where
  depth : Nat
  id : Nat

variable {σ : Type}

/-- The recursion for the symbols of an alternative, whose nonterminals are derived at `depth`, with
no bound on the depth: the state of the source before it, the visits that are made, in order, the
terminals, and the state of the source after it. -/
inductive Unfolds (generator : Generator) (choose : Chooser σ) :
    (depth : Nat) → Alternative Nat → σ → List Visit → List String → σ → Prop where
  | nil {depth : Nat} {source : σ} : Unfolds generator choose depth [] source [] [] source
  | terminal {depth : Nat} {text : String} {rest : Alternative Nat} {source source' : σ}
      {visits : List Visit} {sentence : List String} :
      Unfolds generator choose depth rest source visits sentence source' →
      Unfolds generator choose depth (.terminal text :: rest) source visits (text :: sentence)
        source'
  /-- Without a candidate the nonterminal adds nothing. -/
  | stuck {depth id : Nat} {rest : Alternative Nat} {source source' : σ} {visits : List Visit}
      {sentence : List String} :
      generator.candidates depth id = [] →
      Unfolds generator choose depth rest source visits sentence source' →
      Unfolds generator choose depth (.nonterminal id :: rest) source (⟨depth, id⟩ :: visits)
        sentence source'
  | nonterminal {depth id : Nat} {rest : Alternative Nat} {source below after source' : σ}
      {visits visits' : List Visit} {first others : List String}
      (hpos : 0 < (generator.candidates depth id).length)
      {choice : Fin (generator.candidates depth id).length} :
      choose _ hpos source = (choice, below) →
      Unfolds generator choose (depth + 1) ((generator.candidates depth id).get choice) below visits
        first after →
      Unfolds generator choose depth rest after visits' others source' →
      Unfolds generator choose depth (.nonterminal id :: rest) source
        (⟨depth, id⟩ :: (visits ++ visits')) (first ++ others) source'

variable {generator : Generator} {choose : Chooser σ} {depth levels id : Nat}
  {symbols : Alternative Nat} {source source' : σ} {visits : List Visit} {sentence : List String}

/-- What the recursion does is told by the choices. -/
theorem Unfolds.unique (h : generator.Unfolds choose depth symbols source visits sentence source') :
    ∀ {visits' sentence' source''},
      generator.Unfolds choose depth symbols source visits' sentence' source'' →
        visits' = visits ∧ sentence' = sentence ∧ source'' = source' := by
  induction h with
  | nil =>
    intro _ _ _ h'
    cases h'
    exact ⟨rfl, rfl, rfl⟩
  | terminal _ ih =>
    intro _ _ _ h'
    cases h' with
    | terminal hrest =>
      obtain ⟨rfl, rfl, rfl⟩ := ih hrest
      exact ⟨rfl, rfl, rfl⟩
  | stuck hnil _ ih =>
    intro _ _ _ h'
    cases h' with
    | stuck _ hrest =>
      obtain ⟨rfl, rfl, rfl⟩ := ih hrest
      exact ⟨rfl, rfl, rfl⟩
    | nonterminal hpos => exact absurd hnil (List.ne_nil_of_length_pos hpos)
  | nonterminal hpos hchoose _ _ ih ih' =>
    intro _ _ _ h'
    cases h' with
    | stuck hnil => exact absurd hnil (List.ne_nil_of_length_pos hpos)
    | nonterminal _ hchoose' hchildren hrest =>
      obtain ⟨rfl, rfl⟩ := Prod.mk.inj (hchoose.symm.trans hchoose')
      obtain ⟨rfl, rfl, rfl⟩ := ih hchildren
      obtain ⟨rfl, rfl, rfl⟩ := ih' hrest
      exact ⟨rfl, rfl, rfl⟩

/-- The recursion for two sequences of symbols in a row is that for one and then the other. -/
theorem Unfolds.append {left right : Alternative Nat} {source'' : σ} {visits' : List Visit}
    {sentence' : List String}
    (h : generator.Unfolds choose depth left source visits sentence source')
    (h' : generator.Unfolds choose depth right source' visits' sentence' source'') :
    generator.Unfolds choose depth (left ++ right) source (visits ++ visits')
      (sentence ++ sentence') source'' := by
  induction h with
  | nil => exact h'
  | terminal _ ih => exact .terminal (ih h')
  | stuck hnil _ ih => exact .stuck hnil (ih h')
  | nonterminal hpos hchoose hchildren _ _ ih =>
    rw [List.cons_append, List.cons_append, List.append_assoc, List.append_assoc]
    exact .nonterminal hpos hchoose hchildren (ih h')

/-- What does at each nonterminal what the recursion does, does so for an alternative. -/
theorem exists_unfolds_of_derive {derive : Nat → σ → List String × σ} {property : Visit → Prop}
    (hderive : ∀ id, .nonterminal id ∈ symbols → ∀ source, ∃ visits,
      generator.Unfolds choose depth [.nonterminal id] source visits (derive id source).1
        (derive id source).2 ∧ ∀ visit ∈ visits, property visit) :
    ∀ source, ∃ visits, generator.Unfolds choose depth symbols source visits
        (deriveAlternative derive symbols source).1 (deriveAlternative derive symbols source).2 ∧
      ∀ visit ∈ visits, property visit := by
  induction symbols with
  | nil => exact fun _ => ⟨[], .nil, List.forall_mem_nil _⟩
  | cons symbol rest ih =>
    intro source
    have hrest := ih fun id hid => hderive id (List.mem_cons_of_mem _ hid)
    cases symbol with
    | terminal text =>
      obtain ⟨visits, hunfolds, hvisits⟩ := hrest source
      exact ⟨visits, .terminal hunfolds, hvisits⟩
    | nonterminal id =>
      obtain ⟨visits, hunfolds, hvisits⟩ := hderive id List.mem_cons_self source
      obtain ⟨visits', hunfolds', hvisits'⟩ := hrest (derive id source).2
      exact ⟨visits ++ visits', hunfolds.append hunfolds',
        List.forall_mem_append.mpr ⟨hvisits, hvisits'⟩⟩

/-- With room for a nonterminal `derive` does what the unbounded recursion does, and at each visit
there is a candidate and a level left. -/
theorem exists_unfolds (choose : Chooser σ) (levels : Nat) :
    ∀ {depth id}, generator.Room levels depth id → ∀ source, ∃ visits,
      generator.Unfolds choose depth [.nonterminal id] source visits
        (generator.derive choose levels depth id source).1
        (generator.derive choose levels depth id source).2 ∧
      ∀ visit ∈ visits, visit.depth < depth + levels ∧
        generator.candidates visit.depth visit.id ≠ [] := by
  induction levels with
  | zero =>
    intro depth id h
    obtain ⟨below, hbelow⟩ := h.exists_eq_succ
    cases hbelow
  | succ levels ih =>
    intro depth id h source
    have hpos := List.length_pos_of_ne_nil h.candidates_ne_nil
    have hmem := List.get_mem (generator.candidates depth id) (choose _ hpos source).1
    obtain ⟨visits, hbelow, hvisits⟩ := exists_unfolds_of_derive
      (fun callee hcallee source => ih (h.callee hmem hcallee) source) (choose _ hpos source).2
    -- the visit to the nonterminal itself has all levels left, and those below it have one less
    have hunfolds := Unfolds.nonterminal hpos rfl hbelow .nil
    rw [List.append_nil, List.append_nil, ← derive_succ hpos] at hunfolds
    refine ⟨_, hunfolds, List.forall_mem_cons.mpr ⟨⟨?_, h.candidates_ne_nil⟩, ?_⟩⟩
    · exact Nat.lt_add_of_pos_right (Nat.succ_pos _)
    · intro visit hvisit
      obtain ⟨hlt, hcandidates⟩ := hvisits visit hvisit
      exact ⟨by omega, hcandidates⟩

/-! ## The recursion for a start symbol -/

variable {start : String}

/-- A generator that does not refuse a start symbol has a tree for it. -/
theorem exists_tree_of_generate
    (h : ∀ error, generator.generate start choose source ≠ .error error) :
    ∃ id, generator.grammar.idOf? start = some id ∧ Nonempty (Tree generator.grammar id) := by
  cases hid : generator.grammar.idOf? start with
  | none =>
    refine absurd ?_ (h (.undefinedNonterminal start))
    rw [generate]
    split
    · rfl
    · next hsome => cases hid.symm.trans hsome
  | some id =>
    refine ⟨id, rfl, not_isEmpty_iff.mp fun hempty => ?_⟩
    exact h _ ((generate_eq_error_iff hid choose source).mpr hempty)

/-- Wherever a generator does not refuse the start symbol, the recursion comes to its end whatever
is chosen, with the sentence that is given. It makes no visit deeper than the maximal depth and, from
there on, one less than there are nonterminals, and there is a candidate at each visit. -/
theorem unfolds_safely (generator : Generator) (start : String) (choose : Chooser σ) (source : σ)
    (h : ∀ error, generator.generate start choose source ≠ .error error) :
    ∃ id visits sentence source', generator.grammar.idOf? start = some id ∧
      generator.generate start choose source = .ok (sentence, source') ∧
      generator.Unfolds choose 0 [.nonterminal id] source visits sentence source' ∧
      (∀ visits' sentence' source'',
        generator.Unfolds choose 0 [.nonterminal id] source visits' sentence' source'' →
          visits' = visits ∧ sentence' = sentence ∧ source'' = source') ∧
      ∀ visit ∈ visits,
        visit.depth ≤ generator.maxDepth + generator.grammar.nonterminalCount - 1 ∧
          generator.candidates visit.depth visit.id ≠ [] := by
  obtain ⟨id, hid, ⟨tree⟩⟩ := exists_tree_of_generate h
  obtain ⟨visits, hunfolds, hvisits⟩ :=
    exists_unfolds choose generator.levelLimit (room_levelLimit tree) source
  refine ⟨id, visits, _, _, hid, generate_of_tree hid tree choose source, hunfolds,
    fun _ _ _ h' => hunfolds.unique h', fun visit hvisit => ?_⟩
  obtain ⟨hlt, hcandidates⟩ := hvisits visit hvisit
  rw [Nat.zero_add] at hlt
  exact ⟨Nat.le_sub_one_of_lt hlt, hcandidates⟩

/-- With a maximal depth of 1 the choice of the first alternative leads to the word of one `a` and
one `b`, in visits that go no deeper than 1. -/
theorem nested_unfolds :
    (∀ error, (Generator.mk nested 1 _ rfl).generate "S" .scripted [0] ≠ .error error) ∧
    ∃ visits, (Generator.mk nested 1 _ rfl).Unfolds .scripted 0 [.nonterminal 0] [0] visits
        ["a", "b"] [] ∧ ∀ visit ∈ visits, visit.depth ≤ 1 := by
  have hok : (Generator.mk nested 1 _ rfl).generate "S" .scripted [0] = .ok (["a", "b"], []) := by
    rfl
  have h : ∀ error, (Generator.mk nested 1 _ rfl).generate "S" .scripted [0] ≠ .error error := by
    rw [hok]
    exact nofun
  obtain ⟨id, visits, sentence, source', hid, hgenerate, hunfolds, -, hvisits⟩ :=
    unfolds_safely _ "S" .scripted [0] h
  obtain rfl : 0 = id := Option.some.inj hid
  obtain ⟨rfl, rfl⟩ := Prod.mk.inj (Except.ok.inj (hok.symm.trans hgenerate))
  exact ⟨h, visits, hunfolds, fun visit hvisit => (hvisits visit hvisit).1⟩

end ContextFree.Generator
