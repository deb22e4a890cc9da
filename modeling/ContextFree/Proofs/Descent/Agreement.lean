import ContextFree.Descent.TopDown
import ContextFree.Proofs.Descent.Inquiry
import ContextFree.Proofs.Quiescence

/-!
# Top-down recognition and the engine agree

The two work quite differently: the engine does each piece of work once, in whatever order, and lets
callers go on from ends as they come up; top-down recognition works out one call at a time, again
and again until nothing is missing. But a search answers just the demanded calls, each with all its
ends (`TopDown.exists_search`), and that is what the engine's tables hold after a run as well. So
the answers are the same, and so are the tables, call by call and end by end.
-/

namespace ContextFree

variable {τ : Type} [Token τ]

namespace TopDown

/-- A search ends with no call waiting, and has answered just the demanded calls. -/
theorem exists_search (topDown : TopDown) (input : Array τ) :
    ∃ memo, Inquiry.settle topDown.grammar input (Inquiry.limit topDown.grammar input.size)
        ⟨[⟨topDown.start, 0⟩], ∅⟩ = ⟨[], memo⟩ ∧
      topDown.search input = (memo[(⟨topDown.start, 0⟩ : Call)]?.getD .empty, memo) ∧
      memo.Consistent topDown.grammar input ∧
      ∀ {call}, call ∈ memo ↔ Demanded topDown.grammar input topDown.start call := by
  obtain ⟨memo, hsettle, h⟩ := Inquiry.settle_ask ⟨topDown.start, 0⟩
    topDown.no_left_recursion Memo.consistent_empty ⟨topDown.start_lt, Nat.zero_le input.size⟩
  refine ⟨memo, hsettle, by simp only [search, Memo.ends, hsettle], h.memo, ?_⟩
  intro call
  rw [demanded_iff_reflTransGen]
  constructor
  · intro hmem
    exact (h.reached_of_mem hmem).resolve_left Std.HashMap.not_mem_empty
  · intro hreached
    induction hreached with
    | refl => exact h.asked.resolve_left List.not_mem_nil
    | tail _ hcalls ih => exact h.memo.mem_of_calls ih hcalls

/-- Top-down recognition decides membership. -/
theorem accepts_eq_true_iff (topDown : TopDown) (input : Array τ) :
    topDown.accepts input = true ↔
      Derives topDown.grammar input topDown.start 0 input.size := by
  obtain ⟨memo, -, hsearch, hmemo, hdemanded⟩ := topDown.exists_search input
  have hmem : (⟨topDown.start, 0⟩ : Call) ∈ memo := hdemanded.mpr .root
  obtain ⟨ends, hends⟩ := Memo.mem_iff_exists.mp hmem
  rw [accepts, hsearch, hends, decide_eq_true_iff]
  exact hmemo.exact hends input.size

/-- Top-down recognition is made of the grammar as it is and of the start symbol's number. -/
theorem make_eq_ok_iff {grammar : Grammar} {start : String} {topDown : TopDown} :
    TopDown.make grammar start = .ok topDown ↔
      topDown.grammar = grammar ∧ grammar.idOf? start = some topDown.start := by
  unfold make
  constructor
  · intro hmake
    split at hmake
    · cases hmake
    · next id hid =>
      split at hmake
      · cases hmake
      · obtain rfl := Except.ok.inj hmake
        exact ⟨rfl, hid⟩
  · intro h
    obtain ⟨rfl, hid⟩ := h
    split
    · next hnone => cases hid.symm.trans hnone
    · next id hid' =>
      obtain rfl := Option.some.inj (hid.symm.trans hid')
      split
      · next name hname => cases topDown.no_left_recursion.symm.trans hname
      · rfl

/-- The start symbol must have a rule, and that is looked at first. -/
theorem make_of_idOf?_eq_none {grammar : Grammar} {start : String}
    (hid : grammar.idOf? start = none) :
    TopDown.make grammar start = .error (.invalidGrammar (.invalidStart start)) := by
  unfold make
  split
  · rfl
  · next id hid' => cases hid.symm.trans hid'

theorem make_of_leftRecursive? {grammar : Grammar} {start name : String} {id : Nat}
    (hid : grammar.idOf? start = some id) (hname : Analysis.leftRecursive? grammar = some name) :
    TopDown.make grammar start = .error (.leftRecursive name) := by
  unfold make
  split
  · next hnone => cases hid.symm.trans hnone
  · split
    · next name' hname' =>
      obtain rfl := Option.some.inj (hname.symm.trans hname')
      rfl
    · next hnone => cases hname.symm.trans hnone

/-- Wherever there is top-down recognition, it ends, gives the same answer as the engine in either
order of work, and comes to the same tables: an answer for each call that has a node and for no
other, with the ends recorded for the node in ascending order. -/
theorem agrees_with_recognizer {grammar : Grammar} {start : String} {topDown : TopDown}
    (hmake : TopDown.make grammar start = .ok topDown) (config : Config) (input : Array τ) :
    ∃ recognizer memo root engine,
      Recognizer.make grammar start config = .ok recognizer ∧
      recognizer.execute input none = .ok (root, engine) ∧ engine.worklist.pop? = none ∧
      Inquiry.settle grammar input (Inquiry.limit grammar input.size)
        ⟨[⟨topDown.start, 0⟩], ∅⟩ = ⟨[], memo⟩ ∧
      (topDown.search input).2 = memo ∧
      recognizer.accepts input = .ok (topDown.accepts input) ∧
      (∀ call : Call, call ∈ memo ↔ ∃ node : Nat, engine.facts.graph.calls[node]? = some call) ∧
      ∀ (node : Nat) (call : Call) (ends : Positions),
        engine.facts.graph.calls[node]? = some call → memo[call]? = some ends →
        ends.toList.Pairwise (· < ·) ∧
        ends.toList.Perm (engine.facts.completions.endsOf node).toList ∧
        ∀ stop, stop ∈ ends.toList ↔ engine.facts.completions.has node stop = true := by
  obtain ⟨rfl, hid⟩ := make_eq_ok_iff.mp hmake
  obtain ⟨memo, hsettle, hsearch, hmemo, hdemanded⟩ := topDown.exists_search input
  let recognizer : Recognizer := ⟨topDown.grammar, topDown.start, topDown.start_lt, config⟩
  obtain ⟨engine, hexecute, h, hpending⟩ := recognizer.exists_execute input
  have hanswer : engine.facts.completions.has 0 input.size = topDown.accepts input := by
    rw [Bool.eq_iff_iff, topDown.accepts_eq_true_iff]
    exact h.has_iff_derives hpending h.find?_root input.size
  refine ⟨recognizer, memo, 0, engine, Recognizer.make_of_idOf? hid, hexecute,
    Worklist.pop?_eq_none_iff.mpr hpending, hsettle, congrArg Prod.snd hsearch,
    hanswer ▸ recognizer.accepts_eq input hexecute, ?_, ?_⟩
  · intro call
    rw [hdemanded, ← h.exists_find?_iff hpending]
    exact exists_congr fun node => h.facts.graph.find?_eq_some_iff
  · intro node call ends hcall hends
    have hmem : ∀ stop, stop ∈ ends.toList ↔ engine.facts.completions.has node stop = true := by
      intro stop
      have hfind := h.facts.graph.find?_eq_some_iff.mpr hcall
      exact (hmemo.exact hends stop).trans (h.has_iff_derives hpending hfind stop).symm
    refine ⟨ends.ascending, ?_, hmem⟩
    have hnodup : ends.toList.Nodup := ends.ascending.imp Nat.ne_of_lt
    refine (List.perm_ext_iff_of_nodup hnodup (h.facts.completions.nodup_endsOf node)).mpr ?_
    intro stop
    rw [hmem, Array.mem_toList_iff, h.facts.completions.mem_endsOf_iff]

/-- A grammar of nested and repeated brackets. -/
def brackets : Grammar where
  startSymbol := "S"
  rules := ⟨[("S", [[.terminal "(", .nonterminal "S", .terminal ")", .nonterminal "S"], []])],
    by decide⟩
  closed := by decide
  start_defined := by decide

/-- A pair of brackets is derived by the alternative with brackets, and twice by the empty one. -/
theorem derives_brackets : Derives brackets (characters "()") 0 0 2 := by
  have hempty : [] ∈ brackets.alternatives 0 := by decide
  refine ⟨[.terminal "(", .nonterminal 0, .terminal ")", .nonterminal 0], by decide, ?_⟩
  have hlast : Spans brackets (characters "()") [.nonterminal 0] 2 2 := .nonterminal hempty .nil .nil
  exact .terminal rfl rfl (.nonterminal hempty .nil (.terminal rfl rfl hlast))

/-- There is top-down recognition of brackets, and it accepts a pair of them, as the engine does that
works newest first. -/
theorem brackets_agree : ∃ topDown recognizer, TopDown.make brackets "S" = .ok topDown ∧
    Recognizer.make brackets "S" { order := .lifo } = .ok recognizer ∧
    topDown.accepts (characters "()") = true ∧
    recognizer.accepts (characters "()") = .ok true := by
  let topDown : TopDown := ⟨brackets, 0, by decide, by decide +kernel⟩
  have hmake : TopDown.make brackets "S" = .ok topDown := make_eq_ok_iff.mpr ⟨rfl, by decide⟩
  have haccepts : topDown.accepts (characters "()") = true :=
    (topDown.accepts_eq_true_iff _).mpr derives_brackets
  obtain ⟨recognizer, -, -, -, hrecognizer, -, -, -, -, hagree, -⟩ :=
    agrees_with_recognizer hmake { order := .lifo } (characters "()")
  rw [haccepts] at hagree
  exact ⟨topDown, recognizer, hmake, hrecognizer, haccepts, hagree⟩

end TopDown

end ContextFree
