import ContextFree.Descent.Memo
import ContextFree.Proofs.Demand

/-!
# What an answer rests on

Working out where a call can end either succeeds or names a call whose answer is missing. If the
answers so far are right, then an answer worked out from them is right, and it rests on the answers
to just the calls that the call makes (`Memo.tryEnds_ok`): all of them are known by then. And a call
that is named as missing is one of those, and not known (`Memo.tryEnds_error`).
-/

namespace ContextFree

/-! ## Sets of positions that may be missing -/

section Unions

variable {α ε : Type} {find : α → Except ε Positions}

/-- The union of sets that are all there. -/
theorem unions_mapM_ok {items : List α} {set : Positions}
    (h : (items.mapM find).map Positions.unions = .ok set) :
    (∀ item ∈ items, ∃ each, find item = .ok each) ∧
      ∀ pos, pos ∈ set ↔ ∃ item ∈ items, ∃ each, find item = .ok each ∧ pos ∈ each := by
  induction items generalizing set with
  | nil =>
    obtain rfl : Positions.empty = set := Except.ok.inj h
    simp
  | cons item items ih =>
    rw [List.mapM_cons] at h
    cases hitem : find item with
    | error missing =>
      rw [hitem] at h
      cases h
    | ok each =>
      cases hitems : items.mapM find with
      | error missing =>
        rw [hitem, hitems] at h
        cases h
      | ok others =>
        rw [hitem, hitems] at h
        obtain rfl : each.union (.unions others) = set := Except.ok.inj h
        obtain ⟨hall, hmem⟩ := ih (by rw [hitems]; rfl)
        refine ⟨?_, ?_⟩
        · intro other hother
          rcases List.mem_cons.mp hother with rfl | hother
          · exact ⟨each, hitem⟩
          · exact hall other hother
        · intro pos
          rw [Positions.mem_union, hmem]
          simp [hitem]

/-- If the union is missing, one of the sets is. -/
theorem unions_mapM_error {items : List α} {missing : ε}
    (h : (items.mapM find).map Positions.unions = .error missing) :
    ∃ item ∈ items, find item = .error missing := by
  induction items with
  | nil => cases h
  | cons item items ih =>
    rw [List.mapM_cons] at h
    cases hitem : find item with
    | error other =>
      rw [hitem] at h
      obtain rfl : other = missing := Except.error.inj h
      exact ⟨item, List.mem_cons_self, hitem⟩
    | ok each =>
      cases hitems : items.mapM find with
      | error other =>
        rw [hitem, hitems] at h
        obtain rfl : other = missing := Except.error.inj h
        obtain ⟨found, hmem, hfound⟩ := ih (by rw [hitems]; rfl)
        exact ⟨found, List.mem_cons_of_mem _ hmem, hfound⟩
      | ok others =>
        rw [hitem, hitems] at h
        cases h

end Unions

namespace Memo

variable {τ : Type} [Token τ] {grammar : Grammar} {input : Array τ}

/-- Every answer is the set of positions where its call can end. -/
def Exact (grammar : Grammar) (input : Array τ) (memo : Memo) : Prop :=
  ∀ {call : Call} {ends : Positions}, memo[call]? = some ends →
    ∀ stop, stop ∈ ends ↔ Derives grammar input call.nonterminal call.start stop

variable {memo : Memo} {frontier : Positions}

theorem mem_iff_exists {call : Call} : call ∈ memo ↔ ∃ ends, memo[call]? = some ends := by
  rw [Std.HashMap.mem_iff_isSome_getElem?, Option.isSome_iff_exists]

/-- An answer to a new call leaves the others as they are. -/
theorem getElem?_insert_of_notMem {call other : Call} {ends known : Positions} (hnew : call ∉ memo)
    (hother : memo[other]? = some known) :
    (Std.HashMap.insert memo call ends)[other]? = some known := by
  rw [Std.HashMap.getElem?_insert, if_neg]
  · exact hother
  · intro heq
    obtain rfl := beq_iff_eq.mp heq
    exact hnew (mem_iff_exists.mpr ⟨known, hother⟩)

/-- A terminal leads from a position past the token there, if that spells it. -/
theorem mem_afterTerminal {text : String} {next : Positions}
    (h : memo.afterSymbol input frontier (.terminal text) = .ok next) (stop : Nat) :
    stop ∈ next ↔ ∃ pos ∈ frontier, Spans grammar input [.terminal text] pos stop := by
  obtain rfl := Except.ok.inj h
  rw [Positions.mem_unions]
  constructor
  · intro hstop
    obtain ⟨set, hset, hstop⟩ := hstop
    obtain ⟨pos, hpos, rfl⟩ := List.mem_map.mp hset
    refine ⟨pos, hpos, spans_terminal_iff.mpr ?_⟩
    cases htoken : input[pos]? with
    | none =>
      rw [htoken] at hstop
      exact absurd hstop (Positions.mem_empty stop)
    | some token =>
      rw [htoken] at hstop
      by_cases hspells : Token.spells token text = true
      · simp only [hspells, if_true, Positions.mem_single] at hstop
        exact ⟨token, rfl, hspells, hstop⟩
      · simp only [hspells] at hstop
        exact absurd hstop (Positions.mem_empty stop)
  · intro hspans
    obtain ⟨pos, hpos, hspans⟩ := hspans
    obtain ⟨token, htoken, hspells, rfl⟩ := spans_terminal_iff.mp hspans
    refine ⟨_, List.mem_map.mpr ⟨pos, hpos, rfl⟩, ?_⟩
    simp only [htoken, hspells, if_true, Positions.mem_single]

/-- A nonterminal leads from a position to all ends of its call there, and the calls are all
answered. -/
theorem afterNonterminal_ok {callee : Nat} {next : Positions}
    (h : memo.afterSymbol input frontier (.nonterminal callee) = .ok next) :
    (∀ pos ∈ frontier, ∃ ends, memo[(⟨callee, pos⟩ : Call)]? = some ends) ∧
      ∀ stop, stop ∈ next ↔ ∃ pos ∈ frontier, ∃ ends,
        memo[(⟨callee, pos⟩ : Call)]? = some ends ∧ stop ∈ ends := by
  obtain ⟨hall, hmem⟩ := unions_mapM_ok h
  have hanswer : ∀ pos ∈ frontier, ∃ ends, memo[(⟨callee, pos⟩ : Call)]? = some ends := by
    intro pos hpos
    obtain ⟨each, heach⟩ := hall pos hpos
    cases hends : memo[(⟨callee, pos⟩ : Call)]? with
    | none =>
      rw [hends] at heach
      cases heach
    | some ends => exact ⟨ends, rfl⟩
  refine ⟨hanswer, fun stop => ?_⟩
  rw [hmem]
  constructor
  · intro hstop
    obtain ⟨pos, hpos, each, heach, hstop⟩ := hstop
    obtain ⟨ends, hends⟩ := hanswer pos hpos
    rw [hends] at heach
    obtain rfl := Except.ok.inj heach
    exact ⟨pos, hpos, ends, hends, hstop⟩
  · intro hstop
    obtain ⟨pos, hpos, ends, hends, hstop⟩ := hstop
    exact ⟨pos, hpos, ends, by rw [hends], hstop⟩

/-- One symbol leads from a position to wherever it can match to, and the calls that takes are all
answered. -/
theorem afterSymbol_ok (hexact : memo.Exact grammar input) {symbol : Symbol Nat} {next : Positions}
    (h : memo.afterSymbol input frontier symbol = .ok next) :
    (∀ stop, stop ∈ next ↔ ∃ pos ∈ frontier, Spans grammar input [symbol] pos stop) ∧
      ∀ callee, symbol = .nonterminal callee → ∀ pos ∈ frontier, (⟨callee, pos⟩ : Call) ∈ memo := by
  cases symbol with
  | terminal text => exact ⟨mem_afterTerminal h, fun callee heq => by cases heq⟩
  | nonterminal callee =>
    obtain ⟨hanswer, hmem⟩ := afterNonterminal_ok h
    refine ⟨fun stop => ?_, ?_⟩
    · rw [hmem]
      constructor
      · intro hstop
        obtain ⟨pos, hpos, ends, hends, hstop⟩ := hstop
        exact ⟨pos, hpos, spans_nonterminal_iff.mpr ((hexact hends stop).mp hstop)⟩
      · intro hspans
        obtain ⟨pos, hpos, hspans⟩ := hspans
        obtain ⟨ends, hends⟩ := hanswer pos hpos
        exact ⟨pos, hpos, ends, hends, (hexact hends stop).mpr (spans_nonterminal_iff.mp hspans)⟩
    · intro _ heq pos hpos
      cases heq
      exact mem_iff_exists.mpr (hanswer pos hpos)

/-- A call that is missing after one symbol is a call of that symbol from one of the positions. -/
theorem afterSymbol_error {symbol : Symbol Nat} {missing : Call}
    (h : memo.afterSymbol input frontier symbol = .error missing) :
    missing ∉ memo ∧ symbol = .nonterminal missing.nonterminal ∧ missing.start ∈ frontier := by
  cases symbol with
  | terminal text => cases h
  | nonterminal callee =>
    obtain ⟨pos, hpos, hmissing⟩ := unions_mapM_error h
    split at hmissing
    · cases hmissing
    · next hnone =>
      obtain rfl := Except.error.inj hmissing
      refine ⟨fun hmem => ?_, rfl, hpos⟩
      obtain ⟨ends, hends⟩ := mem_iff_exists.mp hmem
      cases hnone.symm.trans hends

/-- The symbols of an alternative lead from a position to wherever they can match to, and the calls
that takes are all answered. -/
theorem afterSymbols_ok (hexact : memo.Exact grammar input) (symbols : Alternative Nat) :
    ∀ {frontier ends}, memo.afterSymbols input frontier symbols = .ok ends →
      (∀ stop, stop ∈ ends ↔ ∃ pos ∈ frontier, Spans grammar input symbols pos stop) ∧
        ∀ {before callee after pos stop}, symbols = before ++ .nonterminal callee :: after →
          pos ∈ frontier → Spans grammar input before pos stop →
          (⟨callee, stop⟩ : Call) ∈ memo := by
  induction symbols with
  | nil =>
    intro frontier ends h
    obtain rfl := Except.ok.inj h
    refine ⟨fun stop => ⟨fun hstop => ⟨stop, hstop, .nil⟩, ?_⟩, ?_⟩
    · intro h'
      obtain ⟨pos, hpos, ⟨⟩⟩ := h'
      exact hpos
    · intro before callee after pos stop heq
      exact absurd heq (by simp)
  | cons symbol rest ih =>
    intro frontier ends h
    unfold afterSymbols at h
    split at h
    · cases h
    · next next hnext =>
      obtain ⟨hfirst, hcalls⟩ := afterSymbol_ok hexact hnext
      obtain ⟨hrest, hcalls'⟩ := ih h
      refine ⟨fun stop => ?_, ?_⟩
      · rw [hrest]
        constructor
        · intro h
          obtain ⟨middle, hmiddle, hspans⟩ := h
          obtain ⟨pos, hpos, hsymbol⟩ := (hfirst middle).mp hmiddle
          exact ⟨pos, hpos, hsymbol.append hspans⟩
        · intro h
          obtain ⟨pos, hpos, hspans⟩ := h
          obtain ⟨middle, hsymbol, hspans⟩ := spans_cons_iff.mp hspans
          exact ⟨middle, (hfirst middle).mpr ⟨pos, hpos, hsymbol⟩, hspans⟩
      · intro before callee after pos stop heq hpos hspans
        cases before with
        | nil =>
          obtain ⟨rfl, -⟩ := List.cons.inj heq
          cases hspans
          exact hcalls callee rfl pos hpos
        | cons first before =>
          obtain ⟨rfl, rfl⟩ := List.cons.inj heq
          obtain ⟨middle, hsymbol, hspans⟩ := spans_cons_iff.mp hspans
          exact hcalls' rfl ((hfirst middle).mpr ⟨pos, hpos, hsymbol⟩) hspans

/-- A call that is missing after some symbols stands among them, and those in front of it match to
where it starts. -/
theorem afterSymbols_error (hexact : memo.Exact grammar input) (symbols : Alternative Nat)
    {missing : Call} : ∀ {frontier}, memo.afterSymbols input frontier symbols = .error missing →
      missing ∉ memo ∧ ∃ before after,
        symbols = before ++ .nonterminal missing.nonterminal :: after ∧
        ∃ pos ∈ frontier, Spans grammar input before pos missing.start := by
  induction symbols with
  | nil =>
    intro frontier h
    cases h
  | cons symbol rest ih =>
    intro frontier h
    unfold afterSymbols at h
    split at h
    · next other hother =>
      obtain rfl := Except.error.inj h
      obtain ⟨hnew, rfl, hpos⟩ := afterSymbol_error hother
      exact ⟨hnew, [], rest, rfl, _, hpos, .nil⟩
    · next next hnext =>
      obtain ⟨hfirst, -⟩ := afterSymbol_ok hexact hnext
      obtain ⟨hnew, before, after, rfl, middle, hmiddle, hspans⟩ := ih h
      obtain ⟨pos, hpos, hsymbol⟩ := (hfirst middle).mp hmiddle
      exact ⟨hnew, symbol :: before, after, rfl, pos, hpos, hsymbol.append hspans⟩

/-- An answer worked out from right answers is right, and the calls that the call makes are all
answered. -/
theorem tryEnds_ok (hexact : memo.Exact grammar input) {call : Call} {ends : Positions}
    (h : memo.tryEnds grammar input call = .ok ends) :
    (∀ stop, stop ∈ ends ↔ Derives grammar input call.nonterminal call.start stop) ∧
      ∀ callee, Calls grammar input call callee → callee ∈ memo := by
  obtain ⟨hall, hmem⟩ := unions_mapM_ok h
  refine ⟨fun stop => ?_, ?_⟩
  · rw [hmem]
    constructor
    · intro h
      obtain ⟨symbols, hsymbols, each, heach, hstop⟩ := h
      obtain ⟨pos, hpos, hspans⟩ := ((afterSymbols_ok hexact symbols heach).1 stop).mp hstop
      obtain rfl := (Positions.mem_single _ _).mp hpos
      exact ⟨symbols, hsymbols, hspans⟩
    · intro h
      obtain ⟨symbols, hsymbols, hspans⟩ := h
      obtain ⟨each, heach⟩ := hall symbols hsymbols
      exact ⟨symbols, hsymbols, each, heach, ((afterSymbols_ok hexact symbols heach).1 stop).mpr
        ⟨call.start, (Positions.mem_single _ _).mpr rfl, hspans⟩⟩
  · intro callee hcallee
    obtain ⟨before, after, hsymbols, hspans⟩ := hcallee
    obtain ⟨each, heach⟩ := hall _ hsymbols
    exact (afterSymbols_ok hexact _ heach).2 rfl ((Positions.mem_single _ _).mpr rfl) hspans

/-- A call that is missing for an answer is one that the call makes. -/
theorem tryEnds_error (hexact : memo.Exact grammar input) {call missing : Call}
    (h : memo.tryEnds grammar input call = .error missing) :
    missing ∉ memo ∧ Calls grammar input call missing := by
  obtain ⟨symbols, hsymbols, hmissing⟩ := unions_mapM_error h
  obtain ⟨hnew, before, after, rfl, pos, hpos, hspans⟩ := afterSymbols_error hexact symbols hmissing
  obtain rfl := (Positions.mem_single _ _).mp hpos
  exact ⟨hnew, before, after, hsymbols, hspans⟩

end Memo

end ContextFree
