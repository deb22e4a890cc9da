import ContextFree.CommandLine.Run
import ContextFree.Proofs.Budget
import ContextFree.Proofs.Descent.Agreement
import ContextFree.Proofs.Results

/-!
# What a token is does not matter

Recognition asks of a token which terminals of the grammar it spells, and nothing else. So two inputs
may have tokens of different types: if at each place they spell the same terminals of a grammar, a
run takes the same steps on both, on states that are equal and not only alike. There is a lemma for
each function that reads the input, from a single step to a whole run, and for top-down recognition
likewise.

A character spells what the string of that one character spells. So a word may be cut into characters
or into strings of one character each (`spellAlike_characters`), which is why the cases of a file and
a word on the command line are recognized alike, though each is cut in its own way.
-/

namespace ContextFree

variable {σ τ : Type} [Token σ] [Token τ]

/-- Two inputs are equally long, and each terminal of a grammar is spelled at the same places. -/
structure SpellAlike (grammar : Grammar) (left : Array σ) (right : Array τ) : Prop where
  size_eq : left.size = right.size
  spells_eq : ∀ text ∈ grammar.terminals,
    left.map (Token.spells · text) = right.map (Token.spells · text)

/-- Whatever a grammar is asked of two inputs, it answers alike: each recognizer comes to an answer
and to a report, in either order of work and under every budget, and both are the same for both
inputs; and top-down recognition accepts both or neither. -/
structure AnsweredAlike (grammar : Grammar) (left : Array σ) (right : Array τ) : Prop where
  run : ∀ recognizer : Recognizer, recognizer.grammar = grammar →
    ∃ report, recognizer.run left = .ok report ∧ recognizer.run right = .ok report
  accepts : ∀ recognizer : Recognizer, recognizer.grammar = grammar →
    ∃ answer, recognizer.accepts left = .ok answer ∧ recognizer.accepts right = .ok answer
  topDown : ∀ topDown : TopDown, topDown.grammar = grammar →
    topDown.accepts left = topDown.accepts right

namespace SpellAlike

variable {grammar : Grammar} {left : Array σ} {right : Array τ}

/-- At each place there is a token on both sides, and the two spell the same terminals, or on
neither. -/
theorem tokens_at (h : SpellAlike grammar left right) (pos : Nat) :
    (left[pos]? = none ∧ right[pos]? = none) ∨
      ∃ token token', left[pos]? = some token ∧ right[pos]? = some token' ∧
        ∀ text ∈ grammar.terminals, Token.spells token text = Token.spells token' text := by
  rcases Nat.lt_or_ge pos left.size with hlt | hge
  · have hlt' : pos < right.size := h.size_eq ▸ hlt
    refine .inr ⟨_, _, Array.getElem?_eq_getElem hlt, Array.getElem?_eq_getElem hlt', ?_⟩
    intro text htext
    have hplace := congrArg (·[pos]?) (h.spells_eq text htext)
    simpa only [Array.getElem?_map, Array.getElem?_eq_getElem hlt, Array.getElem?_eq_getElem hlt',
      Option.map_some, Option.some.injEq] using hplace
  · have hge' : right.size ≤ pos := h.size_eq ▸ hge
    exact .inl ⟨Array.getElem?_eq_none hge, Array.getElem?_eq_none hge'⟩

/-! ## Runs -/

/-- Only in front of a terminal does a step look at the input. -/
theorem step_eq (h : SpellAlike grammar left right) (facts : Facts) (descriptor : Descriptor) :
    facts.step grammar left descriptor = facts.step grammar right descriptor := by
  cases descriptor with
  | expand node => rfl
  | resume node pos slot =>
    cases hslot : grammar.slot? slot with
    | none => simp only [Facts.step, hslot]
    | some found =>
      cases hnext : found.next with
      | none => simp only [Facts.step, hslot, hnext]
      | some symbol =>
        cases symbol with
        | nonterminal callee => simp only [Facts.step, hslot, hnext]
        | terminal text =>
          have htext : text ∈ grammar.terminals := by
            obtain ⟨before, after, hdotted, hhead⟩ := Grammar.dotted_of_slot? hslot
            have hmem : .terminal text ∈ after := List.mem_of_head? (hhead.symm.trans hnext)
            exact Grammar.mem_terminals_of_mem hdotted.mem_alternatives
              (List.mem_append_right before hmem)
          rcases h.tokens_at pos with ⟨hleft, hright⟩ | ⟨token, token', hleft, hright, hspells⟩
          · simp only [Facts.step, hslot, hnext, hleft, hright]
          · simp only [Facts.step, hslot, hnext, hleft, hright, hspells text htext]

theorem advance_eq (h : SpellAlike grammar left right) (engine : Engine) :
    engine.advance grammar left = engine.advance grammar right := by
  simp only [Engine.advance, Engine.process, h.step_eq]

/-- Rounds are the same one by one, so any number of them is. -/
theorem drain_eq (h : SpellAlike grammar left right) (limit : Nat) (engine : Engine) :
    engine.drain grammar left limit = engine.drain grammar right limit := by
  induction limit generalizing engine with
  | zero => rfl
  | succ limit ih => simp only [Engine.drain, h.advance_eq, ih]

/-- A run comes to the same tables on both inputs, wherever a budget ends it. -/
theorem execute_eq {recognizer : Recognizer} (h : SpellAlike recognizer.grammar left right)
    (budget : Option Nat) : recognizer.execute left budget = recognizer.execute right budget := by
  simp only [Recognizer.execute, Recognizer.roundLimit, h.size_eq, h.drain_eq]

theorem run_eq {recognizer : Recognizer} (h : SpellAlike recognizer.grammar left right) :
    recognizer.run left = recognizer.run right := by
  simp only [Recognizer.run, h.execute_eq, h.size_eq]

theorem accepts_eq {recognizer : Recognizer} (h : SpellAlike recognizer.grammar left right) :
    recognizer.accepts left = recognizer.accepts right := by
  simp only [Recognizer.accepts, h.execute_eq, h.size_eq]

/-! ## Top-down recognition -/

theorem afterSymbol_eq (h : SpellAlike grammar left right) (memo : Memo) (frontier : Positions)
    {symbol : Symbol Nat} (hsymbol : ∀ text, symbol = .terminal text → text ∈ grammar.terminals) :
    memo.afterSymbol left frontier symbol = memo.afterSymbol right frontier symbol := by
  cases symbol with
  | nonterminal callee => rfl
  | terminal text =>
    simp only [Memo.afterSymbol]
    refine congrArg (Except.ok <| Positions.unions ·) (List.map_congr_left fun pos _ => ?_)
    rcases h.tokens_at pos with ⟨hleft, hright⟩ | ⟨token, token', hleft, hright, hspells⟩
    · simp only [hleft, hright]
    · simp only [hleft, hright, hspells text (hsymbol text rfl)]

theorem afterSymbols_eq (h : SpellAlike grammar left right) (memo : Memo) (frontier : Positions)
    {symbols : Alternative Nat}
    (hsymbols : ∀ text, .terminal text ∈ symbols → text ∈ grammar.terminals) :
    memo.afterSymbols left frontier symbols = memo.afterSymbols right frontier symbols := by
  induction symbols generalizing frontier with
  | nil => rfl
  | cons symbol rest ih =>
    have hfirst : memo.afterSymbol left frontier symbol = memo.afterSymbol right frontier symbol :=
      h.afterSymbol_eq memo frontier fun text htext => hsymbols text (htext ▸ List.mem_cons_self)
    have hrest := fun next => ih next fun text htext =>
      hsymbols text (List.mem_cons_of_mem _ htext)
    simp only [Memo.afterSymbols, hfirst, hrest]

/-- A call is answered alike, or lacks the same call. -/
theorem tryEnds_eq (h : SpellAlike grammar left right) (memo : Memo) (call : Call) :
    memo.tryEnds grammar left call = memo.tryEnds grammar right call := by
  simp only [Memo.tryEnds]
  refine congrArg (Except.map _) (mapM_congr fun symbols hsymbols => ?_)
  exact h.afterSymbols_eq memo _ fun text => Grammar.mem_terminals_of_mem hsymbols

theorem settle_eq (h : SpellAlike grammar left right) (limit : Nat) (inquiry : Inquiry) :
    inquiry.settle grammar left limit = inquiry.settle grammar right limit := by
  induction limit generalizing inquiry with
  | zero => rfl
  | succ limit ih => simp only [Inquiry.settle, Inquiry.advance, h.tryEnds_eq, ih]

/-- A search comes to the same answers on both inputs, for every call that it asks about. -/
theorem search_eq {topDown : TopDown} (h : SpellAlike topDown.grammar left right) :
    topDown.search left = topDown.search right := by
  simp only [TopDown.search, Memo.ends, h.size_eq, h.settle_eq]

/-! ## Answers -/

/-- Inputs that spell alike are answered alike. -/
theorem answeredAlike (h : SpellAlike grammar left right) : AnsweredAlike grammar left right where
  run := by
    rintro recognizer rfl
    obtain ⟨report, hreport, -⟩ := recognizer.exists_run left
    exact ⟨report, hreport, h.run_eq ▸ hreport⟩
  accepts := by
    rintro recognizer rfl
    obtain ⟨-, -, answer, -, -, hanswer, -⟩ := recognizer.accepts_iff_derives left
    exact ⟨answer, hanswer, h.accepts_eq ▸ hanswer⟩
  topDown := by
    rintro topDown rfl
    simp only [TopDown.accepts, h.search_eq, h.size_eq]

end SpellAlike

/-! ## Words -/

/-- A character spells just what the string of it alone spells, also where a terminal has several
characters. -/
theorem spells_ofList_singleton (c : Char) (text : String) :
    Token.spells (String.ofList [c]) text = Token.spells c text := by
  show (String.ofList [c] == text) = (text.toList == [c])
  rw [Bool.eq_iff_iff, beq_iff_eq, beq_iff_eq, ← String.toList_inj, String.toList_ofList, eq_comm]

/-- A word spells alike in characters and in strings of one character. -/
theorem spellAlike_characters (grammar : Grammar) (word : String) :
    SpellAlike grammar (characters word) (characterStrings word) where
  size_eq := by simp only [characters, characterStrings, List.size_toArray, List.length_map]
  spells_eq text _ := by
    simp only [characters, characterStrings, List.map_toArray, List.map_map, Function.comp_def,
      spells_ofList_singleton]

/-- Answers depend only on which terminals of the grammar each token spells. Inputs that spell alike
are answered alike, whatever their tokens are; and a word in characters, as the cases of a file are
recognized, is answered like the word in strings of one character, as it is recognized on the
command line. -/
theorem spelling_decides (grammar : Grammar) :
    (∀ {σ τ : Type} [Token σ] [Token τ] {left : Array σ} {right : Array τ},
      SpellAlike grammar left right → AnsweredAlike grammar left right) ∧
    (∀ (c : Char) (text : String),
      Token.spells c text = Token.spells (String.ofList [c]) text) ∧
    ∀ word : String,
      AnsweredAlike grammar (characters word) (CommandLine.wordTokens word false) := by
  refine ⟨fun h => h.answeredAlike, ?_, ?_⟩
  · intro c text
    exact (spells_ofList_singleton c text).symm
  · intro word
    exact (spellAlike_characters grammar word).answeredAlike

/-- Where a token spells no terminal, it makes no difference which it is. -/
theorem brackets_answered_alike :
    SpellAlike TopDown.brackets (characters "(x)") #["(", "let", ")"] ∧
      AnsweredAlike TopDown.brackets (characters "(x)") #["(", "let", ")"] := by
  have halike : SpellAlike TopDown.brackets (characters "(x)") #["(", "let", ")"] :=
    ⟨rfl, by decide +kernel⟩
  exact ⟨halike, (spelling_decides TopDown.brackets).1 halike⟩

end ContextFree
