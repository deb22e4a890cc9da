import ContextFree.Proofs.Notation.Rule

/-!
# What is wrong with a rule line

`FirstFault line error` names what is wrong with a rule line without its reader, check by check: its
quotes do not pair up, it starts with no nonterminal, no arrow comes next, or a lexeme on the right
of the arrow cannot be where it is (`AtFault`), and then the error is that of the leftmost. A rule
line has a fault just if it reads as no rule, and then one only (`not_readsAs_iff`,
`FirstFault.unique`). It is the one that `parseLine` finds (`parseLine_eq_error_iff`).

Whether a lexeme is at fault is up to its neighbours and to nothing beyond a bar, while the reader
takes what is on the right of the arrow apart into alternatives first. `Diagnosed` says of both
that they agree; it holds of one alternative, and a bar passes it on to several.
-/

namespace ContextFree.Notation

/-- What stands right before or right after a place. -/
def Beside (lexemes : List Lexeme) (place : Nat) (neighbour : Lexeme) : Prop :=
  lexemes[place + 1]? = some neighbour ∨
    ∃ before, place = before + 1 ∧ lexemes[before]? = some neighbour

/-- A lexeme that cannot be where it is on the right of an arrow, and why. -/
inductive AtFault (lexemes : List Lexeme) (place : Nat) : LoadError → Prop where
  /-- There is one arrow on a line. -/
  | arrow : lexemes[place]? = some .arrow → AtFault lexemes place .unexpectedArrow
  /-- Epsilon is all of its alternative, so only bars are next to it. -/
  | epsilon {neighbour : Lexeme} : lexemes[place]? = some .epsilon →
      Beside lexemes place neighbour → neighbour ≠ .bar → AtFault lexemes place .misplacedEpsilon
  /-- A terminal has a text. -/
  | terminal : lexemes[place]? = some (.terminal "") → AtFault lexemes place .emptyTerminal

/-- A lexeme is at fault, and none before it. -/
def Leftmost (lexemes : List Lexeme) (place : Nat) (error : LoadError) : Prop :=
  AtFault lexemes place error ∧ ∀ earlier < place, ∀ other, ¬ AtFault lexemes earlier other

/-- The first check that a rule line fails. -/
inductive FirstFault (line : List Char) : LoadError → Prop where
  /-- A quote is never closed. -/
  | unmatchedQuote : line.count '"' % 2 = 1 → FirstFault line .unmatchedQuote
  | missingNonterminal {first : Lexeme} {rest : List Lexeme} : lex line = .ok (first :: rest) →
      (∀ name, first ≠ .nonterminal name) → FirstFault line .missingNonterminal
  | missingArrow {lhs : String} {rest : List Lexeme} : lex line = .ok (.nonterminal lhs :: rest) →
      rest.head? ≠ some .arrow → FirstFault line .missingArrow
  | leftmost {lhs : String} {rest : List Lexeme} {place : Nat} {error : LoadError} :
      lex line = .ok (.nonterminal lhs :: .arrow :: rest) → Leftmost rest place error →
      FirstFault line error

variable {line : List Char} {place place' : Nat} {neighbour : Lexeme}
  {lexemes lexemes' left right : List Lexeme} {error error' : LoadError}

/-! ## Lexemes at fault -/

theorem AtFault.lt_length (h : AtFault lexemes place error) : place < lexemes.length := by
  cases h with
  | arrow hplace => exact (List.getElem?_eq_some_iff.mp hplace).1
  | epsilon hplace => exact (List.getElem?_eq_some_iff.mp hplace).1
  | terminal hplace => exact (List.getElem?_eq_some_iff.mp hplace).1

/-- A lexeme is at fault for one reason. -/
theorem AtFault.unique (h : AtFault lexemes place error) (h' : AtFault lexemes place error') :
    error = error' := by
  cases h <;> cases h' <;> simp_all

/-- A lexeme with the same neighbours is at fault in the same way. Bars count as no neighbours. -/
theorem AtFault.congr (hplace : lexemes[place]? = lexemes'[place']?)
    (hbeside : ∀ neighbour, neighbour ≠ .bar → Beside lexemes place neighbour →
      Beside lexemes' place' neighbour)
    (h : AtFault lexemes place error) : AtFault lexemes' place' error := by
  cases h with
  | arrow h => exact .arrow (hplace ▸ h)
  | epsilon h hneighbour hne => exact .epsilon (hplace ▸ h) (hbeside _ hne hneighbour) hne
  | terminal h => exact .terminal (hplace ▸ h)

theorem Leftmost.unique (h : Leftmost lexemes place error) (h' : Leftmost lexemes place' error') :
    error = error' := by
  obtain ⟨hfault, hnone⟩ := h
  obtain ⟨hfault', hnone'⟩ := h'
  rcases Nat.lt_trichotomy place place' with hlt | rfl | hlt
  · exact absurd hfault (hnone' place hlt _)
  · exact hfault.unique hfault'
  · exact absurd hfault' (hnone place' hlt _)

/-! ## Across a bar -/

theorem getElem?_append_bar_right (left right : List Lexeme) (place : Nat) :
    (left ++ .bar :: right)[left.length + 1 + place]? = right[place]? := by
  rw [List.getElem?_append_right (by omega), Nat.add_assoc, Nat.add_sub_cancel_left,
    Nat.add_comm 1, List.getElem?_cons_succ]

theorem beside_append_bar_left (hlt : place < left.length) (hne : neighbour ≠ .bar) :
    Beside (left ++ .bar :: right) place neighbour ↔ Beside left place neighbour := by
  refine or_congr ?_ (exists_congr fun before => and_congr_right fun hbefore => ?_)
  · by_cases hlast : place + 1 < left.length
    · rw [List.getElem?_append_left hlast]
    · -- what is after the last place is the bar
      have hend : place + 1 = left.length := by omega
      rw [hend, List.getElem?_append_right (Nat.le_refl _), Nat.sub_self, List.getElem?_cons_zero,
        List.getElem?_eq_none (Nat.le_refl _), Option.some.injEq]
      exact iff_of_false (Ne.symm hne) nofun
  · rw [List.getElem?_append_left (by omega)]

theorem beside_append_bar_right (hne : neighbour ≠ .bar) :
    Beside (left ++ .bar :: right) (left.length + 1 + place) neighbour ↔
      Beside right place neighbour := by
  refine or_congr ?_ ⟨?_, ?_⟩
  · rw [Nat.add_assoc, getElem?_append_bar_right]
  · rintro ⟨before, hbefore, hneighbour⟩
    cases place with
    | zero =>
      -- what is before the first place is the bar
      obtain rfl : before = left.length := by omega
      rw [List.getElem?_append_right (Nat.le_refl _), Nat.sub_self] at hneighbour
      exact absurd (Option.some.inj hneighbour).symm hne
    | succ place =>
      obtain rfl : before = left.length + 1 + place := by omega
      rw [getElem?_append_bar_right] at hneighbour
      exact ⟨place, rfl, hneighbour⟩
  · rintro ⟨before, rfl, hneighbour⟩
    refine ⟨left.length + 1 + before, by omega, ?_⟩
    rw [getElem?_append_bar_right, hneighbour]

/-- What is at fault on one side of a bar has nothing to do with the other side. -/
theorem atFault_append_bar_left (hlt : place < left.length) :
    AtFault (left ++ .bar :: right) place error ↔ AtFault left place error := by
  have hplace : (left ++ .bar :: right)[place]? = left[place]? := List.getElem?_append_left hlt
  exact ⟨AtFault.congr hplace fun _ hne => (beside_append_bar_left hlt hne).mp,
    AtFault.congr hplace.symm fun _ hne => (beside_append_bar_left hlt hne).mpr⟩

theorem atFault_append_bar_right :
    AtFault (left ++ .bar :: right) (left.length + 1 + place) error ↔
      AtFault right place error := by
  have hplace := getElem?_append_bar_right left right place
  exact ⟨AtFault.congr hplace fun _ hne => (beside_append_bar_right hne).mp,
    AtFault.congr hplace.symm fun _ hne => (beside_append_bar_right hne).mpr⟩

theorem not_atFault_bar : ¬ AtFault (left ++ .bar :: right) left.length error := by
  have hbar : (left ++ Lexeme.bar :: right)[left.length]? = some .bar := by simp
  intro h
  cases h with
  | arrow h => cases hbar.symm.trans h
  | epsilon h => cases hbar.symm.trans h
  | terminal h => cases hbar.symm.trans h

/-- What is at fault is on one side of the bar or on the other. -/
theorem AtFault.of_append_bar (h : AtFault (left ++ .bar :: right) place error) :
    place < left.length ∧ AtFault left place error ∨
      ∃ inner, place = left.length + 1 + inner ∧ AtFault right inner error := by
  rcases Nat.lt_trichotomy place left.length with hlt | rfl | hgt
  · exact .inl ⟨hlt, (atFault_append_bar_left hlt).mp h⟩
  · exact absurd h not_atFault_bar
  · obtain ⟨inner, rfl⟩ := Nat.exists_eq_add_of_le (Nat.succ_le_of_lt hgt)
    exact .inr ⟨inner, rfl, atFault_append_bar_right.mp h⟩

/-! ## The right of an arrow -/

/-- A result for the right of an arrow tells what is at fault there: nothing if it is a value, and
what is leftmost if it is an error. -/
structure Diagnosed {α : Type} (lexemes : List Lexeme) (result : Except LoadError α) : Prop where
  of_ok : ∀ value, result = .ok value → ∀ place other, ¬ AtFault lexemes place other
  of_error : ∀ error, result = .error error → ∃ place, Leftmost lexemes place error

/-- Between bars, what is at fault is what no symbol is read from, unless it is a lone epsilon. -/
theorem atFault_iff_of_not_mem (hbar : Lexeme.bar ∉ lexemes) (hlone : lexemes ≠ [.epsilon]) :
    AtFault lexemes place error ↔
      ∃ lexeme, lexemes[place]? = some lexeme ∧ symbolOf lexeme = .error error := by
  constructor
  · intro h
    cases h with
    | arrow hplace => exact ⟨_, hplace, rfl⟩
    | epsilon hplace => exact ⟨_, hplace, rfl⟩
    | terminal hplace => exact ⟨_, hplace, rfl⟩
  · rintro ⟨lexeme, hplace, herror⟩
    cases lexeme with
    | arrow =>
      obtain rfl := Except.error.inj herror
      exact .arrow hplace
    | bar => exact absurd (List.mem_of_getElem? hplace) hbar
    | epsilon =>
      obtain rfl := Except.error.inj herror
      -- something else is there too, so something is next to the epsilon
      have hneighbour : ∃ neighbour, Beside lexemes place neighbour := by
        by_cases hlast : place + 1 < lexemes.length
        · exact ⟨_, .inl (List.getElem?_eq_getElem hlast)⟩
        · cases place with
          | zero =>
            refine absurd ?_ hlone
            match lexemes, hplace, hlast with
            | [_], hplace, _ => exact congrArg ([·]) (Option.some.inj hplace)
            | _ :: _ :: _, _, hlast => exact absurd (by simp) hlast
          | succ before =>
            have hlt := (List.getElem?_eq_some_iff.mp hplace).1
            exact ⟨_, .inr ⟨before, rfl, List.getElem?_eq_getElem (Nat.lt_of_succ_lt hlt)⟩⟩
      obtain ⟨neighbour, hbeside⟩ := hneighbour
      refine .epsilon hplace hbeside ?_
      rintro rfl
      rcases hbeside with h | ⟨_, -, h⟩
      · exact hbar (List.mem_of_getElem? h)
      · exact hbar (List.mem_of_getElem? h)
    | nonterminal name => cases herror
    | terminal text =>
      rw [symbolOf] at herror
      split at herror
      · next hempty =>
        obtain rfl := Except.error.inj herror
        exact .terminal (hempty ▸ hplace)
      · cases herror

theorem not_atFault_lone_epsilon : ¬ AtFault [.epsilon] place error := by
  intro h
  obtain rfl : place = 0 := Nat.lt_one_iff.mp h.lt_length
  cases h with
  | arrow h => cases h
  | epsilon _ hbeside => rcases hbeside with h | ⟨_, h, -⟩ <;> cases h
  | terminal h => cases h

/-- One alternative is read lexeme by lexeme. -/
theorem diagnosed_alternativeOf (hbar : Lexeme.bar ∉ lexemes) :
    Diagnosed lexemes (alternativeOf lexemes) := by
  by_cases hlone : lexemes = [.epsilon]
  · subst hlone
    exact ⟨fun _ _ _ _ => not_atFault_lone_epsilon, fun _ h => nomatch h⟩
  · rw [alternativeOf, if_neg hlone]
    refine ⟨fun alternative h place other hfault => ?_, fun error h => ?_⟩
    · obtain ⟨lexeme, hplace, herror⟩ := (atFault_iff_of_not_mem hbar hlone).mp hfault
      obtain ⟨symbol, -, hok⟩ :=
        exists_of_mem_left (mapM_eq_ok_iff.mp h) (List.mem_of_getElem? hplace)
      cases herror.symm.trans hok
    · obtain ⟨place, lexeme, hplace, herror, hearlier⟩ := mapM_eq_error_iff.mp h
      refine ⟨place, (atFault_iff_of_not_mem hbar hlone).mpr ⟨lexeme, hplace, herror⟩, ?_⟩
      intro earlier hlt other hfault
      obtain ⟨first, hfirst, herror'⟩ := (atFault_iff_of_not_mem hbar hlone).mp hfault
      obtain ⟨symbol, hok⟩ := hearlier earlier hlt first hfirst
      cases herror'.symm.trans hok

/-- What is made of the value is not looked at. -/
theorem Diagnosed.bind_pure {α β : Type} {result : Except LoadError α} {make : α → β}
    (h : Diagnosed lexemes result) : Diagnosed lexemes (do
      let value ← result
      pure (make value)) := by
  cases result with
  | error error =>
    refine ⟨nofun, fun error' herror => ?_⟩
    obtain rfl := Except.error.inj herror
    exact h.of_error error rfl
  | ok value => exact ⟨fun _ _ => h.of_ok value rfl, nofun⟩

/-- Around a bar, the left is looked at first, and then the right. -/
theorem Diagnosed.append_bar {α β γ : Type} {first : Except LoadError α}
    {others : Except LoadError β} {join : α → β → γ} (hfirst : Diagnosed left first)
    (hothers : Diagnosed right others) : Diagnosed (left ++ .bar :: right) (do
      let value ← first
      let values ← others
      pure (join value values)) := by
  cases first with
  | error error =>
    refine ⟨nofun, fun error' h => ?_⟩
    obtain rfl := Except.error.inj h
    obtain ⟨place, hfault, hnone⟩ := hfirst.of_error error rfl
    refine ⟨place, (atFault_append_bar_left hfault.lt_length).mpr hfault, ?_⟩
    intro earlier hlt other hother
    have hearlier := Nat.lt_trans hlt hfault.lt_length
    exact hnone earlier hlt other ((atFault_append_bar_left hearlier).mp hother)
  | ok value =>
    have hleft := hfirst.of_ok value rfl
    cases others with
    | error error =>
      refine ⟨nofun, fun error' h => ?_⟩
      obtain rfl := Except.error.inj h
      obtain ⟨place, hfault, hnone⟩ := hothers.of_error error rfl
      refine ⟨left.length + 1 + place, atFault_append_bar_right.mpr hfault, ?_⟩
      intro earlier hlt other hother
      rcases hother.of_append_bar with ⟨-, hother'⟩ | ⟨inner, rfl, hother'⟩
      · exact hleft earlier other hother'
      · exact hnone inner (Nat.lt_of_add_lt_add_left hlt) other hother'
    | ok values =>
      refine ⟨fun _ _ place other hfault => ?_, nofun⟩
      rcases hfault.of_append_bar with ⟨-, hfault⟩ | ⟨inner, -, hfault⟩
      · exact hleft place other hfault
      · exact hothers.of_ok values rfl inner other hfault

/-- The right of an arrow is read alternative by alternative. -/
theorem diagnosed_alternativesOf (lexemes : List Lexeme) :
    Diagnosed lexemes (alternativesOf lexemes) := by
  induction lexemes using Text.splitLines_induction Lexeme.bar with
  | nil => exact (diagnosed_alternativeOf List.not_mem_nil).bind_pure
  | last lexemes _ hbar =>
    rw [alternativesOf, List.splitOn_eq_singleton hbar, List.mapM_cons, List.mapM_nil]
    exact (diagnosed_alternativeOf hbar).bind_pure
  | line left right hleft ih =>
    rw [alternativesOf, List.splitOn_append_cons_self_of_not_mem hleft, List.mapM_cons]
    exact (diagnosed_alternativeOf hleft).append_bar ih

theorem alternativesOf_eq_error_iff :
    alternativesOf lexemes = .error error ↔ ∃ place, Leftmost lexemes place error := by
  have hdiagnosed := diagnosed_alternativesOf lexemes
  constructor
  · exact hdiagnosed.of_error error
  · rintro ⟨place, hleftmost⟩
    cases h : alternativesOf lexemes with
    | error error' =>
      obtain ⟨place', hleftmost'⟩ := hdiagnosed.of_error error' h
      rw [hleftmost.unique hleftmost']
    | ok alternatives => exact absurd hleftmost.1 (hdiagnosed.of_ok alternatives h place error)

/-! ## Lines -/

/-- What is wrong with a line is what reading it comes to. -/
theorem FirstFault.lex_bind_ruleOf (h : FirstFault line error) :
    lex line >>= ruleOf = .error error := by
  cases h with
  | unmatchedQuote hodd =>
    rw [lex_eq_error_iff.mpr ⟨rfl, hodd⟩]
    rfl
  | @missingNonterminal first rest hlex hfirst =>
    rw [hlex]
    cases first with
    | nonterminal name => exact absurd rfl (hfirst name)
    | _ => rfl
  | @missingArrow lhs rest hlex hrest =>
    rw [hlex]
    match rest, hrest with
    | [], _ => rfl
    | .arrow :: _, hrest => exact absurd rfl hrest
    | .bar :: _, _ | .epsilon :: _, _ | .nonterminal _ :: _, _ | .terminal _ :: _, _ => rfl
  | leftmost hlex hleftmost =>
    rw [hlex]
    exact map_eq_error_iff.mpr (alternativesOf_eq_error_iff.mpr ⟨_, hleftmost⟩)

/-- What reading a rule line comes to is what is wrong with it, if it is an error. -/
theorem lex_bind_ruleOf_eq_error_iff (hrule : isRuleLine line = true) :
    lex line >>= ruleOf = .error error ↔ FirstFault line error := by
  refine ⟨fun h => ?_, FirstFault.lex_bind_ruleOf⟩
  cases hlex : lex line with
  | error lexError =>
    rw [hlex] at h
    obtain rfl := Except.error.inj h
    obtain ⟨rfl, hodd⟩ := lex_eq_error_iff.mp hlex
    exact .unmatchedQuote hodd
  | ok lexemes =>
    rw [hlex] at h
    change ruleOf lexemes = .error error at h
    unfold ruleOf at h
    split at h
    · exact absurd rfl (ne_nil_of_lex hrule hlex)
    · obtain ⟨place, hleftmost⟩ := alternativesOf_eq_error_iff.mp (map_eq_error_iff.mp h)
      exact .leftmost hlex hleftmost
    · next rest harrow =>
      obtain rfl := Except.error.inj h
      refine .missingArrow hlex fun hhead => ?_
      obtain ⟨later, rfl⟩ := List.head?_eq_some_iff.mp hhead
      exact harrow later rfl
    · next first rest _ hnonterminal =>
      obtain rfl := Except.error.inj h
      exact .missingNonterminal hlex hnonterminal

/-- A line fails one check first. -/
theorem FirstFault.unique (h : FirstFault line error) (h' : FirstFault line error') :
    error = error' :=
  Except.error.inj (h.lex_bind_ruleOf.symm.trans h'.lex_bind_ruleOf)

/-- The error of a line is at the line's location. -/
theorem parseLine_eq_error_iff {location : Location} {located : Located LoadError}
    (hrule : isRuleLine line = true) : parseLine location line = .error located ↔
      FirstFault line located.error ∧ located.location = location := by
  rw [← lex_bind_ruleOf_eq_error_iff hrule]
  unfold parseLine
  cases lex line >>= ruleOf with
  | ok rule => simp
  | error error =>
    obtain ⟨location', error'⟩ := located
    simp [and_comm, eq_comm]

end ContextFree.Notation
