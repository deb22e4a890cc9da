import ContextFree.Proofs.Grammar.Numbering

/-!
# The numbers of one grammar for those of another

Nonterminals and slots are numbered in the order of the rules, so two grammars with the same rules
in different orders number them differently. A `Renaming` takes the numbers of one grammar to those
of the other, and whatever the tables of the first hold under some number, those of the second hold
under the new one. Grammars with the same rules have such a renaming (`Renaming.ofPerm`): a
nonterminal is found again by its name, and a slot by its nonterminal, its alternative and its dot.

A renaming leaves numbers that are not in use as they are. That makes it injective over all numbers,
so that it can be applied to a state without a proof that the state only holds numbers in use.
-/

namespace ContextFree

/-- The symbols of an alternative with each nonterminal given another number. -/
abbrev Alternative.rename (f : Nat → Nat) (symbols : Alternative Nat) : Alternative Nat :=
  symbols.map (Symbol.map f)

/-- New numbers for the nonterminals and slots of `a`, under which `b` has them. -/
structure Renaming (a b : Grammar) where
  nonterminal : Nat → Nat
  slot : Nat → Nat
  nonterminal_injective : Function.Injective nonterminal
  slot_injective : Function.Injective slot
  idOf? : ∀ name, b.idOf? name = (a.idOf? name).map nonterminal
  nonterminalCount_eq : b.nonterminalCount = a.nonterminalCount
  slotCount_eq : b.slotCount = a.slotCount
  alternatives : ∀ id,
    b.alternatives (nonterminal id) = (a.alternatives id).map (Alternative.rename nonterminal)
  entrySlots? : ∀ id, b.entrySlots? (nonterminal id) = (a.entrySlots? id).map (List.map slot)
  /-- The new slot stands in front of the same symbol. -/
  next : ∀ n, (b.slot? (slot n)).map Slot.next =
    (a.slot? n).map fun found => found.next.map (Symbol.map nonterminal)
  /-- Where a symbol stands behind the dot, the slot behind that symbol has the next number. -/
  slot_succ : ∀ {n found}, a.slot? n = some found → found.next ≠ none → slot (n + 1) = slot n + 1

/-! ## The numbers of a grammar with the same rules -/

/-- A change of numbers is injective if it keeps those below `count` there, leaves all others as they
are, and is injective on those below. -/
theorem injective_of_lt_of_eq {f : Nat → Nat} {count : Nat} (hlt : ∀ n, n < count → f n < count)
    (heq : ∀ n, count ≤ n → f n = n)
    (hinj : ∀ n other, n < count → other < count → f n = f other → n = other) :
    Function.Injective f := by
  intro n other hsame
  rcases Nat.lt_or_ge n count with hn | hn <;> rcases Nat.lt_or_ge other count with ho | ho
  · exact hinj n other hn ho hsame
  · have := hlt n hn
    have := heq other ho
    omega
  · have := heq n hn
    have := hlt other ho
    omega
  · rwa [heq n hn, heq other ho] at hsame

namespace Grammar

variable {a b : Grammar} {rule : String × Alternatives String} {found : Slot} {id n : Nat}

/-- The number in `b` of a nonterminal of `a`. -/
def idIn (a b : Grammar) (id : Nat) : Nat :=
  match a.rules.entries[id]? with
  | some rule => (b.idOf? rule.1).getD id
  | none => id

/-- The number in `b` of a slot of `a`. -/
def slotIn (a b : Grammar) (n : Nat) : Nat :=
  match a.slot? n with
  | some found =>
    let entries := (b.entrySlots? (a.idIn b found.nonterminal)).getD []
    entries[found.alternative]?.getD 0 + found.dot
  | none => n

theorem idIn_of_getElem?_eq_none (h : a.rules.entries[id]? = none) : a.idIn b id = id := by
  simp only [idIn, h]

theorem slotIn_of_slot?_eq_none (h : a.slot? n = none) : a.slotIn b n = n := by
  simp only [slotIn, h]

/-- The slot behind one symbol more has the next number here and there. -/
theorem slotIn_succ (h : a.slot? n = some found) (hnext : found.next ≠ none) :
    a.slotIn b (n + 1) = a.slotIn b n + 1 := by
  obtain ⟨symbols, entries, entry, hsymbols, hentries, hentry, hdot, hplace, hsymbol⟩ :=
    slot?_eq_some_iff.mp h
  have hlt : found.dot < symbols.length := by
    by_contra hge
    exact hnext (hsymbol.trans (List.getElem?_eq_none (Nat.le_of_not_lt hge)))
  have hsucc : a.slot? (n + 1) = some { found with
      dot := found.dot + 1, next := symbols[found.dot + 1]? } :=
    slot?_eq_some_iff.mpr ⟨symbols, entries, entry, hsymbols, hentries, hentry, hlt,
      congrArg (· + 1) hplace, rfl⟩
  simp only [slotIn, h, hsucc, Nat.add_assoc]

section SameRules

variable (hrules : a.rules.entries.Perm b.rules.entries)

include hrules

theorem nonterminalCount_of_perm : b.nonterminalCount = a.nonterminalCount := by
  rw [nonterminalCount_eq, nonterminalCount_eq, hrules.length_eq]

theorem slotCount_of_perm : b.slotCount = a.slotCount := by
  rw [slotCount_eq, slotCount_eq]
  exact (hrules.map _).sum_nat.symm

/-- The new number of a nonterminal has the same rule. -/
theorem getElem?_idIn (h : a.rules.entries[id]? = some rule) :
    b.rules.entries[a.idIn b id]? = some rule := by
  obtain ⟨other, hother⟩ := List.getElem?_of_mem (hrules.mem_iff.mp (List.mem_of_getElem? h))
  have hid : b.idOf? rule.1 = some other := idOf?_eq_some_iff.mpr ⟨rule.2, hother⟩
  simp only [idIn, h, hid, Option.getD_some]
  exact hother

/-- Numbers in use go to numbers in use. -/
theorem idIn_lt (h : id < a.nonterminalCount) : a.idIn b id < b.nonterminalCount := by
  rw [nonterminalCount_eq] at h ⊢
  exact (List.getElem?_eq_some_iff.mp (getElem?_idIn hrules (List.getElem?_eq_getElem h))).1

theorem idOf?_of_perm (name : String) : b.idOf? name = (a.idOf? name).map (a.idIn b) := by
  cases hid : a.idOf? name with
  | some id =>
    obtain ⟨alternatives, hrule⟩ := idOf?_eq_some_iff.mp hid
    exact idOf?_eq_some_iff.mpr ⟨alternatives, getElem?_idIn hrules hrule⟩
  | none =>
    cases hother : b.idOf? name with
    | none => rfl
    | some other =>
      obtain ⟨alternatives, hrule⟩ := idOf?_eq_some_iff.mp hother
      have hmem := hrules.mem_iff.mpr (List.mem_of_getElem? hrule)
      obtain ⟨id, hentry⟩ := List.getElem?_of_mem hmem
      cases hid.symm.trans (idOf?_eq_some_iff.mpr ⟨alternatives, hentry⟩)

theorem idIn_injective : Function.Injective (a.idIn b) := by
  apply @injective_of_lt_of_eq _ a.nonterminalCount
  · intro id hlt
    rw [← nonterminalCount_of_perm hrules]
    exact idIn_lt hrules hlt
  · intro id hle
    rw [nonterminalCount_eq] at hle
    exact idIn_of_getElem?_eq_none (List.getElem?_eq_none_iff.mpr hle)
  · intro id other hlt hlt' heq
    rw [nonterminalCount_eq] at hlt hlt'
    have hrule := List.getElem?_eq_getElem hlt
    have hrule' := List.getElem?_eq_getElem hlt'
    -- both numbers are that of one name
    have hnew := getElem?_idIn hrules hrule
    rw [heq, getElem?_idIn hrules hrule', Option.some.injEq] at hnew
    rw [hnew] at hrule'
    have hname := idOf?_eq_some_iff.mpr ⟨_, hrule⟩
    exact Option.some.inj (hname.symm.trans (idOf?_eq_some_iff.mpr ⟨_, hrule'⟩))

theorem alternatives_of_perm (id : Nat) : b.alternatives (a.idIn b id) =
    (a.alternatives id).map (Alternative.rename (a.idIn b)) := by
  cases hid : a.rules.entries[id]? with
  | none =>
    have hother : b.rules.entries[id]? = none := by
      rw [List.getElem?_eq_none_iff, ← hrules.length_eq]
      exact List.getElem?_eq_none_iff.mp hid
    rw [idIn_of_getElem?_eq_none hid, alternatives_of_getElem?_eq_none hid,
      alternatives_of_getElem?_eq_none hother, List.map_nil]
  | some rule =>
    rw [alternatives_eq hid, alternatives_eq (getElem?_idIn hrules hid), List.map_map]
    refine List.map_congr_left fun alternative halternative => ?_
    show _ = List.map _ (List.map _ alternative)
    rw [List.map_map]
    refine List.map_congr_left fun symbol hsymbol => ?_
    cases symbol with
    | terminal text => rfl
    | nonterminal name =>
      obtain ⟨callee, hcallee⟩ :=
        exists_idOf?_of_mem (List.mem_of_getElem? hid) halternative hsymbol
      have hcallee' := idOf?_of_perm hrules name
      rw [hcallee] at hcallee'
      simp only [Function.comp_apply, Symbol.map, hcallee, hcallee', Option.map_some,
        Option.getD_some]

/-- The new number of a slot has the same position, with the new number of its nonterminal. -/
theorem slot?_slotIn (h : a.slot? n = some found) : b.slot? (a.slotIn b n) = some
    { found with
      nonterminal := a.idIn b found.nonterminal
      next := found.next.map (Symbol.map (a.idIn b)) } := by
  obtain ⟨symbols, entries, entry, hsymbols, hentries, hentry, hdot, -, hnext⟩ :=
    slot?_eq_some_iff.mp h
  have hsymbols' : (b.alternatives (a.idIn b found.nonterminal))[found.alternative]? =
      some (Alternative.rename (a.idIn b) symbols) := by
    rw [alternatives_of_perm hrules, List.getElem?_map, hsymbols, Option.map_some]
  have hlt := (List.getElem?_eq_some_iff.mp hsymbols').1
  obtain ⟨entries', hentries', hlength⟩ :=
    entrySlots?_of_lt (lt_of_mem_alternatives (List.mem_of_getElem? hsymbols'))
  rw [← hlength] at hlt
  refine slot?_eq_some_iff.mpr ⟨_, entries', _, hsymbols', hentries',
    List.getElem?_eq_getElem hlt, ?_, ?_, ?_⟩
  · rw [List.length_map]
    exact hdot
  · simp only [slotIn, h, hentries', Option.getD_some, List.getElem?_eq_getElem hlt]
  · rw [List.getElem?_map, hnext]

theorem slotIn_injective : Function.Injective (a.slotIn b) := by
  have hslot : ∀ {n}, n < a.slotCount → ∃ found, a.slot? n = some found :=
    fun hlt => ⟨_, Array.getElem?_eq_getElem hlt⟩
  apply @injective_of_lt_of_eq _ a.slotCount
  · intro n hlt
    obtain ⟨found, hfound⟩ := hslot hlt
    rw [← slotCount_of_perm hrules]
    exact (Array.getElem?_eq_some_iff.mp (slot?_slotIn hrules hfound)).1
  · intro n hle
    exact slotIn_of_slot?_eq_none (Array.getElem?_eq_none_iff.mpr hle)
  · intro n other hlt hlt' heq
    obtain ⟨found, hfound⟩ := hslot hlt
    obtain ⟨found', hfound'⟩ := hslot hlt'
    have hnew := slot?_slotIn hrules hfound
    rw [heq, slot?_slotIn hrules hfound', Option.some.injEq, Slot.mk.injEq] at hnew
    obtain ⟨hnonterminal, halternative, hdot, -⟩ := hnew
    exact eq_of_slot? hfound hfound' (idIn_injective hrules hnonterminal).symm
      halternative.symm hdot.symm

theorem entrySlots?_of_perm (id : Nat) :
    b.entrySlots? (a.idIn b id) = (a.entrySlots? id).map (List.map (a.slotIn b)) := by
  rcases Nat.lt_or_ge id a.nonterminalCount with hlt | hge
  · obtain ⟨entries, hentries, hlength⟩ := entrySlots?_of_lt hlt
    obtain ⟨entries', hentries', hlength'⟩ := entrySlots?_of_lt (idIn_lt hrules hlt)
    rw [alternatives_of_perm hrules, List.length_map, ← hlength] at hlength'
    rw [hentries, hentries', Option.map_some, Option.some.injEq]
    apply List.ext_getElem (by rw [List.length_map, hlength'])
    intro place hplace hplace'
    rw [List.length_map] at hplace'
    obtain ⟨symbols, hsymbols⟩ : ∃ symbols, (a.alternatives id)[place]? = some symbols :=
      ⟨_, List.getElem?_eq_getElem (hlength ▸ hplace')⟩
    have hslot : a.slot? entries[place] = some ⟨id, place, 0, symbols[0]?⟩ :=
      slot?_eq_some_iff.mpr ⟨symbols, entries, _, hsymbols, hentries,
        List.getElem?_eq_getElem hplace', Nat.zero_le _, rfl, rfl⟩
    simp only [List.getElem_map, slotIn, hslot, hentries', Option.getD_some, Nat.add_zero,
      List.getElem?_eq_getElem hplace]
  · have hnone : a.rules.entries[id]? = none := by
      rw [List.getElem?_eq_none_iff, ← nonterminalCount_eq]
      exact hge
    rw [idIn_of_getElem?_eq_none hnone, entrySlots?_eq_none_iff.mpr hge, Option.map_none,
      entrySlots?_eq_none_iff, nonterminalCount_of_perm hrules]
    exact hge

end SameRules

end Grammar

/-- Grammars that have the same rules have a renaming. -/
def Renaming.ofPerm {a b : Grammar} (hrules : a.rules.entries.Perm b.rules.entries) :
    Renaming a b where
  nonterminal := a.idIn b
  slot := a.slotIn b
  nonterminal_injective := Grammar.idIn_injective hrules
  slot_injective := Grammar.slotIn_injective hrules
  idOf? := Grammar.idOf?_of_perm hrules
  nonterminalCount_eq := Grammar.nonterminalCount_of_perm hrules
  slotCount_eq := Grammar.slotCount_of_perm hrules
  alternatives := Grammar.alternatives_of_perm hrules
  entrySlots? := Grammar.entrySlots?_of_perm hrules
  next n := by
    cases hn : a.slot? n with
    | some found => rw [Grammar.slot?_slotIn hrules hn, Option.map_some, Option.map_some]
    | none =>
      have hge := Array.getElem?_eq_none_iff.mp hn
      have hnone : b.slot? n = none := by
        apply Array.getElem?_eq_none_iff.mpr
        exact Nat.le_trans (Nat.le_of_eq (Grammar.slotCount_of_perm hrules)) hge
      rw [Grammar.slotIn_of_slot?_eq_none hn, hnone, Option.map_none, Option.map_none]
  slot_succ := Grammar.slotIn_succ

end ContextFree
