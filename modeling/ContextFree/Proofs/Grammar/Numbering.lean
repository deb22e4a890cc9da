import ContextFree.Proofs.Grammar.Basic
import Mathlib.Algebra.GroupWithZero.Nat

/-!
# Slots as dotted positions

A run moves from slot to slot by number, so a number must never lead into another alternative.
`Grammar.slot?_eq_some_iff` says which slot has which number: the entry of its alternative, plus
its dot. From it follows all that a run relies on, in terms of `Grammar.Dotted`, which says what
stands in front of the dot of a slot and what behind it:

- every slot is a dotted position (`dotted_of_slot?`), and only one (`Dotted.unique`);
- the slot after one symbol more has the next number (`Dotted.advance`);
- the entry slots of a nonterminal are those with nothing in front of the dot
  (`mem_entrySlots_iff`), and each alternative has one (`exists_dotted_of_mem`).

The number of a nonterminal is the place of its rule (`Grammar.idOf?_eq_some_iff`), and how many
slots there are depends on the rules but not on their order (`Grammar.slotCount_eq`).
-/

namespace ContextFree

namespace Numbering

theorem getElem?_alternativeSlots {nonterminal alternative n : Nat} {symbols : Alternative Nat}
    {slot : Slot} :
    (alternativeSlots nonterminal alternative symbols)[n]? = some slot ↔
      n ≤ symbols.length ∧ slot = ⟨nonterminal, alternative, n, symbols[n]?⟩ := by
  rw [alternativeSlots, List.getElem?_map, Option.map_eq_some_iff]
  constructor
  · intro h
    obtain ⟨dot, hdot, rfl⟩ := h
    obtain ⟨hlt, rfl⟩ := List.getElem?_eq_some_iff.mp hdot
    simp only [List.length_range] at hlt
    simp only [List.getElem_range, and_true]
    omega
  · intro h
    obtain ⟨hle, rfl⟩ := h
    exact ⟨n, List.getElem?_range (by omega), rfl⟩

theorem length_alternativeSlots (nonterminal alternative : Nat) (symbols : Alternative Nat) :
    (alternativeSlots nonterminal alternative symbols).length = symbols.length + 1 := by
  simp only [alternativeSlots, List.length_map, List.length_range]

theorem le_of_getElem?_entriesFrom {first entry i : Nat} {alternatives : Alternatives Nat}
    (h : (entriesFrom first alternatives)[i]? = some entry) : first ≤ entry := by
  induction alternatives generalizing first i with
  | nil => cases h
  | cons symbols rest ih =>
    cases i with
    | zero =>
      cases h
      exact Nat.le_refl _
    | succ i =>
      have := ih h
      omega

/-- The slots of one nonterminal, from alternative `start` on: the slot `n` places after the first
is the one whose alternative's entry and whose dot add up to that place. -/
theorem getElem?_slots_of_alternatives (first : Nat) {nonterminal start n : Nat}
    {alternatives : Alternatives Nat} {slot : Slot} :
    ((alternatives.zipIdx start).flatMap fun (symbols, alternative) =>
        alternativeSlots nonterminal alternative symbols)[n]? = some slot ↔
      ∃ i symbols entry, alternatives[i]? = some symbols ∧
        (entriesFrom first alternatives)[i]? = some entry ∧ slot.dot ≤ symbols.length ∧
        first + n = entry + slot.dot ∧
        slot = ⟨nonterminal, start + i, slot.dot, symbols[slot.dot]?⟩ := by
  induction alternatives generalizing start first n with
  | nil => simp
  | cons symbols rest ih =>
    rw [List.zipIdx_cons, List.flatMap_cons, List.getElem?_append, length_alternativeSlots]
    split
    · next hlt =>
      rw [getElem?_alternativeSlots]
      constructor
      · intro h
        obtain ⟨hle, rfl⟩ := h
        exact ⟨0, symbols, first, rfl, rfl, hle, rfl, rfl⟩
      · intro h
        obtain ⟨i, other, entry, hother, hentry, hdot, hplace, hslot⟩ := h
        cases i with
        | zero =>
          cases hother
          cases hentry
          have : slot.dot = n := by omega
          rw [this] at hslot
          exact ⟨by omega, hslot⟩
        | succ i =>
          have hrest : (entriesFrom (first + symbols.length + 1) rest)[i]? = some entry := hentry
          have hle := le_of_getElem?_entriesFrom hrest
          omega
    · next hge =>
      rw [ih (first + symbols.length + 1)]
      constructor
      · intro h
        obtain ⟨i, other, entry, hother, hentry, hdot, hplace, hslot⟩ := h
        refine ⟨i + 1, other, entry, hother, hentry, hdot, by omega, ?_⟩
        rw [hslot]
        simp only [Slot.mk.injEq, and_true, true_and]
        omega
      · intro h
        obtain ⟨i, other, entry, hother, hentry, hdot, hplace, hslot⟩ := h
        cases i with
        | zero =>
          obtain rfl : symbols = other := Option.some.inj hother
          obtain rfl : first = entry := Option.some.inj hentry
          omega
        | succ i =>
          refine ⟨i, other, entry, hother, hentry, hdot, by omega, ?_⟩
          rw [hslot]
          simp only [Slot.mk.injEq, and_true, true_and]
          omega

theorem length_nonterminalSlots (nonterminal : Nat) (alternatives : Alternatives Nat) :
    (nonterminalSlots nonterminal alternatives).length = countSlots alternatives := by
  unfold nonterminalSlots
  generalize 0 = start
  induction alternatives generalizing start with
  | nil => rfl
  | cons symbols rest ih =>
    rw [List.zipIdx_cons, List.flatMap_cons, List.length_append, length_alternativeSlots, ih,
      countSlots]

/-- An entry of the alternatives of one nonterminal is a slot of that nonterminal. -/
theorem entry_add_lt {first entry i : Nat} {alternatives : Alternatives Nat}
    {symbols : Alternative Nat} (hsymbols : alternatives[i]? = some symbols)
    (hentry : (entriesFrom first alternatives)[i]? = some entry) :
    entry + symbols.length < first + countSlots alternatives := by
  induction alternatives generalizing first i with
  | nil => cases hsymbols
  | cons head rest ih =>
    cases i with
    | zero =>
      cases hsymbols
      cases hentry
      unfold countSlots
      omega
    | succ i =>
      have := ih hsymbols hentry
      unfold countSlots
      omega

theorem le_of_getElem?_entryTable {first entry i j : Nat} {table : List (Alternatives Nat)}
    {entries : List Nat} (hentries : (entryTable first table)[i]? = some entries)
    (hentry : entries[j]? = some entry) : first ≤ entry := by
  induction table generalizing first i with
  | nil => cases hentries
  | cons alternatives rest ih =>
    cases i with
    | zero =>
      cases hentries
      exact le_of_getElem?_entriesFrom hentry
    | succ i =>
      have := ih hentries
      omega

/-- The slots of a grammar from nonterminal `start` on. -/
theorem getElem?_slots_of_table (first : Nat) {start n : Nat} {table : List (Alternatives Nat)}
    {slot : Slot} :
    ((table.zipIdx start).flatMap fun (alternatives, nonterminal) =>
        nonterminalSlots nonterminal alternatives)[n]? = some slot ↔
      ∃ i alternatives symbols entries entry, table[i]? = some alternatives ∧
        alternatives[slot.alternative]? = some symbols ∧
        (entryTable first table)[i]? = some entries ∧ entries[slot.alternative]? = some entry ∧
        slot.dot ≤ symbols.length ∧ first + n = entry + slot.dot ∧
        slot.nonterminal = start + i ∧ slot.next = symbols[slot.dot]? := by
  induction table generalizing start first n with
  | nil => simp
  | cons head rest ih =>
    rw [List.zipIdx_cons, List.flatMap_cons, List.getElem?_append, length_nonterminalSlots]
    split
    · next hlt =>
      show (nonterminalSlots start head)[n]? = some slot ↔ _
      unfold nonterminalSlots
      rw [getElem?_slots_of_alternatives first]
      constructor
      · intro h
        obtain ⟨i, symbols, entry, hsymbols, hentry, hdot, hplace, hslot⟩ := h
        rw [hslot]
        exact ⟨0, head, symbols, entriesFrom first head, entry, rfl,
          by simpa using hsymbols, rfl, by simpa using hentry, hdot, hplace, rfl, rfl⟩
      · intro h
        obtain ⟨i, alternatives, symbols, entries, entry, halternatives, hsymbols, hentries,
          hentry, hdot, hplace, hnonterminal, hnext⟩ := h
        cases i with
        | zero =>
          cases halternatives
          cases hentries
          refine ⟨slot.alternative, symbols, entry, hsymbols, hentry, hdot, hplace, ?_⟩
          obtain ⟨nonterminal, alternative, dot, next⟩ := slot
          simp only [Slot.mk.injEq, Nat.zero_add, true_and]
          exact ⟨hnonterminal, hnext⟩
        | succ i =>
          have hrest : (entryTable (first + countSlots head) rest)[i]? = some entries := hentries
          have hle := le_of_getElem?_entryTable hrest hentry
          omega
    · next hge =>
      rw [ih (first + countSlots head)]
      constructor
      · intro h
        obtain ⟨i, alternatives, symbols, entries, entry, halternatives, hsymbols, hentries,
          hentry, hdot, hplace, hnonterminal, hnext⟩ := h
        exact ⟨i + 1, alternatives, symbols, entries, entry, halternatives, hsymbols, hentries,
          hentry, hdot, by omega, by omega, hnext⟩
      · intro h
        obtain ⟨i, alternatives, symbols, entries, entry, halternatives, hsymbols, hentries,
          hentry, hdot, hplace, hnonterminal, hnext⟩ := h
        cases i with
        | zero =>
          cases halternatives
          cases hentries
          have := entry_add_lt hsymbols hentry
          omega
        | succ i =>
          exact ⟨i, alternatives, symbols, entries, entry, halternatives, hsymbols, hentries,
            hentry, hdot, by omega, by omega, hnext⟩

theorem length_entriesFrom (first : Nat) (alternatives : Alternatives Nat) :
    (entriesFrom first alternatives).length = alternatives.length := by
  induction alternatives generalizing first with
  | nil => rfl
  | cons symbols rest ih => simp only [entriesFrom, List.length_cons, ih]

theorem length_entryTable (first : Nat) (table : List (Alternatives Nat)) :
    (entryTable first table).length = table.length := by
  induction table generalizing first with
  | nil => rfl
  | cons alternatives rest ih => simp only [entryTable, List.length_cons, ih]

theorem getElem?_entryTable (first : Nat) {i : Nat} {table : List (Alternatives Nat)}
    {alternatives : Alternatives Nat} (h : table[i]? = some alternatives) :
    ∃ from', (entryTable first table)[i]? = some (entriesFrom from' alternatives) := by
  induction table generalizing first i with
  | nil => cases h
  | cons head rest ih =>
    cases i with
    | zero =>
      obtain rfl : head = alternatives := Option.some.inj h
      exact ⟨first, rfl⟩
    | succ i => exact ih _ h

/-- There is a slot for each symbol, and one more at the end of each alternative. -/
theorem countSlots_eq (alternatives : Alternatives Nat) :
    countSlots alternatives =
      (alternatives.map fun symbols => symbols.length + 1).sum := by
  induction alternatives with
  | nil => rfl
  | cons symbols rest ih => rw [countSlots, ih, List.map_cons, List.sum_cons]

/-- References are numbers of nonterminals. -/
theorem nonterminal_lt_of_mem_resolve {rules : Ruleset} {alternatives : Alternatives Nat}
    {symbols : Alternative Nat} {id : Nat} (hne : rules.entries ≠ [])
    (halternatives : alternatives ∈ resolve rules) (hsymbols : symbols ∈ alternatives)
    (hid : .nonterminal id ∈ symbols) : id < rules.entries.length := by
  obtain ⟨rule, -, rfl⟩ := List.mem_map.mp halternatives
  obtain ⟨named, -, rfl⟩ := List.mem_map.mp hsymbols
  obtain ⟨symbol, -, hsymbol⟩ := List.mem_map.mp hid
  cases symbol with
  | terminal text => cases hsymbol
  | nonterminal name =>
    obtain rfl := Symbol.nonterminal.inj hsymbol
    show (rules.indexOf? name).getD 0 < rules.entries.length
    cases hindex : rules.indexOf? name with
    | none => exact List.length_pos_iff.mpr hne
    | some i =>
      obtain ⟨hlt, -⟩ := List.idxOf?_eq_some_iff.mp hindex
      simpa only [Option.getD_some, Definitions.names, List.length_map] using hlt

end Numbering

namespace Grammar

variable {grammar : Grammar}

theorem nonterminalCount_eq : grammar.nonterminalCount = grammar.rules.entries.length := by
  simp only [nonterminalCount, grammar.numbering_eq, Numbering.ofRules, List.size_toArray,
    Numbering.resolve, List.length_map]

theorem rules_ne_nil : grammar.rules.entries ≠ [] := by
  intro h
  have := grammar.start_defined
  simp only [Definitions.contains, Definitions.names, h, List.map_nil, List.contains_nil,
    Bool.false_eq_true] at this

theorem mem_alternatives_iff {id : Nat} {symbols : Alternative Nat} :
    symbols ∈ grammar.alternatives id ↔
      ∃ alternatives, (Numbering.resolve grammar.rules)[id]? = some alternatives ∧
        symbols ∈ alternatives := by
  simp only [alternatives, grammar.numbering_eq, Numbering.ofRules, List.getElem?_toArray]
  cases (Numbering.resolve grammar.rules)[id]? with
  | none => simp
  | some alternatives => simp

/-- Only nonterminals have alternatives. -/
theorem lt_of_mem_alternatives {id : Nat} {symbols : Alternative Nat}
    (h : symbols ∈ grammar.alternatives id) : id < grammar.nonterminalCount := by
  obtain ⟨alternatives, halternatives, -⟩ := mem_alternatives_iff.mp h
  have hlt := (List.getElem?_eq_some_iff.mp halternatives).1
  simpa only [nonterminalCount_eq, Numbering.resolve, List.length_map] using hlt

/-- Alternatives only call nonterminals. -/
theorem lt_of_nonterminal_mem {id callee : Nat} {symbols : Alternative Nat}
    (h : symbols ∈ grammar.alternatives id) (hcallee : .nonterminal callee ∈ symbols) :
    callee < grammar.nonterminalCount := by
  obtain ⟨alternatives, halternatives, hsymbols⟩ := mem_alternatives_iff.mp h
  rw [nonterminalCount_eq]
  exact Numbering.nonterminal_lt_of_mem_resolve rules_ne_nil (List.mem_of_getElem? halternatives)
    hsymbols hcallee

/-- A nonterminal has entry slots, one for each alternative. -/
theorem entrySlots?_of_lt {id : Nat} (h : id < grammar.nonterminalCount) :
    ∃ entries, grammar.entrySlots? id = some entries ∧
      entries.length = (grammar.alternatives id).length := by
  have hlt : id < (Numbering.resolve grammar.rules).length := by
    simpa only [nonterminalCount_eq, Numbering.resolve, List.length_map] using h
  have halternatives := List.getElem?_eq_getElem hlt
  obtain ⟨first, hentries⟩ := Numbering.getElem?_entryTable 0 halternatives
  refine ⟨_, by simpa only [entrySlots?, grammar.numbering_eq, Numbering.ofRules,
    List.getElem?_toArray] using hentries, ?_⟩
  simp only [Numbering.length_entriesFrom, alternatives, grammar.numbering_eq, Numbering.ofRules,
    List.getElem?_toArray, halternatives, Option.getD_some]

/-- Which slot has which number: that of its alternative's entry, plus its dot. -/
theorem slot?_eq_some_iff {n : Nat} {slot : Slot} :
    grammar.slot? n = some slot ↔
      ∃ symbols entries entry,
        (grammar.alternatives slot.nonterminal)[slot.alternative]? = some symbols ∧
        grammar.entrySlots? slot.nonterminal = some entries ∧
        entries[slot.alternative]? = some entry ∧ slot.dot ≤ symbols.length ∧
        n = entry + slot.dot ∧ slot.next = symbols[slot.dot]? := by
  simp only [slot?, entrySlots?, alternatives, grammar.numbering_eq, Numbering.ofRules,
    List.getElem?_toArray]
  rw [Numbering.slotTable, Numbering.getElem?_slots_of_table 0]
  constructor
  · intro h
    obtain ⟨i, alternatives, symbols, entries, entry, halternatives, hsymbols, hentries, hentry,
      hdot, hplace, hnonterminal, hnext⟩ := h
    rw [Nat.zero_add] at hnonterminal hplace
    rw [hnonterminal, halternatives]
    exact ⟨symbols, entries, entry, hsymbols, hentries, hentry, hdot, hplace, hnext⟩
  · intro h
    obtain ⟨symbols, entries, entry, hsymbols, hentries, hentry, hdot, hplace, hnext⟩ := h
    cases htable : (Numbering.resolve grammar.rules)[slot.nonterminal]? with
    | none =>
      rw [htable] at hsymbols
      cases hsymbols
    | some alternatives =>
      rw [htable] at hsymbols
      exact ⟨slot.nonterminal, alternatives, symbols, entries, entry, htable, hsymbols, hentries,
        hentry, hdot, by omega, by omega, hnext⟩

/-- A slot is a dotted position in one of a nonterminal's alternatives, with the symbols `before` in
front of the dot and the symbols `after` behind it. -/
def Dotted (grammar : Grammar) (n id : Nat) (before after : Alternative Nat) : Prop :=
  ∃ alternative, (grammar.alternatives id)[alternative]? = some (before ++ after) ∧
    grammar.slot? n = some ⟨id, alternative, before.length, after.head?⟩

theorem Dotted.mem_alternatives {n id : Nat} {before after : Alternative Nat}
    (h : grammar.Dotted n id before after) : before ++ after ∈ grammar.alternatives id := by
  obtain ⟨alternative, hsymbols, -⟩ := h
  exact List.mem_of_getElem? hsymbols

theorem Dotted.lt_slotCount {n id : Nat} {before after : Alternative Nat}
    (h : grammar.Dotted n id before after) : n < grammar.slotCount := by
  obtain ⟨alternative, -, hslot⟩ := h
  exact (Array.getElem?_eq_some_iff.mp hslot).1

/-- Every slot is such a position, and what it keeps is the symbol behind the dot. -/
theorem dotted_of_slot? {n : Nat} {slot : Slot} (h : grammar.slot? n = some slot) :
    ∃ before after, grammar.Dotted n slot.nonterminal before after ∧ slot.next = after.head? := by
  obtain ⟨symbols, entries, entry, hsymbols, -, -, hdot, -, hnext⟩ := slot?_eq_some_iff.mp h
  have hhead : slot.next = (symbols.drop slot.dot).head? := by
    rw [hnext, List.head?_drop]
  refine ⟨symbols.take slot.dot, symbols.drop slot.dot, ⟨slot.alternative, ?_, ?_⟩, hhead⟩
  · rw [List.take_append_drop]
    exact hsymbols
  · rw [h, List.length_take, Nat.min_eq_left hdot, ← hhead]

/-- A slot is one position only. -/
theorem Dotted.unique {n id id' : Nat} {before before' after after' : Alternative Nat}
    (h : grammar.Dotted n id before after) (h' : grammar.Dotted n id' before' after') :
    id = id' ∧ before = before' ∧ after = after' := by
  obtain ⟨alternative, hsymbols, hslot⟩ := h
  obtain ⟨alternative', hsymbols', hslot'⟩ := h'
  rw [hslot, Option.some.injEq, Slot.mk.injEq] at hslot'
  obtain ⟨rfl, rfl, hlength, -⟩ := hslot'
  rw [hsymbols, Option.some.injEq] at hsymbols'
  obtain ⟨hbefore, hafter⟩ := List.append_inj hsymbols' hlength
  exact ⟨rfl, hbefore, hafter⟩

/-- The slot after one symbol more has the next number. -/
theorem Dotted.advance {n id : Nat} {symbol : Symbol Nat} {before after : Alternative Nat}
    (h : grammar.Dotted n id before (symbol :: after)) :
    grammar.Dotted (n + 1) id (before ++ [symbol]) after := by
  obtain ⟨alternative, hsymbols, hslot⟩ := h
  obtain ⟨symbols, entries, entry, hsymbols', hentries, hentry, hdot, hplace, -⟩ :=
    slot?_eq_some_iff.mp hslot
  refine ⟨alternative, by simpa using hsymbols, slot?_eq_some_iff.mpr
    ⟨symbols, entries, entry, hsymbols', hentries, hentry, ?_, ?_, ?_⟩⟩
  all_goals
    obtain rfl : before ++ symbol :: after = symbols := by
      simpa only [hsymbols, Option.some.injEq] using hsymbols'
  · simp
  · simp only [List.length_append, List.length_cons, List.length_nil] at hplace ⊢
    omega
  · rw [List.head?_eq_getElem?, List.getElem?_append_right (by simp)]
    simp

/-- The slot after some symbols more is as many numbers on. -/
theorem Dotted.advance_append {n id : Nat} {symbols before after : Alternative Nat}
    (h : grammar.Dotted n id before (symbols ++ after)) :
    grammar.Dotted (n + symbols.length) id (before ++ symbols) after := by
  induction symbols generalizing n before with
  | nil => simpa using h
  | cons symbol symbols ih =>
    have hnext := ih h.advance
    rwa [List.append_assoc, List.singleton_append, Nat.add_assoc, Nat.add_comm 1] at hnext

/-- The slot at the end of an alternative is as many numbers after its entry as it has symbols. -/
theorem Dotted.end_of_entry {n id : Nat} {symbols : Alternative Nat}
    (h : grammar.Dotted n id [] symbols) : grammar.Dotted (n + symbols.length) id symbols [] := by
  rw [← List.append_nil symbols] at h
  exact h.advance_append

/-- Each slot is as many numbers after the entry of its alternative as symbols stand in front of its
dot. -/
theorem Dotted.exists_entry {n id : Nat} {before after : Alternative Nat}
    (h : grammar.Dotted n id before after) :
    ∃ entry, n = entry + before.length ∧ grammar.Dotted entry id [] (before ++ after) := by
  obtain ⟨alternative, hsymbols, hslot⟩ := h
  obtain ⟨symbols, entries, entry, hsymbols', hentries, hentry, -, hplace, -⟩ :=
    slot?_eq_some_iff.mp hslot
  refine ⟨entry, hplace, alternative, hsymbols, slot?_eq_some_iff.mpr
    ⟨before ++ after, entries, entry, hsymbols, hentries, hentry, Nat.zero_le _, rfl, ?_⟩⟩
  exact List.head?_eq_getElem?

/-- An entry slot stands at the start of the alternative that it is the entry of. -/
theorem dotted_of_getElem?_entrySlots {id n alternative : Nat} {entries : List Nat}
    {symbols : Alternative Nat} (hentries : grammar.entrySlots? id = some entries)
    (hentry : entries[alternative]? = some n)
    (hsymbols : (grammar.alternatives id)[alternative]? = some symbols) :
    grammar.Dotted n id [] symbols := by
  refine ⟨alternative, hsymbols, slot?_eq_some_iff.mpr
    ⟨symbols, entries, n, hsymbols, hentries, hentry, Nat.zero_le _, rfl, ?_⟩⟩
  exact List.head?_eq_getElem?

theorem length_entrySlots {id : Nat} {entries : List Nat}
    (h : grammar.entrySlots? id = some entries) :
    entries.length = (grammar.alternatives id).length := by
  have hlt : id < grammar.nonterminalCount := by
    simp only [entrySlots?, grammar.numbering_eq, Numbering.ofRules, List.getElem?_toArray] at h
    simpa only [nonterminalCount_eq, Numbering.resolve, Numbering.length_entryTable,
      List.length_map] using (List.getElem?_eq_some_iff.mp h).1
  obtain ⟨entries', hentries, hlength⟩ := entrySlots?_of_lt hlt
  rw [h, Option.some.injEq] at hentries
  rw [hentries, hlength]

/-- The entry slots of a nonterminal are those with the dot at the start of an alternative. -/
theorem mem_entrySlots_iff {id n : Nat} {entries : List Nat}
    (hentries : grammar.entrySlots? id = some entries) :
    n ∈ entries ↔ ∃ symbols, grammar.Dotted n id [] symbols := by
  constructor
  · intro hn
    obtain ⟨alternative, hentry⟩ := List.mem_iff_getElem?.mp hn
    have hlt := (List.getElem?_eq_some_iff.mp hentry).1
    rw [length_entrySlots hentries] at hlt
    exact ⟨_, dotted_of_getElem?_entrySlots hentries hentry (List.getElem?_eq_getElem hlt)⟩
  · intro h
    obtain ⟨symbols, alternative, hsymbols, hslot⟩ := h
    obtain ⟨symbols', entries', entry, -, hentries', hentry, -, hplace, -⟩ :=
      slot?_eq_some_iff.mp hslot
    rw [hentries, Option.some.injEq] at hentries'
    subst hentries'
    rw [hplace]
    exact List.mem_of_getElem? hentry

/-- Each alternative has an entry slot. -/
theorem exists_dotted_of_mem {id : Nat} {symbols : Alternative Nat}
    (h : symbols ∈ grammar.alternatives id) : ∃ n, grammar.Dotted n id [] symbols := by
  obtain ⟨entries, hentries, hlength⟩ := entrySlots?_of_lt (lt_of_mem_alternatives h)
  obtain ⟨alternative, hsymbols⟩ := List.mem_iff_getElem?.mp h
  have hlt := (List.getElem?_eq_some_iff.mp hsymbols).1
  rw [← hlength] at hlt
  exact ⟨_, dotted_of_getElem?_entrySlots hentries (List.getElem?_eq_getElem hlt) hsymbols⟩

/-! ## Numbers and rules -/

section Rule

variable {name : String} {id : Nat} {rule : String × Alternatives String}

/-- The number of a nonterminal is the place of its rule. -/
theorem idOf?_eq_some_iff : grammar.idOf? name = some id ↔
    ∃ alternatives, grammar.rules.entries[id]? = some (name, alternatives) := by
  have hnames : grammar.rules.names[id]? = grammar.rules.entries[id]?.map Prod.fst :=
    List.getElem?_map
  constructor
  · intro hid
    obtain ⟨hlt, hname, -⟩ := List.idxOf?_eq_some_iff.mp hid
    rw [List.getElem?_eq_getElem hlt, eq_comm, Option.map_eq_some_iff] at hnames
    obtain ⟨⟨other, alternatives⟩, hentry, rfl⟩ := hnames
    exact ⟨alternatives, hname ▸ hentry⟩
  · intro h
    obtain ⟨alternatives, hentry⟩ := h
    rw [hentry] at hnames
    obtain ⟨hlt, hname⟩ := List.getElem?_eq_some_iff.mp hnames
    refine List.idxOf?_eq_some_iff.mpr ⟨hlt, hname, fun other hother hsame => ?_⟩
    have hplace := (grammar.rules.names_nodup.getElem_inj_iff).mp (hsame.trans hname.symm)
    exact Nat.ne_of_lt hother hplace

/-- A number that a name has is called by that name. -/
theorem nameOf_of_idOf? (h : grammar.idOf? name = some id) : grammar.nameOf id = name := by
  obtain ⟨hlt, hname, -⟩ := List.idxOf?_eq_some_iff.mp h
  simp only [nameOf, grammar.numbering_eq, Numbering.ofRules, List.getElem?_toArray,
    List.getElem?_eq_getElem hlt, hname, Option.getD_some]

/-- The nonterminals in definition order are the names of the numbers in ascending order. -/
theorem nonterminals_eq :
    grammar.nonterminals = (List.range grammar.nonterminalCount).map grammar.nameOf := by
  have hlength : grammar.nonterminals.length = grammar.nonterminalCount := by
    simp only [nonterminals, Definitions.names, nonterminalCount_eq, List.length_map]
  refine List.ext_getElem (by rw [hlength, List.length_map, List.length_range]) ?_
  intro id hid _
  simp only [List.getElem_map, List.getElem_range, nameOf, grammar.numbering_eq,
    Numbering.ofRules, List.getElem?_toArray]
  exact (congrArg (·.getD "?") (List.getElem?_eq_getElem hid)).symm

/-- The name of a nonterminal has its number. -/
theorem idOf?_nameOf (h : id < grammar.nonterminalCount) :
    grammar.idOf? (grammar.nameOf id) = some id := by
  have hlt : id < grammar.rules.entries.length := by
    simpa only [nonterminalCount_eq, Numbering.resolve, List.length_map] using h
  have hid := idOf?_eq_some_iff.mpr ⟨_, List.getElem?_eq_getElem hlt⟩
  rwa [nameOf_of_idOf? hid]

/-- A nonterminal has the alternatives of its rule, with a number for each name. -/
theorem alternatives_eq (h : grammar.rules.entries[id]? = some rule) :
    grammar.alternatives id = rule.2.map
      (List.map (Symbol.map fun name => (grammar.idOf? name).getD 0)) := by
  simp only [alternatives, grammar.numbering_eq, Numbering.ofRules, Numbering.resolve,
    List.getElem?_toArray, List.getElem?_map, h, Option.map_some, Option.getD_some]
  rfl

/-- A number past the last nonterminal has no alternatives. -/
theorem alternatives_of_getElem?_eq_none (h : grammar.rules.entries[id]? = none) :
    grammar.alternatives id = [] := by
  simp only [alternatives, grammar.numbering_eq, Numbering.ofRules, Numbering.resolve,
    List.getElem?_toArray, List.getElem?_map, h, Option.map_none, Option.getD_none]

/-- What an alternative spells is a terminal of the grammar. -/
theorem mem_terminals_of_mem {symbols : Alternative Nat} {text : String}
    (hsymbols : symbols ∈ grammar.alternatives id) (htext : .terminal text ∈ symbols) :
    text ∈ grammar.terminals := by
  have hlt := lt_of_mem_alternatives hsymbols
  rw [nonterminalCount_eq] at hlt
  have hrule := List.getElem?_eq_getElem hlt
  rw [alternatives_eq hrule] at hsymbols
  obtain ⟨alternative, halternative, rfl⟩ := List.mem_map.mp hsymbols
  obtain ⟨symbol, hsymbol, heq⟩ := List.mem_map.mp htext
  cases symbol with
  | nonterminal name => cases heq
  | terminal other =>
    obtain rfl := Symbol.terminal.inj heq
    exact mem_terminals_iff.mpr
      ⟨_, List.mem_of_getElem? hrule, alternative, halternative, hsymbol⟩

/-- Whatever a rule calls has a number. -/
theorem exists_idOf?_of_mem {alternative : Alternative String}
    (hrule : rule ∈ grammar.rules.entries) (halternative : alternative ∈ rule.2)
    (hname : .nonterminal name ∈ alternative) : ∃ id, grammar.idOf? name = some id := by
  have hclosed := Definitions.problems_eq_nil_iff.mp grammar.closed
  have hcontains := (hclosed rule hrule alternative halternative _ hname).2 name rfl
  obtain ⟨⟨other, alternatives⟩, hmem, rfl⟩ :=
    List.mem_map.mp (Definitions.contains_iff.mp hcontains)
  obtain ⟨id, hid⟩ := List.getElem?_of_mem hmem
  exact ⟨id, idOf?_eq_some_iff.mpr ⟨alternatives, hid⟩⟩

theorem entrySlots?_eq_none_iff :
    grammar.entrySlots? id = none ↔ grammar.nonterminalCount ≤ id := by
  simp only [entrySlots?, grammar.numbering_eq, Numbering.ofRules, List.getElem?_toArray,
    List.getElem?_eq_none_iff, Numbering.length_entryTable, nonterminalCount_eq, Numbering.resolve,
    List.length_map]

/-- There are as many slots as there are symbols and alternatives. -/
theorem slotCount_eq : grammar.slotCount = (grammar.rules.entries.map fun rule =>
    (rule.2.map fun symbols => symbols.length + 1).sum).sum := by
  have hcount : ∀ alternatives : Alternatives String, ∀ f : String → Nat,
      Numbering.countSlots (alternatives.map (List.map (Symbol.map f))) =
        (alternatives.map fun symbols => symbols.length + 1).sum := by
    intro alternatives f
    rw [Numbering.countSlots_eq, List.map_map]
    refine congrArg List.sum (List.map_congr_left fun symbols _ => ?_)
    rw [Function.comp_apply, List.length_map]
  have hslots : grammar.slotCount =
      ((Numbering.resolve grammar.rules).map Numbering.countSlots).sum := by
    simp only [slotCount, grammar.numbering_eq, Numbering.ofRules, List.size_toArray,
      Numbering.slotTable, List.length_flatMap, Numbering.length_nonterminalSlots]
    refine congrArg List.sum ?_
    rw [← List.zipIdx_map_fst 0 (Numbering.resolve grammar.rules), List.map_map,
      List.zipIdx_map_fst]
    rfl
  rw [hslots, Numbering.resolve, List.map_map]
  exact congrArg List.sum (List.map_congr_left fun rule _ => hcount rule.2 _)

end Rule

/-- A slot is found from its nonterminal, its alternative and its dot. -/
theorem eq_of_slot? {n other : Nat} {found found' : Slot} (h : grammar.slot? n = some found)
    (h' : grammar.slot? other = some found') (hnonterminal : found.nonterminal = found'.nonterminal)
    (halternative : found.alternative = found'.alternative) (hdot : found.dot = found'.dot) :
    n = other := by
  obtain ⟨-, entries, entry, -, hentries, hentry, -, hplace, -⟩ := slot?_eq_some_iff.mp h
  obtain ⟨-, entries', entry', -, hentries', hentry', -, hplace', -⟩ := slot?_eq_some_iff.mp h'
  rw [← hnonterminal, hentries, Option.some.injEq] at hentries'
  rw [← halternative, ← hentries', hentry, Option.some.injEq] at hentry'
  omega

end Grammar

end ContextFree
