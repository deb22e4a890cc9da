/-!
# Sets of small numbers

A set of numbers below a fixed capacity, one bit for each, in words of 64 bits. The capacity asked
for is rounded up to whole words. `insert?` tells whether the number is new, and refuses a number
past the capacity.

How many words these are is computed in machine words (`withCapacity`). Where that sum is too large
for one, so is the set for any memory. A run, whose input is in memory, is taken to have the room that
it needs, and there the sum is one of natural numbers (`roomFor`).

The members are listed one by one: `next` goes from a place in the words to the next bit that is
set, and on to the place behind it. A listing comes to an end because each place is further on than
the one before (`place_lt_of_next`), and `toList` is what it answers until then.
-/

namespace ContextFree

/-- A set of numbers below 64 times the number of its words. -/
structure BitSet where
  words : Array UInt64

namespace BitSet

/-- The empty set with room for at least the numbers below `count`, however large that is. -/
def roomFor (count : Nat) : BitSet :=
  ⟨Array.replicate ((count + 63) / 64) 0⟩

/-- The empty set for the numbers below a count that is a machine word. The sum that rounds it up is
one too and starts again from 0 if it is too large, as it is for the 63 largest counts: they get a set
without words. (A build that checks its sums stops there.) For every other count this is `roomFor`. -/
def withCapacity (count : UInt64) : BitSet :=
  ⟨Array.replicate ((count + 63) / 64).toNat 0⟩

/-- How many numbers there is room for. -/
def capacity (set : BitSet) : Nat :=
  64 * set.words.size

/-- The word in which only the bit of a number is set. -/
def mask (number : Nat) : UInt64 :=
  1 <<< (number % 64).toUInt64

/-- Whether a word has the bit of a number. -/
def wordHas (word : UInt64) (number : Nat) : Bool :=
  word &&& mask number != 0

/-- Whether a number is in the set. -/
def contains (set : BitSet) (number : Nat) : Bool :=
  match set.words[number / 64]? with
  | some word => wordHas word number
  | none => false

/-- The set with a number in it, and whether the number is new; nothing if there is no room. -/
def insert? (set : BitSet) (number : Nat) : Option (Bool × BitSet) :=
  match set.words[number / 64]? with
  | some word =>
    some (!wordHas word number, ⟨set.words.setIfInBounds (number / 64) (word ||| mask number)⟩)
  | none => none

/-! ## Listing the members -/

/-- How many bits of a word come before the lowest that is set; all 64 if none is. -/
def trailingZeros (word : UInt64) : Nat :=
  word.toBitVec.ctz.toNat

/-- A word without its bits below a given one. -/
def clearBelow (word : UInt64) (bit : Nat) : UInt64 :=
  word &&& ~~~(mask bit - 1)

/-- The lowest bit of a word that is set, from a given one on. -/
def lowestFrom? (word : UInt64) (bit : Fin 65) : Option (Fin 64) :=
  -- Behind the last bit there is none to find, and no mask either: that of 64 would be that of 0.
  if bit.val < 64 then
    if h : trailingZeros (clearBelow word bit) < 64 then some ⟨_, h⟩ else none
  else none

/-- Where a listing has got to: to a word, and to the bit of it from which on it looks for more.
Behind the last bit of the word that is 64. -/
structure Cursor where
  index : Nat
  bit : Fin 65

/-- A listing begins at the first bit of the first word. -/
def Cursor.start : Cursor :=
  ⟨0, 0⟩

/-- The number that the bit at a place stands for. -/
def Cursor.place (cursor : Cursor) : Nat :=
  64 * cursor.index + cursor.bit

/-- The next member, if there is one, and the place from which on to look for more. -/
def next (set : BitSet) (cursor : Cursor) : Option Nat × Cursor :=
  if h : cursor.index < set.words.size then
    match lowestFrom? set.words[cursor.index] cursor.bit with
    | some bit => (some (64 * cursor.index + bit), ⟨cursor.index, bit.succ⟩)
    | none => set.next ⟨cursor.index + 1, 0⟩
  else (none, cursor)
termination_by set.words.size - cursor.index

theorem toBitVec_mask (number : Nat) :
    (mask number).toBitVec = BitVec.twoPow 64 (number % 64) := by
  simp [mask, UInt64.toBitVec_shiftLeft, BitVec.twoPow, BitVec.shiftLeft_eq']

/-- The mask of a bit less one has the bits below that one. -/
theorem getLsbD_mask_sub_one {bit : Nat} (h : bit < 64) (other : Nat) :
    (mask bit - 1).toBitVec.getLsbD other = decide (other < bit) := by
  have hlt : 2 ^ bit < 2 ^ 64 := Nat.pow_lt_pow_right (by decide) h
  have hone : 1#64 ≤ BitVec.twoPow 64 bit := by
    rw [BitVec.le_def, BitVec.toNat_twoPow_of_lt h]
    exact Nat.two_pow_pos bit
  have hsub : (mask bit - 1).toBitVec = BitVec.ofNat 64 (2 ^ bit - 1) := by
    rw [UInt64.toBitVec_sub, toBitVec_mask, Nat.mod_eq_of_lt h]
    apply BitVec.eq_of_toNat_eq
    rw [UInt64.toBitVec_one, BitVec.toNat_sub_of_le hone, BitVec.toNat_twoPow_of_lt h,
      BitVec.toNat_ofNat, BitVec.toNat_ofNat, Nat.mod_eq_of_lt (a := 2 ^ bit - 1) (by omega)]
  rw [hsub, BitVec.getLsbD_ofNat, Nat.testBit_two_pow_sub_one, ← Bool.decide_and]
  exact decide_eq_decide.mpr (by omega)

theorem getLsbD_clearBelow (word : UInt64) {bit : Nat} (h : bit < 64) (other : Nat) :
    (clearBelow word bit).toBitVec.getLsbD other =
      (word.toBitVec.getLsbD other && decide (bit ≤ other)) := by
  rw [clearBelow, UInt64.toBitVec_and, UInt64.toBitVec_not, BitVec.getLsbD_and, BitVec.getLsbD_not,
    getLsbD_mask_sub_one h]
  by_cases hother : other < 64
  · rw [decide_eq_true hother, Bool.true_and, ← decide_not]
    congr 1
    exact decide_eq_decide.mpr Nat.not_lt
  · rw [BitVec.getLsbD_of_ge _ _ (Nat.not_lt.mp hother), Bool.false_and, Bool.false_and]

theorem getLsbD_trailingZeros {word : UInt64} (h : trailingZeros word < 64) :
    word.toBitVec.getLsbD (trailingZeros word) = true :=
  BitVec.getLsbD_true_ctz_of_ne_zero (BitVec.ctz_lt_iff_ne_zero.mp h)

theorem getLsbD_of_lt_trailingZeros {word : UInt64} {bit : Nat} (h : bit < trailingZeros word) :
    word.toBitVec.getLsbD bit = false :=
  BitVec.getLsbD_false_of_lt_ctz h

/-- The bit that is found is set, and it is the first one from the given one on. -/
theorem lowestFrom?_eq_some {word : UInt64} {bit : Fin 65} {lowest : Fin 64}
    (h : lowestFrom? word bit = some lowest) :
    bit.val ≤ lowest ∧ word.toBitVec.getLsbD lowest = true ∧
      ∀ other, bit.val ≤ other → other < lowest → word.toBitVec.getLsbD other = false := by
  simp only [lowestFrom?, Option.ite_none_right_eq_some, Option.dite_none_right_eq_some,
    Option.some.injEq] at h
  obtain ⟨hbit, hlowest, rfl⟩ := h
  have hset := getLsbD_trailingZeros hlowest
  rw [getLsbD_clearBelow word hbit, Bool.and_eq_true, decide_eq_true_eq] at hset
  refine ⟨hset.2, hset.1, fun other hle hlt => ?_⟩
  have hclear := getLsbD_of_lt_trailingZeros hlt
  rwa [getLsbD_clearBelow word hbit, decide_eq_true hle, Bool.and_true] at hclear

/-- If no bit is found, none is set from the given one on. -/
theorem lowestFrom?_eq_none {word : UInt64} {bit : Fin 65} (h : lowestFrom? word bit = none)
    {other : Nat} (hle : bit.val ≤ other) : word.toBitVec.getLsbD other = false := by
  by_cases hother : other < 64
  · have hbit : bit.val < 64 := Nat.lt_of_le_of_lt hle hother
    have hzeros : ¬ trailingZeros (clearBelow word bit) < 64 := by
      simpa [lowestFrom?, hbit] using h
    have hclear := getLsbD_of_lt_trailingZeros
      (Nat.lt_of_lt_of_le hother (Nat.not_lt.mp hzeros))
    rwa [getLsbD_clearBelow word hbit, decide_eq_true hle, Bool.and_true] at hclear
  · exact BitVec.getLsbD_of_ge _ _ (Nat.not_lt.mp hother)

/-- A listing goes on behind the member that it answers. -/
theorem place_lt_of_next {set : BitSet} {cursor after : Cursor} {number : Nat}
    (h : set.next cursor = (some number, after)) :
    cursor.place < after.place ∧ after.place ≤ set.capacity := by
  fun_induction next set cursor with
  | case1 cursor hlt bit hlowest =>
    cases h
    have hle := (lowestFrom?_eq_some hlowest).1
    simp only [Cursor.place, capacity, Fin.val_succ]
    omega
  | case2 cursor hlt hlowest ih =>
    have := ih h
    simp only [Cursor.place] at this ⊢
    omega
  | case3 => cases h

/-- The members from a place on, in the order in which they are listed. -/
def membersFrom (set : BitSet) (cursor : Cursor) : List Nat :=
  match _further : set.next cursor with
  | (some number, after) => number :: set.membersFrom after
  | (none, _) => []
termination_by set.capacity - cursor.place
decreasing_by
  have hlt := place_lt_of_next _further
  omega

/-- The members in ascending order. -/
def toList (set : BitSet) : List Nat :=
  set.membersFrom .start

end BitSet

end ContextFree
