/-!
# Choosing at random

A source of 32-bit numbers: first those that are queued, then a linear congruential generator.
`pick` draws a number below a bound from it. The product of a draw and the bound has the choice
in its high half; draws whose low half is past the last full zone would favour some choices and
are drawn again, so every choice is equally likely if every draw is.
-/

namespace ContextFree

/-- A way to choose one of `n` things, where there is at least one, from a state. -/
abbrev Chooser (σ : Type) : Type :=
  (n : Nat) → 0 < n → σ → Fin n × σ

/-- A source of 32-bit numbers. -/
structure RandomSource where
  /-- The numbers to be given out first. -/
  queued : List UInt32
  /-- The last number of the generator. -/
  state : UInt32
  /-- How many numbers have been given out. -/
  drawn : Nat

namespace RandomSource

/-- The generator of a seed, with nothing queued. -/
def ofSeed (seed : UInt32) : RandomSource :=
  ⟨[], seed, 0⟩

/-- The next number. -/
def next (source : RandomSource) : UInt32 × RandomSource :=
  match source.queued with
  | value :: queued => (value, ⟨queued, source.state, source.drawn + 1⟩)
  | [] =>
    let state := source.state * 1664525 + 1013904223
    (state, ⟨[], state, source.drawn + 1⟩)

/-- How many 32-bit numbers there are. -/
def period : Nat :=
  4294967296

/-- The last low half that is accepted for a bound: full zones of the bound end there. The bound is
shifted so that its first bit is the first of 32. -/
def zone (bound : Nat) : Nat :=
  (bound <<< (31 - bound.log2)) - 1

/-- The high half of a draw times a bound. -/
def highHalf (value : UInt32) (bound : Nat) : Nat :=
  value.toNat * bound / period

/-- The low half of a draw times a bound. -/
def lowHalf (value : UInt32) (bound : Nat) : Nat :=
  value.toNat * bound % period

theorem highHalf_lt (value : UInt32) {bound : Nat} (h : 0 < bound) :
    highHalf value bound < bound := by
  have hv : value.toNat < period := value.toNat_lt
  exact (Nat.div_lt_iff_lt_mul (by decide)).mpr
    (by rw [Nat.mul_comm bound]; exact (Nat.mul_lt_mul_right h).mpr hv)

/-- Draws until a draw is accepted, `limit` times at the most, and 0 if none was. -/
def pickWithin (bound : Nat) (h : 0 < bound) :
    (limit : Nat) → RandomSource → Fin bound × RandomSource
  | 0, source => (⟨0, h⟩, source)
  | limit + 1, source =>
    let (value, source) := source.next
    if lowHalf value bound ≤ zone bound then (⟨highHalf value bound, highHalf_lt value h⟩, source)
    else pickWithin bound h limit source

/-- A choice among `bound` things. Past the queued numbers the generator goes through all 32-bit
numbers in turn, so one of them is accepted within that many draws. -/
def pick : Chooser RandomSource := fun bound h source =>
  pickWithin bound h (source.queued.length + period) source

end RandomSource

end ContextFree
