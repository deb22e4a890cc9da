/-!
# Ranges of code points

A property of characters is given as a table of inclusive ranges of code points. The tables of
this library are those of version 17.0 of the Unicode character database, written out in full and
in ascending order, so a property is a plain computable function: it can be evaluated in a proof,
and no locale or platform has a say in it.
-/

namespace ContextFree.Text

/-- Whether a character's code point lies in one of the ranges. -/
def within (ranges : List (Nat × Nat)) (c : Char) : Bool :=
  ranges.any fun range => range.1 ≤ c.toNat && c.toNat ≤ range.2

/-- Whether a character's code point lies in one of the ranges, an even number of places after
the range's first. Letters whose two cases alternate are listed this way. -/
def withinAlternating (ranges : List (Nat × Nat)) (c : Char) : Bool :=
  ranges.any fun range =>
    range.1 ≤ c.toNat && c.toNat ≤ range.2 && (c.toNat - range.1) % 2 == 0

end ContextFree.Text
