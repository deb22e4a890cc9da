/-!
# Lines

A line ends at a line feed and nowhere else; one carriage return right before the line feed
belongs to the ending. What follows the last line feed is a line too, unless it is empty, and it
keeps its carriage return, as no line feed follows it.

The rule is the same for a text, a list of characters, and for a file, a list of bytes, so
`splitLines` leaves the kind of element open.
-/

namespace ContextFree.Text

variable {α : Type} [BEq α]

/-- The list without its last element, if that is `x`. -/
def dropFinal (x : α) (xs : List α) : List α :=
  if xs.getLast? == some x then xs.dropLast else xs

/-- The lines of `xs`: each ends before a `feed`, less one `ret` there. -/
def splitLines (feed ret : α) (xs : List α) : List (List α) :=
  let pieces := xs.splitOn feed
  pieces.dropLast.map (dropFinal ret) ++
    (pieces.drop (pieces.length - 1)).filter fun rest => !rest.isEmpty

/-- The lines of a text. -/
def lines (text : List Char) : List (List Char) :=
  splitLines '\n' '\r' text

/-- The lines of a file's bytes. -/
def byteLines (bytes : List UInt8) : List (List UInt8) :=
  splitLines 10 13 bytes

end ContextFree.Text
