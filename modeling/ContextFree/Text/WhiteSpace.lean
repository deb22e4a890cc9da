import ContextFree.Text.CodePoints

/-!
# White space

The property `White_Space` of the Unicode character database, and the ways this library cuts a
text at it: `trim`, `words` and `splitAtLastWhiteSpace?`. The separators U+001C to U+001F, the
zero-width space and the byte order mark are not white space.
-/

namespace ContextFree.Text

/-- Runs of white space. -/
def whiteSpaceRuns : List (Nat × Nat) :=
  [(0x9, 0xD), (0x20, 0x20), (0x85, 0x85), (0xA0, 0xA0), (0x1680, 0x1680), (0x2000, 0x200A),
   (0x2028, 0x2029), (0x202F, 0x202F), (0x205F, 0x205F), (0x3000, 0x3000)]

/-- Whether a character is white space. -/
def isWhiteSpace (c : Char) : Bool :=
  within whiteSpaceRuns c

/-- The text without the white space at its end. -/
def trimEnd (text : List Char) : List Char :=
  (text.reverse.dropWhile isWhiteSpace).reverse

/-- The text without the white space around it. -/
def trim (text : List Char) : List Char :=
  trimEnd (text.dropWhile isWhiteSpace)

/-- A text of nothing but white space. -/
def isBlank (text : List Char) : Bool :=
  text.all isWhiteSpace

/-- The maximal runs of characters between white space, in order. -/
def words (text : List Char) : List (List Char) :=
  (text.splitOnP isWhiteSpace).filter fun word => !word.isEmpty

/-- The texts before and after the last white space character, if there is one. -/
def splitAtLastWhiteSpace? (text : List Char) : Option (List Char × List Char) :=
  let fromEnd := text.reverse
  match fromEnd.dropWhile (fun c => !isWhiteSpace c) with
  | [] => none
  | _ :: before => some (before.reverse, (fromEnd.takeWhile fun c => !isWhiteSpace c).reverse)

end ContextFree.Text
