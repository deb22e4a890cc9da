import ContextFree.Text.GraphemeExtend
import ContextFree.Text.Unprintable

/-!
# Quoted text

The quoted form puts a text between double quotes so that it can be told from the text around it.
A quote or a backslash inside gets a backslash before it, the common controls have a letter each,
and every other character that a reader could not see, or that would be drawn on top of the quote
before it, is spelled by its number in hexadecimal. A single quote stands as it is.

This is a form for people. The grammar notation also quotes, but knows no escapes, so it reads a
quoted text back only if nothing in it was escaped.
-/

namespace ContextFree.Text

/-- A character spelled by its number: lower-case hexadecimal without leading zeros. -/
def escapeByNumber (c : Char) : List Char :=
  "\\u\x7b".toList ++ Nat.toDigits 16 c.toNat ++ "\x7d".toList

/-- A character as it stands inside a quoted text. -/
def escape (c : Char) : List Char :=
  match c with
  | '\x00' => ['\\', '0']
  | '\t' => ['\\', 't']
  | '\n' => ['\\', 'n']
  | '\r' => ['\\', 'r']
  | '"' => ['\\', '"']
  | '\\' => ['\\', '\\']
  | c => if extendsGrapheme c || isUnprintable c then escapeByNumber c else [c]

/-- The quoted form of a text. -/
def quoted (text : List Char) : List Char :=
  '"' :: text.flatMap escape ++ ['"']

/-- The quoted form of a string. -/
def quote (text : String) : String :=
  String.ofList (quoted text.toList)

end ContextFree.Text
