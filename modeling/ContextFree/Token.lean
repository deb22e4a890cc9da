/-!
# Input tokens

Recognition asks one question of an input token: does it spell a given terminal? A character
spells the terminal that is just that character, a string the terminal equal to it. Over a word's
characters and over its one-character strings the answers are the same.
-/

namespace ContextFree

/-- Something that can stand in the input. -/
class Token (τ : Type) where
  /-- Whether a token spells a terminal. -/
  spells : τ → String → Bool

instance : Token Char where
  spells c terminal := terminal.toList == [c]

instance : Token String where
  spells token terminal := token == terminal

/-- The tokens of a word: its characters. -/
def characters (word : String) : Array Char :=
  word.toList.toArray

/-- The tokens of a word, each as a string of its own. -/
def characterStrings (word : String) : Array String :=
  (word.toList.map fun c => String.ofList [c]).toArray

end ContextFree
