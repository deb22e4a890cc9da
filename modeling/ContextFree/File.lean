/-!
# Files

What comes of reading a file: its bytes or the reason why there are none. `FileTree` is a tree of
directories whose files are at hand, with the rules by which a path leads to one of them.
-/

namespace ContextFree

/-- Why a file could not be read. -/
inductive ReadFault where
  | notFound
  /-- A part of the path before the last is a file. -/
  | notADirectory
  /-- The path leads to a directory. -/
  | isADirectory
  | permissionDenied
  /-- The path is too long, or a name in it is. -/
  | nameTooLong
  /-- The path holds a character that no path can hold. -/
  | invalidPath
  /-- The bytes are not text. -/
  | invalidText
  /-- Whatever else can go wrong, in the words of the system. -/
  | other (details : String)
  deriving DecidableEq

namespace ReadFault

/-- The fault as it is shown. -/
def message : ReadFault → String
  | .notFound => "No such file or directory (os error 2)"
  | .notADirectory => "Not a directory (os error 20)"
  | .isADirectory => "Is a directory (os error 21)"
  | .permissionDenied => "Permission denied (os error 13)"
  | .nameTooLong => "File name too long (os error 36)"
  | .invalidPath => "file name contained an unexpected NUL byte"
  | .invalidText => "stream did not contain valid UTF-8"
  | .other details => details

end ReadFault

/-- The text that bytes encode in UTF-8, if they do. -/
def decodeText? (bytes : List UInt8) : Option (List Char) :=
  (String.fromUTF8? ⟨bytes.toArray⟩).map String.toList

/-- The longest name in bytes. -/
def longestName : Nat := 255

/-- The longest path in bytes. -/
def longestPath : Nat := 4095

/-- The files that a path can lead to, each with the names on the way to it from the root, and the
directory where a path starts that does not start at the root. -/
structure FileTree where
  files : List (List String × ByteArray)
  workingDirectory : List String

namespace FileTree

/-- The names along a path, in order. -/
def components (path : String) : List String :=
  (path.toList.splitOn '/').map String.ofList

/-- Where a walk along a path has come to. -/
inductive Place where
  /-- A directory, by the names that lead to it from the root. -/
  | directory (names : List String)
  | file (bytes : ByteArray)

/-- What stands at the end of a list of names: a file, or a directory on the way to a file or to
the working directory. -/
def placeOf? (tree : FileTree) (names : List String) : Option Place :=
  match tree.files.find? fun file => file.1 == names with
  | some file => some (.file file.2)
  | none =>
    if names.isPrefixOf tree.workingDirectory ∨
        tree.files.any fun file => names.isPrefixOf file.1 then
      some (.directory names)
    else none

/-- One name further along a path. An empty name or a dot stays, two dots lead back up, and the
root is above itself. -/
def enter (tree : FileTree) (place : Place) (name : String) : Except ReadFault Place :=
  match place with
  | .file _ => .error .notADirectory
  | .directory names =>
    if name = "" ∨ name = "." then .ok place
    else if name = ".." then .ok (.directory names.dropLast)
    else if longestName < name.utf8ByteSize then .error .nameTooLong
    else
      match tree.placeOf? (names ++ [name]) with
      | some place => .ok place
      | none => .error .notFound

/-- The directory where a path starts. -/
def startOf (tree : FileTree) (path : String) : Place :=
  .directory (if path.toList.head? = some '/' then [] else tree.workingDirectory)

/-- The bytes of the file that a path leads to. -/
def read (tree : FileTree) (path : String) : Except ReadFault ByteArray := do
  if path.toList.contains '\x00' then throw .invalidPath
  if path = "" then throw .notFound
  if longestPath < path.utf8ByteSize then throw .nameTooLong
  match ← (components path).foldlM tree.enter (tree.startOf path) with
  | .file bytes => return bytes
  | .directory _ => throw .isADirectory

end FileTree

end ContextFree
