/-!
# Where something went wrong

Files are read as a whole and every fault in them is reported, so each fault carries its place.
-/

namespace ContextFree

/-- A line of a file, counted from 1, or the file as a whole, line 0. -/
structure Location where
  file : String
  line : Nat
  deriving DecidableEq

namespace Location

/-- A file as a whole. -/
def wholeFile (file : String) : Location :=
  ⟨file, 0⟩

/-- The location as it is shown: the file, and the line if there is one. -/
def message (location : Location) : String :=
  if location.line = 0 then location.file else s!"{location.file}:{location.line}"

end Location

/-- An error and its place. -/
structure Located (ε : Type) where
  location : Location
  error : ε
  deriving DecidableEq

namespace Located

/-- The error with its place in front, red on a terminal that knows colours. -/
def message {ε : Type} (describe : ε → String) (located : Located ε) : String :=
  s!"\x1b[31;49;1m[{located.location.message}]\x1b[39;49;1m  {describe located.error}\x1b[0m"

end Located

/-- The errors among some results, in order. -/
def errorsOf {ε α : Type} (results : List (Except ε α)) : List ε :=
  results.filterMap fun
    | .error error => some error
    | .ok _ => none

/-- The values among some results, in order. -/
def valuesOf {ε α : Type} (results : List (Except ε α)) : List α :=
  results.filterMap fun
    | .error _ => none
    | .ok value => some value

end ContextFree
