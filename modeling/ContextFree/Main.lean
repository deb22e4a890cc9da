import ContextFree.CommandLine.Run

/-!
# The program

Reads the file that the command asks for, runs the command, prints and ends.
-/

namespace ContextFree

/-- What comes of reading a file of the system, whose error codes come with either sign. -/
def readFile (path : String) : IO (Except ReadFault ByteArray) := do
  if path.toList.contains '\x00' then return .error .invalidPath
  try
    return .ok (← IO.FS.readBinFile path)
  catch error =>
    return .error <| match error with
      | .noFileOrDirectory .. => .notFound
      | .permissionDenied .. => .permissionDenied
      | .inappropriateType _ code details =>
        if code = 20 ∨ 0 - code = 20 then .notADirectory
        else if code = 21 ∨ 0 - code = 21 then .isADirectory
        else .other details
      | .invalidArgument _ code details =>
        if code = 36 ∨ 0 - code = 36 then .nameTooLong else .other details
      | error => .other (toString error)

/-- A number that the system draws for us. -/
def drawSeed : IO UInt32 := do
  let bytes ← IO.getRandomBytes 4
  return bytes.data.foldl (fun seed byte => 256 * seed + byte.toUInt32) 0

/-- The program. -/
def program (arguments : List String) : IO UInt32 := do
  let budget ← IO.getEnv "GLL_STEP_BUDGET"
  let request := CommandLine.request budget arguments
  let content ← match request with
    | .command command => readFile command.path
    | _ => pure (.error .notFound)
  let finish := request.finish (fun _ => content) (.ofSeed (← drawSeed))
  IO.print finish.output
  IO.eprint finish.errors
  return finish.status.toUInt32

end ContextFree

/-- The program's entry. -/
def main (arguments : List String) : IO UInt32 :=
  ContextFree.program arguments
