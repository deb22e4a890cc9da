/-!
# Faults

The tables of the engine refer to each other by number. A number that a table does not hold is a
fault of whoever made it up. A recognition run only uses numbers that the tables gave out, so it
comes to no fault; the tables can also be used on their own, and there faults are answered as
such rather than by some default.
-/

namespace ContextFree

/-- A number that a table does not hold. -/
inductive Fault where
  /-- No call has this number. -/
  | unknownCall (node : Nat)
  /-- Some other table ends before this number. -/
  | outOfRange (index : Nat)
  deriving DecidableEq

namespace Fault

/-- The fault as it is shown. Only unknown calls have a text of their own. -/
def message? : Fault → Option String
  | .unknownCall node => some s!"GSS node {node} does not exist"
  | .outOfRange _ => none

end Fault

end ContextFree
