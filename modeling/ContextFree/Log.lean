/-!
# What a run tells besides its answer

Functions of this library return values; those that have something to tell on the way have a
companion that lists it as `Log.Entry`s. Whether anyone listens is up to the caller.
-/

namespace ContextFree.Log

/-- How much an entry matters, least first. -/
inductive Level where
  | trace
  | debug
  | info
  | warn
  deriving DecidableEq

namespace Level

/-- The rank of a level among the levels. -/
def rank : Level → Nat
  | .trace => 0
  | .debug => 1
  | .info => 2
  | .warn => 3

/-- The level as it is shown. -/
def name : Level → String
  | .trace => "TRACE"
  | .debug => "DEBUG"
  | .info => "INFO"
  | .warn => "WARN"

end Level

/-- One line of the log. -/
structure Entry where
  level : Level
  text : String
  deriving DecidableEq

/-- The entries that matter at least as much as `least`. -/
def atLeast (least : Level) (entries : List Entry) : List Entry :=
  entries.filter fun entry => least.rank ≤ entry.level.rank

end ContextFree.Log
