import ContextFree.CaseFile.Check
import ContextFree.CommandLine.Arguments
import ContextFree.Sentence.Generator

/-!
# Commands

The three commands, `check`, `recognize` and `generate`, and how arguments become one of them.
An option that is not given has its default; the step budget may also come from the environment,
which counts only if the option is not given.
-/

namespace ContextFree.CommandLine

/-- The options of the commands that recognize. -/
structure RunOptions where
  start : Option String
  method : Method
  order : Order
  budget : Option Nat

/-- How to run a recognizer under these options. -/
def RunOptions.config (options : RunOptions) : Config :=
  { order := options.order, budget := options.budget }

/-- What is to be done. -/
inductive Command where
  /-- Check the cases of a case file. -/
  | check (path : String) (options : RunOptions)
  /-- Decide whether one word is in the language of a grammar file. -/
  | recognize (path word : String) (tokens : Bool) (options : RunOptions)
  /-- Derive random sentences of a grammar file. -/
  | generate (path : String) (start : Option String) (amount maxDepth : Nat)
    (separator : String)

/-- The file that a command reads. -/
def Command.path : Command → String
  | .check path _ => path
  | .recognize path _ _ _ => path
  | .generate path _ _ _ _ => path

/-- What a command line asks for. -/
inductive Request where
  | command (command : Command)
  | version
  | help
  /-- The command line asks for nothing that there is. -/
  | refused

/-! ## Values -/

/-- The number that decimal digits write, if there are any and nothing else. -/
def parseDigits? (digits : List Char) : Option Nat :=
  if digits ≠ [] ∧ digits.all Char.isDigit then
    some (digits.foldl (fun number digit => 10 * number + (digit.toNat - '0'.toNat)) 0)
  else none

/-- A number below `bound`, with or without a plus sign. -/
def parseNat? (bound : Nat) (text : String) : Option Nat :=
  let digits := match text.toList with
    | '+' :: digits => digits
    | digits => digits
  (parseDigits? digits).filter (· < bound)

/-- A number below `bound`, with or without a sign; the one number with a minus sign is zero. -/
def parseSigned? (bound : Nat) (text : String) : Option Nat :=
  match text.toList with
  | '-' :: digits => (parseDigits? digits).filter (· == 0)
  | _ => parseNat? bound text

/-- A path, which is not empty. -/
def parsePath? (text : String) : Option String :=
  if text = "" then none else some text

/-- The name of a method. -/
def parseMethod? (text : String) : Option Method :=
  if text = "gss" then some .callGraph
  else if text = "top-down" then some .topDown
  else none

/-- The name of an order. -/
def parseOrder? (text : String) : Option Order :=
  if text = "fifo" then some .fifo
  else if text = "lifo" then some .lifo
  else none

/-- The value of an option, or its default if it is not given; nothing if it makes no sense. -/
def optionValue? {α : Type} (given : Given) (long : String) (parse : String → Option α)
    (default : α) : Option α :=
  match given.value? long with
  | none => some default
  | some text => parse text

/-! ## Commands from arguments -/

/-- Numbers of steps and depths fit into 64 bits. -/
def countBound : Nat :=
  18446744073709551616

/-- Amounts fit into 32 bits. -/
def amountBound : Nat :=
  4294967296

/-- A number of steps. -/
def parseBudget? : String → Option Nat :=
  parseNat? countBound

/-- The options of the commands that recognize. -/
def runSpecs : List OptionSpec :=
  [⟨"start", some 's', true⟩, ⟨"engine", none, true⟩, ⟨"order", none, true⟩,
    ⟨"step-budget", none, true⟩]

/-- The options of `generate`. -/
def generateSpecs : List OptionSpec :=
  [⟨"start", some 's', true⟩, ⟨"amount", some 'n', true⟩, ⟨"max-depth", none, true⟩,
    ⟨"separator", none, true⟩]

/-- The options of the commands that recognize, but for the environment. -/
def givenRunOptions? (given : Given) : Option RunOptions := do
  let method ← optionValue? given "engine" parseMethod? .callGraph
  let order ← optionValue? given "order" parseOrder? .fifo
  let budget ← optionValue? given "step-budget" (fun text => (parseBudget? text).map some) none
  return ⟨given.value? "start", method, order, budget⟩

/-- The options of the commands that recognize. -/
def runOptions? (environment : Option String) (given : Given) : Option RunOptions := do
  let options ← givenRunOptions? given
  if given.has "step-budget" then return options
  match environment with
  | none => return options
  | some text => return { options with budget := some (← parseBudget? text) }

/-- A command with its positional arguments and options, if they make sense. -/
structure Form where
  specs : List OptionSpec
  /-- How many positional arguments there are. -/
  positionals : Nat
  /-- Whether what is given so far makes sense. -/
  isSensible : Given → Bool
  /-- The command, if all of it is given. -/
  build? : Given → Option Command

/-- Whether the first positional argument, if it is given, is a path. -/
def hasSensiblePath (given : Given) : Bool :=
  match given.positionals with
  | [] => true
  | path :: _ => (parsePath? path).isSome

/-- The form of `check`. -/
def checkForm (environment : Option String) : Form where
  specs := runSpecs
  positionals := 1
  isSensible given := hasSensiblePath given && (givenRunOptions? given).isSome
  build? given :=
    match given.positionals with
    | [path] => do return .check (← parsePath? path) (← runOptions? environment given)
    | _ => none

/-- The form of `recognize`. -/
def recognizeForm (environment : Option String) : Form where
  specs := ⟨"tokens", none, false⟩ :: runSpecs
  positionals := 2
  isSensible given := hasSensiblePath given && (givenRunOptions? given).isSome
  build? given :=
    match given.positionals with
    | [path, word] => do
      return .recognize (← parsePath? path) word (given.has "tokens")
        (← runOptions? environment given)
    | _ => none

/-- The number of sentences and the maximal depth. -/
def generateNumbers? (given : Given) : Option (Nat × Nat) := do
  let amount ← optionValue? given "amount" (parseSigned? amountBound) 1
  let maxDepth ← optionValue? given "max-depth" (parseNat? countBound) defaultMaxDepth
  return (amount, maxDepth)

/-- The form of `generate`. -/
def generateForm : Form where
  specs := generateSpecs
  positionals := 1
  isSensible given := hasSensiblePath given && (generateNumbers? given).isSome
  build? given :=
    match given.positionals with
    | [path] => do
      let (amount, maxDepth) ← generateNumbers? given
      return .generate (← parsePath? path) (given.value? "start") amount maxDepth
        ((given.value? "separator").getD "")
    | _ => none

/-- The form of a command by its name. -/
def form? (environment : Option String) (name : String) : Option Form :=
  if name = "check" then some (checkForm environment)
  else if name = "recognize" then some (recognizeForm environment)
  else if name = "generate" then some generateForm
  else none

/-- The request that arguments make of a command. -/
def Form.request (form : Form) (arguments : List String) : Request :=
  match scan form.specs form.positionals .none arguments with
  | .refused => .refused
  | .help before => if form.isSensible before then .help else .refused
  | .complete given =>
    match form.build? given with
    | some command => .command command
    | none => .refused

/-- What the arguments ask for, given the step budget of the environment. -/
def request (environment : Option String) : List String → Request
  | [] => .refused
  | name :: arguments =>
    match form? environment name with
    | some form => form.request arguments
    | none =>
      if name = "--version" ∨ name.toList.take 2 = ['-', 'V'] then .version
      else if name = "--help" ∨ name.toList.take 2 = ['-', 'h'] then .help
      else if name = "help" then
        match arguments with
        | [] => .help
        | [topic] => if topic = "help" ∨ (form? environment topic).isSome then .help else .refused
        | _ => .refused
      else .refused

end ContextFree.CommandLine
