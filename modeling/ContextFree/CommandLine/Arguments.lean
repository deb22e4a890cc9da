/-!
# Arguments

How the words of a command line divide into options and positional arguments. An option is given
by its long name or its letter; its value follows as the next argument or is attached to it. An
argument that starts with a dash is never taken for a value or a positional argument, unless it is
the lone dash, or two dashes have come before: after those everything is positional.

What the values mean is not looked at here.
-/

namespace ContextFree.CommandLine

/-- An option that a command knows. -/
structure OptionSpec where
  long : String
  short : Option Char
  takesValue : Bool

/-- What has been given so far. -/
structure Given where
  positionals : List String
  /-- Options by long name, each with its value if it takes one. -/
  options : List (String × Option String)

namespace Given

/-- Nothing. -/
def none : Given :=
  ⟨[], []⟩

/-- One positional argument more, unless there are `room` of them already. -/
def addPositional? (given : Given) (room : Nat) (argument : String) : Option Given :=
  if given.positionals.length < room then
    some ⟨given.positionals ++ [argument], given.options⟩
  else .none

/-- One option more, unless it has been given before. -/
def addOption? (given : Given) (long : String) (value : Option String) : Option Given :=
  if (given.options.lookup long).isSome then .none
  else some ⟨given.positionals, given.options ++ [(long, value)]⟩

/-- The value of an option. -/
def value? (given : Given) (long : String) : Option String :=
  (given.options.lookup long).join

/-- Whether an option was given. -/
def has (given : Given) (long : String) : Bool :=
  (given.options.lookup long).isSome

end Given

/-- How a scan of the arguments ends. -/
inductive Scanned where
  | complete (given : Given)
  /-- Help was asked for; what was given before has still to make sense. -/
  | help (before : Given)
  /-- An argument fits nowhere. -/
  | refused

/-- What is done about one option. -/
inductive OptionUse where
  /-- The option is complete. -/
  | used (given : Given)
  /-- The option takes the next argument for its value. -/
  | wantsValue (long : String) (given : Given)
  | help (before : Given)
  | refused

/-- The option given and complete, unless it was given before. -/
def OptionUse.ofGiven? : Option Given → OptionUse
  | some given => .used given
  | none => .refused

/-- Whether an argument can only be an option. -/
def isDashed (argument : List Char) : Bool :=
  match argument with
  | '-' :: _ :: _ => true
  | _ => false

/-- A long option, without its dashes. -/
def useLong (specs : List OptionSpec) (given : Given) (argument : List Char) : OptionUse :=
  let long := String.ofList (argument.takeWhile (· != '='))
  let attached : Option String := match argument.dropWhile (· != '=') with
    | [] => none
    | _ :: value => some (String.ofList value)
  if long = "help" then
    match attached with
    | none => .help given
    | some _ => .refused
  else
    match specs.find? fun spec => spec.long == long, attached with
    | none, _ => .refused
    | some spec, some value =>
      if spec.takesValue then .ofGiven? (given.addOption? long (some value)) else .refused
    | some spec, none =>
      if spec.takesValue then .wantsValue long given else .ofGiven? (given.addOption? long none)

/-- Options given by letter, several in one argument, without the dash. The first one that takes a
value takes the rest of the argument for it, less an equals sign in front. -/
def useShort (specs : List OptionSpec) (given : Given) : List Char → OptionUse
  | [] => .used given
  | letter :: rest =>
    if letter = 'h' then .help given
    else
      match specs.find? fun spec => spec.short == some letter with
      | none => .refused
      | some spec =>
        if spec.takesValue then
          match rest with
          | [] => .wantsValue spec.long given
          | '=' :: value => .ofGiven? (given.addOption? spec.long (some (String.ofList value)))
          | value => .ofGiven? (given.addOption? spec.long (some (String.ofList value)))
        else
          match given.addOption? spec.long none with
          | some given => useShort specs given rest
          | none => .refused

/-- What is done about an argument that can only be an option. -/
def useDashed (specs : List OptionSpec) (given : Given) : List Char → OptionUse
  | '-' :: '-' :: long => useLong specs given long
  | _ :: letters => useShort specs given letters
  | [] => .refused

/-- Positional arguments only. -/
def scanPositionals (room : Nat) (given : Given) : List String → Scanned
  | [] => .complete given
  | argument :: rest =>
    match given.addPositional? room argument with
    | some given => scanPositionals room given rest
    | none => .refused

/-- Scans the arguments of a command with some options and room for some positional arguments. -/
def scan (specs : List OptionSpec) (room : Nat) (given : Given) : List String → Scanned
  | [] => .complete given
  | argument :: rest =>
    if argument = "--" then scanPositionals room given rest
    else if isDashed argument.toList then
      match useDashed specs given argument.toList with
      | .used given => scan specs room given rest
      | .help before => .help before
      | .refused => .refused
      | .wantsValue long given =>
        match rest with
        | [] => .refused
        | value :: rest =>
          if isDashed value.toList then .refused
          else
            match given.addOption? long (some value) with
            | some given => scan specs room given rest
            | none => .refused
    else
      match given.addPositional? room argument with
      | some given => scan specs room given rest
      | none => .refused

end ContextFree.CommandLine
