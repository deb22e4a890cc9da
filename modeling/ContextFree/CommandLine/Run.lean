import ContextFree.CaseFile.Report
import ContextFree.CommandLine.Command
import ContextFree.Text.WhiteSpace

/-!
# Running commands

What a command prints and the status it ends with, given what came of reading its file. Status 0
says yes: every case passed, the word was recognized, the sentences were derived. Status 1 says no,
and errors say why on their own channel, a line each. Status 2 is for command lines that ask for
nothing that there is.
-/

namespace ContextFree.CommandLine

/-- What a command leaves behind. -/
structure Finish where
  status : Nat
  output : String
  errors : String
  deriving DecidableEq

namespace Finish

/-- Failure with a line for each error. -/
def failure (errors : List String) : Finish :=
  ⟨1, "", String.join (errors.map (· ++ "\n"))⟩

/-- The end after a fault. -/
def fault (cause : Fault) : Finish :=
  ⟨101, "", cause.message?.getD "index out of range" ++ "\n"⟩

end Finish

/-- The tokens of a word: those between white space, or its characters. -/
def wordTokens (word : String) (tokens : Bool) : Array String :=
  if tokens then ((Text.words word.toList).map String.ofList).toArray else characterStrings word

/-- Checks the cases of a file. -/
def runCheck (path : String) (options : RunOptions) (content : Except ReadFault ByteArray) :
    Finish :=
  match CaseFile.ofFile path content with
  | .error errors => .failure (errors.map (Located.message CaseError.message))
  | .ok file =>
    let start := options.start.getD file.grammar.startSymbol
    match checkCases file.grammar start file.cases options.method options.config with
    | .error (.fault cause) => .fault cause
    | .error error => .failure [error.message]
    | .ok summary => ⟨if summary.allPassed then 0 else 1, summary.report, ""⟩

/-- Decides whether a word is in the language of a grammar. -/
def runRecognize (word : String) (tokens : Bool) (options : RunOptions) (grammar : Grammar) :
    Finish :=
  let start := options.start.getD grammar.startSymbol
  let input := wordTokens word tokens
  match options.method with
  | .callGraph =>
    match Recognizer.make grammar start options.config with
    | .error error => .failure [error.message]
    | .ok recognizer =>
      match recognizer.run input with
      | .error cause => .fault cause
      | .ok report =>
        ⟨if report.outcome = .recognized then 0 else 1,
          s!"{report.outcome.name}\n{report.stats.message}\n", ""⟩
  | .topDown =>
    match TopDown.make grammar start with
    | .error error => .failure [error.message]
    | .ok topDown =>
      if topDown.accepts input then ⟨0, Outcome.recognized.name ++ "\n", ""⟩
      else ⟨1, Outcome.rejected.name ++ "\n", ""⟩

/-- Derives some sentences one after the other; the lines of those before are given. -/
def generateLines (generator : Generator) (start separator : String) :
    (amount : Nat) → RandomSource → (lines : Array String) → Except SentenceError (Array String)
  | 0, _, lines => .ok lines
  | amount + 1, source, lines =>
    match generator.generate start RandomSource.pick source with
    | .error error => .error error
    | .ok (sentence, source) =>
      generateLines generator start separator amount source
        (lines.push (separator.intercalate sentence ++ "\n"))

/-- Derives sentences of a grammar. -/
def runGenerate (start : Option String) (amount maxDepth : Nat) (separator : String)
    (source : RandomSource) (grammar : Grammar) : Finish :=
  let generator : Generator := { grammar, maxDepth }
  match generateLines generator (start.getD grammar.startSymbol) separator amount source #[] with
  | .error error => .failure [error.message]
  | .ok lines => ⟨0, String.join lines.toList, ""⟩

/-- Runs a command on a grammar, or fails with the errors of its file. -/
def withGrammar (path : String) (content : Except ReadFault ByteArray)
    (next : Grammar → Finish) : Finish :=
  match Notation.loadFile path content with
  | .error errors => .failure (errors.map (Located.message LoadError.message))
  | .ok grammar => next grammar

namespace Command

/-- Runs a command on what came of reading its file. -/
def run (command : Command) (content : Except ReadFault ByteArray) (source : RandomSource) :
    Finish :=
  match command with
  | .check path options => runCheck path options content
  | .recognize path word tokens options =>
    withGrammar path content (runRecognize word tokens options)
  | .generate path start amount maxDepth separator =>
    withGrammar path content (runGenerate start amount maxDepth separator source)

end Command

/-- The name and version of the program. -/
def versionLine : String :=
  "gll-recognizer 0.1.0\n"

/-- How the program is used. -/
def usage : String :=
  "Usage: gll <COMMAND>\n\n" ++
  "Commands:\n" ++
  "  check FILE              Run a test-case file: a grammar, a blank line, then cases\n" ++
  "  recognize GRAMMAR WORD  Decide whether a single word is in the language\n" ++
  "  generate GRAMMAR        Print random sentences of a grammar\n\n" ++
  "Options of check and recognize:\n" ++
  "  -s, --start SYMBOL, --engine gss|top-down, --order fifo|lifo, --step-budget STEPS\n" ++
  "Options of recognize:\n" ++
  "  --tokens\n" ++
  "Options of generate:\n" ++
  "  -s, --start SYMBOL, -n, --amount AMOUNT, --max-depth DEPTH, --separator TEXT\n" ++
  "Options:\n" ++
  "  -h, --help, -V, --version\n"

/-- Does what is requested, `read` telling what comes of reading a file. -/
def Request.finish (request : Request) (content : String → Except ReadFault ByteArray)
    (source : RandomSource) : Finish :=
  match request with
  | .command asked => asked.run (content asked.path) source
  | .version => ⟨0, versionLine, ""⟩
  | .help => ⟨0, usage, ""⟩
  | .refused => ⟨2, "", usage⟩

end ContextFree.CommandLine
