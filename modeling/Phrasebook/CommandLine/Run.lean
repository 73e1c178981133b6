import Phrasebook.Command.Encoding
import Phrasebook.Command.Resolve
import Phrasebook.CommandFile
import Phrasebook.CommandLine.Arguments
import Phrasebook.Value.Printer

/-!
# Running the program

What the program prints for its arguments and how it ends: `run` gives an `Outcome`. An input, a format
or a call that is wrong ends it with code one, a command file that cannot be used and wrong arguments
with code two; the message then goes to the error stream. Where JSON is asked for, a call that does not
resolve is also told of on the output.

`runWith` takes the parsers of the arguments and of command files as they are given (`Parsers`), and `run`
is the program with its own. The flag for logging is accepted and changes neither the output nor the code:
nothing is logged.
-/

namespace Phrasebook.CommandLine

/-- What the program leaves behind. -/
structure Outcome where
  exitCode : Nat
  stdout : String
  stderr : String
  deriving DecidableEq, Repr

namespace Outcome

/-- Success, with what is printed. -/
def success (stdout : String) : Outcome := ⟨0, stdout, ""⟩

/-- The message of a failure, as the error stream shows it. -/
def errorLine (message : String) : String := "error: " ++ message ++ "\n"

/-- Something in the input is wrong. -/
def invalid (message : String) (stdout : String := "") : Outcome :=
  ⟨1, stdout, errorLine message⟩

/-- The program cannot do its work. -/
def fatal (message : String) : Outcome := ⟨2, "", errorLine message⟩

/-- A value on the output, one item or member to a line. -/
def json (value : Value) : String := value.pretty ++ "\n"

end Outcome

/-- The version of the program. -/
def programVersion : String := "0.1.0"

/-- How the program is used. -/
def usage : String :=
  "usage: syscall [--verbose] (tokenize INPUT | compile [--canonical] FORMAT | " ++
    "resolve --commands FILE [--json] [--all] INPUT | version)\n"

/-! ## Subcommands -/

/-- Prints the token lists of an input. -/
def runTokenize (input : String) : Outcome :=
  match Input.tokenize input with
  | .error fault => .invalid fault.message
  | .ok calls =>
    .success (Outcome.json (.array (calls.map fun tokens => .array (tokens.map .string))))

/-- Prints the grammar of a format string, or the format string that is written for it. -/
def runCompile (format : String) (canonical : Bool) : Outcome :=
  match compile format with
  | .error fault => .invalid fault.message
  | .ok grammar =>
    if canonical then .success (Grammar.format grammar ++ "\n")
    else .success (Outcome.json (Grammar.toValue grammar))

/-- The arguments of a call, decoded where they can be. -/
def decodedArguments (call : Call String) : List (String × Value) :=
  call.arguments.entries.map fun (name, raw) =>
    (name, (call.tryArgument? name).getD (.string raw))

/-- A call as JSON. -/
def callValue (call : Call String) : Value :=
  .object [("command", .string call.name), ("arguments", .object (decodedArguments call))]

/-- A call as lines of text: its name, and an argument on each line below it. -/
def callText (call : Call String) : String :=
  "✓ " ++ call.name ++ "\n" ++
    String.join ((decodedArguments call).map fun (name, value) =>
      "    " ++ name ++ " = " ++ value.toJson ++ "\n")

/-- The calls that an input makes: one per call or, if `all` are asked for, every command that takes the
only call. The message says why there are none. -/
def resolvedCalls (input : String) (all : Bool) (commands : List (Command Unit String)) :
    Except String (List (Call String)) :=
  if all then
    match findInputMatches input commands with
    | .error failure => .error failure.message
    | .ok [] =>
      .error ("No matching command: " ++ ticked (String.ofList (Text.trim input.toList)))
    | .ok resolutions => .ok (resolutions.map (·.call))
  else
    match resolveInput input commands with
    | .error failure => .error failure.message
    | .ok resolutions => .ok (resolutions.map (·.call))

/-- Prints what an input calls. -/
def runResolve (input : String) (json all : Bool) (commands : List (Command Unit String)) :
    Outcome :=
  match resolvedCalls input all commands with
  | .error message =>
    .invalid message <|
      if json then
        Outcome.json (.object [("resolved", .bool false), ("error", .string message)])
      else ""
  | .ok calls =>
    .success <|
      if json then
        Outcome.json (.object [("resolved", .bool true), ("calls", .array (calls.map callValue))])
      else String.join (calls.map callText)

/-- The parsers that the program works with: of its arguments and of command files. -/
structure Parsers extends CommandFile.Parsers where
  arguments : List String → Except Stop Request

/-- The parsers of the program. -/
def Parsers.standard : Parsers := ⟨.standard, parse⟩

/-- Answers a request. `readFile` gives the text of a file, or why it cannot be read. -/
def answer (parsers : CommandFile.Parsers) (readFile : String → Except String String) :
    Request → Outcome
  | .tokenize input => runTokenize input
  | .compile format canonical => runCompile format canonical
  | .resolve path input json all =>
    match CommandFile.load parsers path (readFile path) with
    | .error fault => .fatal fault.message
    | .ok commands => runResolve input json all commands
  | .version =>
    .success ("syscall " ++ programVersion ++ " (syscall-core " ++ programVersion ++ ")\n")

/-- Runs the program with its arguments, as they are parsed. -/
def runWith (parsers : Parsers) (readFile : String → Except String String)
    (arguments : List String) : Outcome :=
  match parsers.arguments arguments with
  | .ok request => answer parsers.toParsers readFile request
  | .error .help => .success usage
  | .error .version => .success ("syscall " ++ programVersion ++ "\n")
  | .error .usage => ⟨2, "", usage⟩

/-- Runs the program with its own parsers. -/
def run : (String → Except String String) → List String → Outcome :=
  runWith .standard

/-- The path that the arguments need the text of. -/
def neededPath? (arguments : List String) : Option String :=
  match parse arguments with
  | .ok (.resolve path _ _ _) => some path
  | _ => none

end Phrasebook.CommandLine
