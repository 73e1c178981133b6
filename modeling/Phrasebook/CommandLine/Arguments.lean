/-!
# Arguments of the command line

How the arguments of the program are understood: `parse` turns them into a `Request`, or says what else
is wanted (`Stop`). A subcommand declares which flags, valued options and positional arguments it takes
(`Signature`). An option may stand anywhere behind its subcommand, its value behind an equals sign or in
the next argument; each may be given once, and two dashes end the options.
-/

namespace Phrasebook.CommandLine

/-- What the program is asked to do. -/
inductive Request where
  | tokenize (input : String)
  | compile (format : String) (canonical : Bool)
  | resolve (path input : String) (json all : Bool)
  | version
  deriving DecidableEq, Repr

/-- Why the arguments are no request: they ask for help or for the version, or they are wrong. -/
inductive Stop where
  | help
  | version
  | usage
  deriving DecidableEq, Repr

/-- The arguments that a subcommand takes. All positional arguments and all options with a value must
be given. -/
structure Signature where
  flags : List String := []
  options : List String := []
  positionals : Nat := 0

/-- The arguments that were given to a subcommand. -/
structure Given where
  flags : List String := []
  options : List (String × String) := []
  positionals : List String := []

namespace Given

/-- Adds a flag, which may be given once. -/
def addFlag (given : Given) (name : String) : Except Stop Given :=
  if given.flags.contains name then .error .usage
  else .ok { given with flags := given.flags ++ [name] }

/-- Adds an option with its value, which must not be empty. -/
def addOption (given : Given) (name value : String) : Except Stop Given :=
  if value.isEmpty || (given.options.lookup name).isSome then .error .usage
  else .ok { given with options := given.options ++ [(name, value)] }

/-- Adds a positional argument. -/
def addPositional (signature : Signature) (given : Given) (value : String) : Except Stop Given :=
  if given.positionals.length < signature.positionals then
    .ok { given with positionals := given.positionals ++ [value] }
  else .error .usage

/-- Adds the flags of a single letter that stand behind one dash. In front of the subcommand, at the
`top`, the version may also be asked for. -/
def addLetters (top : Bool) (given : Given) : List Char → Except Stop Given
  | [] => .ok given
  | c :: more =>
    if c = 'h' then .error .help
    else if c = 'V' ∧ top = true then .error .version
    else if c = 'v' then
      match given.addFlag "verbose" with
      | .error stop => .error stop
      | .ok given => given.addLetters top more
    else .error .usage

end Given

/-- The parts of an argument: a name behind two dashes, with a value or without, letters behind one dash,
or anything else. A single dash is no option. -/
inductive Argument where
  | long (name : String) (value : Option String)
  | short (letters : List Char)
  | plain (text : String)
  deriving DecidableEq, Repr

/-- The parts of an argument. -/
def Argument.ofString (text : String) : Argument :=
  match text.toList with
  | '-' :: '-' :: name =>
    let rest := name.dropWhile (· ≠ '=')
    .long (String.ofList (name.takeWhile (· ≠ '=')))
      (if rest.isEmpty then none else some (String.ofList rest.tail))
  | '-' :: c :: more => .short (c :: more)
  | _ => .plain text

/-- Sorts the arguments behind a subcommand. -/
def collect (signature : Signature) (given : Given) : List String → Except Stop Given
  | [] => .ok given
  | argument :: arguments =>
    match Argument.ofString argument with
    | .plain text =>
      match given.addPositional signature text with
      | .error stop => .error stop
      | .ok given => collect signature given arguments
    | .short letters =>
      match given.addLetters false letters with
      | .error stop => .error stop
      | .ok given => collect signature given arguments
    | .long "" none => arguments.foldlM (Given.addPositional signature) given
    | .long "help" none => .error .help
    | .long name none =>
      if name = "verbose" ∨ name ∈ signature.flags then
        match given.addFlag name with
        | .error stop => .error stop
        | .ok given => collect signature given arguments
      else if name ∈ signature.options then
        match arguments with
        | [] => .error .usage
        | value :: arguments =>
          match Argument.ofString value with
          | .plain value =>
            match given.addOption name value with
            | .error stop => .error stop
            | .ok given => collect signature given arguments
          | _ => .error .usage
      else .error .usage
    | .long name (some value) =>
      if name ∈ signature.options then
        match given.addOption name value with
        | .error stop => .error stop
        | .ok given => collect signature given arguments
      else .error .usage

/-- The signature of each subcommand. -/
def signature? : String → Option Signature
  | "tokenize" => some { positionals := 1 }
  | "compile" => some { flags := ["canonical"], positionals := 1 }
  | "resolve" => some { flags := ["json", "all"], options := ["commands"], positionals := 1 }
  | "version" => some {}
  | _ => none

/-- What asking for help ends in: help with the program or with one subcommand. -/
def helpWith : List String → Stop
  | [] => .help
  | [subcommand] =>
    if subcommand = "help" || (signature? subcommand).isSome then .help else .usage
  | _ => .usage

/-- The request that a subcommand makes with its arguments. -/
def request (subcommand : String) (given : Given) : Except Stop Request :=
  match subcommand, given.positionals with
  | "tokenize", [input] => .ok (.tokenize input)
  | "compile", [format] => .ok (.compile format (given.flags.contains "canonical"))
  | "resolve", [input] =>
    match given.options.lookup "commands" with
    | some path =>
      .ok (.resolve path input (given.flags.contains "json") (given.flags.contains "all"))
    | none => .error .usage
  | "version", [] => .ok .version
  | _, _ => .error .usage

/-- The request that the arguments make. In front of the subcommand only options of the whole program
may stand. -/
def parseAfter (given : Given) : List String → Except Stop Request
  | [] => .error .usage
  | argument :: arguments =>
    match Argument.ofString argument with
    | .plain "help" => .error (helpWith arguments)
    | .plain subcommand =>
      match signature? subcommand with
      | none => .error .usage
      | some signature => do request subcommand (← collect signature {} arguments)
    | .short letters =>
      match given.addLetters true letters with
      | .error stop => .error stop
      | .ok given => parseAfter given arguments
    | .long "help" none => .error .help
    | .long "version" none => .error .version
    | .long "verbose" none =>
      match given.addFlag "verbose" with
      | .error stop => .error stop
      | .ok given => parseAfter given arguments
    | .long _ _ => .error .usage

/-- The request that the arguments make. -/
def parse (arguments : List String) : Except Stop Request :=
  parseAfter {} arguments

end Phrasebook.CommandLine
