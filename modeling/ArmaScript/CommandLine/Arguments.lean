import ArmaScript.Text.Digit

/-!
# Arguments of the command line

The arguments are one file, `-d` or `--directory` with an optional directory, and `-o` or `--output`
with an optional file for the report. A long option may be shortened as long as it stays
unambiguous, and an option can hold its value itself, as in `-oreport` or `--output=report`. What
follows `--` is no option.

`Step.ofArguments` gives what is to be done, in order: opening the files can fail, and then nothing
that follows is done.
-/

namespace ArmaScript.CommandLine

inductive Flag where
  | help
  | directory
  | output
deriving DecidableEq, Repr

/-- What to do about one argument. A missing value takes an earlier one back. -/
inductive Step where
  | file (path : Option String)
  | directory (path : Option String)
  | output (path : Option String)
  | help
  /-- The arguments are wrong. -/
  | refuse
deriving DecidableEq, Repr

def Flag.names : List (String × Flag) :=
  [("-h", .help), ("--help", .help), ("-d", .directory), ("--directory", .directory),
    ("-o", .output), ("--output", .output)]

def Flag.ofName? (name : String) : Option Flag :=
  (names.find? (·.1 == name)).map Prod.snd

inductive Argument where
  /-- Not an option. -/
  | plain (text : String)
  /-- The mark after which there are no options. -/
  | dashes
  /-- An option by its name, and the value that it holds itself. -/
  | option (name : String) (flag : Flag) (value : Option String)
  /-- It looks like an option but is none. -/
  | unknown
deriving DecidableEq, Repr

namespace Argument

/-- The parts of a text before and after its first equals sign. -/
def splitValue (text : String) : String × Option String :=
  let cs := text.toList
  match cs.dropWhile (· != '=') with
  | _ :: value => (String.ofList (cs.takeWhile (· != '=')), some (String.ofList value))
  | [] => (text, none)

def isNegativeNumber (text : String) : Bool :=
  let isDigit (c : Char) : Bool := (Text.decimalDigit? c).isSome
  match text.toList with
  | '-' :: cs =>
    match cs.dropWhile isDigit with
    | [] => !cs.isEmpty
    | '.' :: rest => !rest.isEmpty && rest.all isDigit
    | _ => false
  | _ => false

/-- The options that a text can be short for, with the value that it holds. -/
def abbreviated (text : String) : List Argument :=
  match text.toList with
  | '-' :: '-' :: _ =>
    let (name, value) := splitValue text
    (Flag.names.filter (·.1.startsWith name)).map fun (full, flag) => .option full flag value
  | '-' :: c :: rest =>
    let name := String.ofList ['-', c]
    (Flag.names.filter (·.1 == name)).map fun (full, flag) =>
      .option full flag (some (String.ofList rest))
  | _ => []

/-- The form of an argument, or nothing if it is short for several options. -/
def ofText? (text : String) : Option Argument :=
  if !text.startsWith "-" || text == "-" then some (.plain text)
  else match Flag.ofName? text with
    | some flag => some (.option text flag none)
    | none =>
      let (name, value) := splitValue text
      match value, Flag.ofName? name with
      | some value, some flag => some (.option name flag (some value))
      | _, _ => match abbreviated text with
        | [argument] => some argument
        | _ :: _ => none
        | [] =>
          if isNegativeNumber text || text.contains ' ' then some (.plain text) else some .unknown

def ofTexts? : List String → Option (List Argument)
  | [] => some []
  | text :: rest =>
    if text == "--" then some (.dashes :: rest.map .plain)
    else do return (← ofText? text) :: (← ofTexts? rest)

/-- Whether an argument is an option or looks like one. -/
def isOption : Argument → Bool
  | .option .. => true
  | .unknown => true
  | _ => false

end Argument

namespace Step

/-- What an option with its value does. The mark `--` is no value. -/
def ofFlag (flag : Flag) (value : Option String) : Step :=
  let value := value.filter (· != "--")
  match flag with
  | .help => .help
  | .directory => .directory value
  | .output => .output value

/-- Short options that are written together after `-h`: all but the last must be `-h`. -/
def ofCluster : List Char → Step
  | [] => .help
  | c :: rest => match Flag.ofName? (String.ofList ['-', c]) with
    | none => .refuse
    | some .help => ofCluster rest
    | some _ => .help

/-- What an option does that holds its value itself. Help takes no value. -/
def ofOption (name : String) (flag : Flag) (value : String) : Step :=
  match flag with
  | .help => if name == "-h" && value != "" then ofCluster value.toList else .refuse
  | flag => ofFlag flag (some value)

def isLast : Step → Bool
  | .help => true
  | .refuse => true
  | _ => false

def skipDashes (arguments : List Argument) : List Argument :=
  arguments.dropWhile (· == .dashes)

/-- The file among the arguments that come next, and the arguments behind it. -/
def takeFile (arguments : List Argument) : Option String × List Argument :=
  match skipDashes arguments with
  | .plain text :: rest => (some text, skipDashes rest)
  | rest => (none, rest)

def last (arguments : List Argument) (hasFile surplus : Bool) : List Step :=
  let (path, rest) := if hasFile then (none, arguments) else takeFile arguments
  (if hasFile then [] else [.file path]) ++ (if surplus || !rest.isEmpty then [.refuse] else [])

/-- What to do about arguments. `hasFile` tells that the file was given already, and `surplus` that
there was an argument too many. -/
def ofForms : List Argument → (hasFile surplus : Bool) → List Step
  | [], hasFile, surplus => last [] hasFile surplus
  | argument :: rest, hasFile, surplus =>
    if !(argument :: rest).any Argument.isOption then last (argument :: rest) hasFile surplus
    else match argument with
      | .option name flag (some value) =>
        let step := ofOption name flag value
        if step.isLast then [step] else step :: ofForms rest hasFile surplus
      | .option _ flag none =>
        if flag = .help then [.help]
        else match rest with
          | .plain value :: rest => ofFlag flag (some value) :: ofForms rest hasFile surplus
          | rest => ofFlag flag none :: ofForms rest hasFile surplus
      | .unknown => ofForms rest hasFile true
      | .plain text =>
        if hasFile then ofForms rest hasFile true
        else .file (some text) :: ofForms rest true surplus
      | .dashes => ofForms rest hasFile surplus

def ofArguments (arguments : List String) : List Step :=
  match Argument.ofTexts? arguments with
  | some forms => ofForms forms false false
  | none => [.refuse]

end Step

end ArmaScript.CommandLine
