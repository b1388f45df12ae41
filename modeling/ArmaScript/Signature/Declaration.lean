import ArmaScript.Fault
import ArmaScript.Signature.Catalogue

/-!
# Declarations of commands

The catalogue is made from a list of declarations, one a line. The parts of a declaration are parted
by two underscores: the name of the command comes second, then the kinds of its operands, and the
kind of its result comes last, followed by a semicolon. Where several kinds are possible they are
parted by one underscore.
-/

namespace ArmaScript.Declaration

def kinds : List (String × Kind) := [
  ("array", .array), ("scalar", .number), ("bool", .boolean), ("code", .code), ("string", .string),
  ("text", .string), ("namespace", .nspace), ("config", .config), ("location", .location),
  ("object", .object), ("group", .group), ("member", .teamMember), ("control", .control),
  ("display", .display), ("exception", .tryHelper), ("for", .forHelper), ("if", .ifHelper),
  ("switch", .switchHelper), ("while", .whileHelper), ("with", .withHelper), ("side", .side),
  ("task", .task), ("script", .script), ("nan", .number), ("nothing", .nothing),
  ("netobject", .netObject), ("any", .any), ("diary", .diaryReport)]

def operandKind (name : String) : Except Fault Kind :=
  match kinds.lookup name with
  | some k => .ok k
  | none => .error .unknownName

/-- The commands whose declared result is wrong. -/
def corrections : List (String × Kind) :=
  [("attachedto", .object), ("getclientstatenumber", .number), ("handgunmagazine", .array)]

/-- The parts of a text between the places where a character stands. -/
def partsAt (c : Char) (text : String) : List String :=
  (text.toList.splitOn c).map String.ofList

/-- The parts of a text between double underscores, which are looked for from the left. The part that
was begun is given from its end. -/
def sectionsFrom (begun : List Char) : List Char → List String
  | '_' :: '_' :: rest => String.ofList begun.reverse :: sectionsFrom [] rest
  | c :: rest => sectionsFrom (c :: begun) rest
  | [] => [String.ofList begun.reverse]

/-- The names of alternative kinds. A number that is no number needs no kind of its own, and the
names of two kinds have an underscore in them. -/
def names (text : String) : List String :=
  (((partsAt '_' text).erase "nan").erase "team").erase "record"

/-- The kind of a result. Nothing does not count among several kinds, and of several others nothing is
known. -/
def resultKind (text : String) : Except Fault Kind :=
  let names := names text
  let names := if names.length > 1 then names.erase "nothing" else names
  match names with
  | [] => .error .outOfRange
  | [name] => if name == "any" then .ok .anything else operandKind name
  | _ => .ok .anything

def signatures (name : String) (operands : List String) (returns : Kind) :
    Except Fault (List Signature) :=
  match operands with
  | [left, right] => do
    let rows ← (names left).mapM fun l => do
      let l ← operandKind l
      (names right).mapM fun r => return .binary l name (← operandKind r) returns
    return rows.flatten
  | [right] => (names right).mapM fun r => return .unary name (← operandKind r) returns
  | _ => .ok [.nullary name returns]

def dropLast (text : String) : String :=
  String.ofList text.toList.dropLast

/-- What a line declares. A line that is no declaration declares nothing, and one with a wrong number
of parts cannot be read. -/
def ofLine (line : String) : Except Fault (Option (List Signature)) := do
  if !line.startsWith "static " then return some []
  match sectionsFrom [] line.toList with
  | _ :: name :: rest =>
    if rest.length < 2 || rest.length > 4 then return none
    let returns ← match corrections.lookup name with
      | some k => pure k
      | none => resultKind (dropLast ((rest.getLast?).getD ""))
    return some (← signatures name (rest.take (rest.length - 2)) returns)
  | _ => return none

/-- What was read so far: the signatures and the lines that could not be read. -/
structure Reading where
  signatures : List Signature
  unread : List String

/-- Reads declarations. A failure keeps what was read before it. -/
def readLines : List String → EStateM Fault Reading Unit
  | [] => return
  | line :: rest => do
    match ofLine line with
    | .error f => throw f
    | .ok (some found) => modify fun r => { r with signatures := r.signatures ++ found }
    | .ok none => modify fun r => { r with unread := r.unread ++ [line] }
    readLines rest

/-- Reads a text of declarations. Lines end at newlines only. -/
def read (text : String) : EStateM.Result Fault Reading Unit :=
  readLines (partsAt '\n' text) ⟨[], []⟩

/-! ### Writing the catalogue -/

/-- What is said about lines that cannot be read. -/
def notes (unread : List String) : String :=
  String.join (unread.map fun line => "Could't read line:  " ++ line ++ "\n")

/-- How a result is made that needs to be told what it is: the only one is the namespace of the
mission. -/
def initial (returns : Option Kind) (arguments : String) : String :=
  if returns == some .nspace then ", action=lambda " ++ arguments ++ ": 'missionNamespace'" else ""

def entry (s : Signature) : String :=
  let result := (s.returns.map Kind.name).getD "None"
  match s with
  | .nullary k r => "NullExpression(Keyword('" ++ k ++ "'), " ++ result ++ initial r "i" ++ ")"
  | .unary k a r =>
    "UnaryExpression(Keyword('" ++ k ++ "'), " ++ a.name ++ ", " ++ result ++
      initial r "rhs, i" ++ ")"
  | .binary a k b r =>
    "BinaryExpression(" ++ a.name ++ ", Keyword('" ++ k ++ "'), " ++ b.name ++ ", " ++ result ++
      initial r "lhs, rhs, i" ++ ")"

def preamble : String :=
  "# This file is generated automatically by `build_database.py`. Change it there.\n" ++
  "from sqf.expressions import BinaryExpression, UnaryExpression, NullExpression\n" ++
  "from sqf.types import Keyword, Type, Nothing, Anything, String, Code, Array, Number, Boolean, " ++
    "Namespace, \\\n" ++
  "    Object, Config, Script, Control, Group, Display, Side, Task, Location, NetObject, " ++
    "DiaryReport, TeamMember\n" ++
  "from sqf.interpreter_types import WhileType, \\\n" ++
  "    ForType, SwitchType, IfType, TryType, WithType"

/-- The written catalogue: the operators, which are not declared, and then the given signatures. -/
def catalogue (found : List Signature) : String :=
  let operators := (Catalogue.operators ++ Catalogue.unarySymbols).map fun s => "    " ++ entry s ++ ",\n"
  preamble ++ "\n\n\nEXPRESSIONS = [\n" ++ String.join operators ++ "    " ++
    ",\n    ".intercalate (found.map entry) ++ "\n]\n"

end ArmaScript.Declaration
