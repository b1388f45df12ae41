import ArmaScript.Signature.Catalogue
import Std.Data.HashMap

/-!
# Commands

What a signature does beyond giving a value of its kind. The control structures are known both to
the checker and to the interpreter; the other commands are known to the interpreter, and the checker
sees only their signatures. `Entry.override` lets entries take the place of those of the same shape,
and `Index` finds the entries for a keyword and a number of parts.
-/

namespace ArmaScript

inductive Comparison where
  | equal | isEqualTo | unequal | less | greater | atMost | atLeast | configChild
deriving DecidableEq, Repr

inductive Arithmetic where
  | add | sub | mul | div | percent | mod | pow | max | floor
deriving DecidableEq, Repr

inductive Logic where
  | and | or
deriving DecidableEq, Repr

inductive Command where
  /-- Nothing is known but the signature. -/
  | plain
  /-- Control structures. -/
  | caseOf | defaultOf | switchOn | switchDo | withSpace | withDo | tryCode | catchCode
  | whileCond | whileDo | forVar | forFrom | forTo | forStep | forDo | forSpec | forSpecDo | forEach
  | ifCond | elseCode | thenSpec | thenElse | thenCode | exitWith
  | params | paramsOf | call | callWith
  /-- Numbers, texts and truth values. -/
  | negate | floor | compare (op : Comparison) | arithmetic (op : Arithmetic) | logic (op : Logic)
  | joinTexts | findText | toArray | toText
  /-- Arrays. -/
  | reverse | set | resize | count | isIn | select | selectRange | find | pushBack | pushBackUnique
  | append | joinArrays | subtractArrays
  /-- Namespaces and machines. -/
  | setVariable | getVariable | getVariableOr | listen
deriving DecidableEq, Repr

structure Entry where
  signature : Signature
  command : Command
deriving Repr

namespace Entry

/-- A signature about which nothing else is known. -/
def plain (signature : Signature) : Entry :=
  ⟨signature, .plain⟩

/-- Removes the first entry of the same shape, and adds the entry at the end. -/
def replace (entries : List Entry) (e : Entry) : List Entry :=
  entries.eraseP (·.signature.sameShape e.signature) ++ [e]

/-- Lets a list of entries take the place of those of the same shape, in order. -/
def override (entries overriding : List Entry) : List Entry :=
  overriding.foldl replace entries

/-- The control structures and the two commands that run code. -/
def control : List Entry := [
  ⟨.unary "case" .any (some .switchHelper), .caseOf⟩,
  ⟨.unary "default" .any (some .switchHelper), .defaultOf⟩,
  ⟨.unary "with" .nspace (some .withHelper), .withSpace⟩,
  ⟨.binary .withHelper "do" .code none, .withDo⟩,
  ⟨.unary "try" .code (some .tryHelper), .tryCode⟩,
  ⟨.binary .tryHelper "catch" .code none, .catchCode⟩,
  ⟨.binary .code "forEach" .array none, .forEach⟩,
  ⟨.unary "while" .code (some .whileHelper), .whileCond⟩,
  ⟨.binary .whileHelper "do" .code none, .whileDo⟩,
  ⟨.unary "for" .string (some .forHelper), .forVar⟩,
  ⟨.binary .forHelper "from" .number (some .forHelper), .forFrom⟩,
  ⟨.binary .forHelper "to" .number (some .forHelper), .forTo⟩,
  ⟨.binary .forHelper "step" .number (some .forHelper), .forStep⟩,
  ⟨.binary .forHelper "do" .code none, .forDo⟩,
  ⟨.unary "for" .array (some .forSpecHelper), .forSpec⟩,
  ⟨.binary .forSpecHelper "do" .code none, .forSpecDo⟩,
  ⟨.unary "switch" .any (some .switchHelper), .switchOn⟩,
  ⟨.binary .switchHelper "do" .code none, .switchDo⟩,
  ⟨.unary "if" .boolean (some .ifHelper), .ifCond⟩,
  ⟨.binary .code "else" .code (some .elseHelper), .elseCode⟩,
  ⟨.binary .ifHelper "then" .array none, .thenSpec⟩,
  ⟨.binary .ifHelper "then" .elseHelper none, .thenElse⟩,
  ⟨.binary .ifHelper "then" .code none, .thenCode⟩,
  ⟨.binary .ifHelper "exitwith" .code none, .exitWith⟩,
  ⟨.unary "params" .array (some .boolean), .params⟩,
  ⟨.binary .any "params" .array (some .boolean), .paramsOf⟩,
  ⟨.unary "call" .code none, .call⟩,
  ⟨.binary .any "call" .code none, .callWith⟩]

/-- The comparisons that the interpreter knows, with their keywords. Only two of them compare texts. -/
def comparisons : List Entry :=
  let keywords : List (String × Comparison) := [("==", .equal), ("isequalto", .isEqualTo),
    ("!=", .unequal), ("<", .less), (">", .greater), ("<=", .atMost), (">=", .atLeast),
    (">>", .configChild)]
  keywords.flatMap fun (keyword, op) =>
    ⟨.binary .number keyword .number (some .boolean), .compare op⟩ ::
      if op = .equal ∨ op = .unequal then
        [⟨.binary .string keyword .string (some .boolean), .compare op⟩]
      else []

def arithmetics : List Entry :=
  let keywords : List (String × Arithmetic) := [("+", .add), ("-", .sub), ("*", .mul), ("/", .div),
    ("%", .percent), ("mod", .mod), ("^", .pow), ("max", .max), ("floor", .floor)]
  keywords.map fun (keyword, op) => ⟨.binary .number keyword .number (some .number), .arithmetic op⟩

/-- The operators of logic: the right operand may be code. -/
def logics : List Entry :=
  let keywords : List (String × Logic) := [("&&", .and), ("and", .and), ("||", .or), ("or", .or)]
  keywords.flatMap fun (keyword, op) => [
    ⟨.binary .boolean keyword .boolean (some .boolean), .logic op⟩,
    ⟨.binary .boolean keyword .code (some .boolean), .logic op⟩]

/-- What the interpreter can do, besides the control structures that only build helpers. -/
def executable : List Entry := [
  ⟨.binary .tryHelper "catch" .code none, .catchCode⟩,
  ⟨.binary .code "forEach" .array none, .forEach⟩,
  ⟨.binary .whileHelper "do" .code none, .whileDo⟩,
  ⟨.binary .forHelper "do" .code none, .forDo⟩,
  ⟨.binary .forSpecHelper "do" .code none, .forSpecDo⟩,
  ⟨.binary .switchHelper "do" .code none, .switchDo⟩,
  ⟨.binary .ifHelper "then" .array none, .thenSpec⟩,
  ⟨.binary .ifHelper "then" .elseHelper none, .thenElse⟩,
  ⟨.binary .ifHelper "then" .code none, .thenCode⟩,
  ⟨.binary .ifHelper "exitwith" .code none, .exitWith⟩,
  ⟨.unary "params" .array (some .nothing), .params⟩,
  ⟨.binary .any "params" .array (some .nothing), .paramsOf⟩,
  ⟨.unary "-" .number (some .number), .negate⟩,
  ⟨.unary "floor" .number (some .number), .floor⟩,
  ⟨.unary "reverse" .array (some .nothing), .reverse⟩,
  ⟨.binary .array "set" .array (some .nothing), .set⟩,
  ⟨.binary .array "resize" .number (some .nothing), .resize⟩,
  ⟨.unary "count" .array (some .number), .count⟩,
  ⟨.binary .any "in" .array (some .boolean), .isIn⟩,
  ⟨.binary .array "select" .number none, .select⟩,
  ⟨.binary .array "select" .boolean none, .select⟩,
  ⟨.binary .array "select" .array (some .array), .selectRange⟩,
  ⟨.binary .array "find" .any (some .number), .find⟩,
  ⟨.binary .string "find" .string (some .number), .findText⟩,
  ⟨.binary .array "pushBack" .any (some .number), .pushBack⟩,
  ⟨.binary .array "pushBackUnique" .any (some .number), .pushBackUnique⟩,
  ⟨.binary .array "append" .array (some .nothing), .append⟩,
  ⟨.unary "toArray" .string (some .array), .toArray⟩,
  ⟨.unary "toString" .array (some .string), .toText⟩,
  ⟨.unary "call" .code none, .call⟩,
  ⟨.binary .any "call" .code none, .callWith⟩,
  ⟨.binary .nspace "setVariable" .array (some .nothing), .setVariable⟩,
  ⟨.binary .nspace "getVariable" .string none, .getVariable⟩,
  ⟨.binary .nspace "getVariable" .array none, .getVariableOr⟩,
  ⟨.binary .string "addPublicVariableEventHandler" .code none, .listen⟩,
  ⟨.binary .array "+" .array (some .array), .joinArrays⟩,
  ⟨.binary .array "-" .array (some .array), .subtractArrays⟩,
  ⟨.binary .string "+" .string (some .string), .joinTexts⟩] ++ comparisons ++ arithmetics ++ logics

/-- The entries that the checker knows: the catalogue, with the control structures. -/
def checked : List Entry :=
  override (Catalogue.all.map plain) control

/-- The entries that the interpreter tries, in order. -/
def interpreted : List Entry :=
  override control executable

/-- The entries for a word and a number of parts, in order: those whose keyword is the word. -/
def candidates (entries : List Entry) (word : String) (arity : Nat) : List Entry :=
  entries.filter fun e => e.signature.word == word && e.signature.arity == arity

end Entry

/-- Entries by keyword and number of parts. -/
abbrev Index := Std.HashMap (String × Nat) (List Entry)

namespace Index

def insertEntry (e : Entry) (index : Index) : Index :=
  let key := (e.signature.word, e.signature.arity)
  index.insert key (e :: index.getD key [])

def ofEntries (entries : List Entry) : Index :=
  entries.foldr insertEntry ∅

/-- The entries that operands can stand for: those for the first word among them. -/
def lookup (index : Index) (operands : List Operand) : List Entry :=
  match Operand.firstWord? operands with
  | some word => index.getD (word, operands.length) []
  | none => []

def checked : Index :=
  ofEntries Entry.checked

def interpreted : Index :=
  ofEntries Entry.interpreted

end Index

end ArmaScript
