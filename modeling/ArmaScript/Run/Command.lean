import ArmaScript.Run.Loop
import ArmaScript.Run.Params
import ArmaScript.Value.Helper

/-!
# Commands of the interpreter

What the interpreter does for an entry whose signature fits. Results are new values without a place,
except where a command hands on what it was given or what code gave.
-/

namespace ArmaScript.Run

def ofBool (b : Bool) : Run Value :=
  stored (.boolean (some b))

def ofNum (n : Num) : Run Value :=
  stored (.number n)

def ofInt (n : Int) : Run Value :=
  ofNum (.int n)

def numberOf (v : Value) : Run Num := do
  match ← contentOf v with
  | .num n => return n
  | _ => throw .wrongType

def textOf (v : Value) : Run String := do
  match ← contentOf v with
  | .text s => return s
  | _ => throw .missingPart

def spaceOf (v : Value) : Run Space := do
  lift (Space.ofName (← textOf v))

/-! ### Numbers, texts and truth values -/

/-- Compares two numbers or two texts. `<` and `>` are the same. -/
def compare (op : Comparison) (left right : Value) : Run Value := do
  let l ← contentOf left
  let r ← contentOf right
  match op, l, r with
  | .equal, l, r => ofBool (l.same r)
  | .unequal, l, r => ofBool (!l.same r)
  | .less, .num m, .num n => ofBool (m.less n)
  | .greater, .num m, .num n => ofBool (m.less n)
  | .atMost, .num m, .num n => ofBool (m.atMost n)
  | .atLeast, .num m, .num n => ofBool (n.atMost m)
  | .isEqualTo, _, _ => throw .unknownName
  | .configChild, _, _ => throw .unknownName
  | _, _, _ => throw .wrongType

def compute (op : Arithmetic) (left right : Value) : Run Value := do
  let m ← numberOf left
  let n ← numberOf right
  match op with
  | .add => ofNum (← lift (m.add n))
  | .sub => ofNum (← lift (m.sub n))
  | .mul => ofNum (← lift (m.mul n))
  | .div => ofNum (← lift (m.div n))
  | .percent => ofNum (← lift (m.mod n))
  | .mod => ofNum (← lift (m.mod n))
  | .pow => ofNum (← lift (m.pow n))
  | .max => ofNum (m.max n)
  | .floor => throw .wrongType

def truth : Content → Option Bool
  | .bool b => some b
  | _ => none

/-- Combines two truth values, of which the second may be unknown. -/
def combine (op : Logic) (left right : Option Bool) : Option Bool :=
  match op, left with
  | .and, some true => right
  | .and, l => l
  | .or, some true => some true
  | .or, _ => right

/-- Combines a truth value and another one or the outcome of code. The code is always run. -/
def logic (answer : Answer) (op : Logic) (left right : Value) : Run Value := do
  let outcome ← match right with
    | .code .. =>
      let outcome ← plainCode answer right
      if outcome.kind != .boolean && outcome.kind != .nothing then
        failAt right ("code return must be a Boolean (returns " ++ outcome.kind.name ++ ")")
      pure outcome
    | _ => pure right
  stored (.boolean (combine op (truth (← contentOf left)) (truth (← contentOf outcome))))

/-- Joins two texts. The result has the quotes of the first. -/
def joinTexts (left right : Value) : Run Value := do
  match left with
  | .atom _ (.string (some q)) => stored (.string q.quote (q.body ++ (← textOf right)))
  | _ => throw .wrongType

/-- The index of the first place where `part` stands in `whole`. -/
def findPart (part : List Char) : List Char → Nat → Int
  | [], i => if part.isEmpty then i else -1
  | c :: cs, i => if part.isPrefixOf (c :: cs) then i else findPart part cs (i + 1)

def toArray (v : Value) : Run Value := do
  let codes ← (← textOf v).toList.mapM fun c => ofInt c.toNat
  stored (.array codes)

def charOf (c : Content) : Run Char := do
  let n ← lift c.whole
  if n ≥ 2147483648 || n < -2147483648 then throw .tooLarge
  if n < 0 || n > 0x10ffff then throw .badValue
  return Char.ofNat n.toNat

def toText (id : NodeId) : Run Value := do
  let chars ← (← stored (.elements id)).mapM fun v => do charOf (← contentOf v)
  stored (.string '"' (String.ofList chars))

/-! ### Arrays -/

/-- The element at an index, which is rounded. -/
def select (array : NodeId) (index : Value) : Run Value := do
  let n ← match (← contentOf index).number? with
    | some n => pure n
    | none => throw .wrongType
  let i ← lift n.round
  let vs ← stored (.elements array)
  match (index? vs.length i).bind (vs[·]?) with
  | some v => return v
  | none => failAt (.array array) ("selecting element " ++ toString i ++ " of array of size " ++
      toString vs.length)

/-- A part of an array, given by its start and its number of elements. -/
def selectRange (array range : NodeId) : Run Value := do
  let start ← contentOf (← stored (.element range 0))
  let count ← contentOf (← stored (.element range 1))
  let vs ← stored (.elements array)
  let first ← stored (.comparable start)
  if (Num.int vs.length).less first then failAt (.array array) "Selecting element past size"
  let last ← lift (first.add (← stored (.comparable count)))
  match first, last with
  | .int i, .int j => stored (.array (slice vs i j))
  | _, _ => throw .wrongType

/-- The content that an element is compared by when it is taken out of an array. -/
def plainContent (v : Value) : Run Content := do
  match ← contentOf v with
  | .list _ => throw .wrongType
  | c => return c

/-- The elements of an array whose content is not that of an element of another array. -/
def subtractArrays (left right : NodeId) : Run Value := do
  let removed ← (← stored (.elements right)).mapM fun v => return (v.id, ← plainContent v)
  let kept ← (← stored (.elements left)).filterM fun v => do
    let c ← plainContent v
    return !removed.any fun (id, d) => id == v.id || c.same d
  stored (.array kept)

def holds (array : NodeId) (v : Value) : Run Bool := do
  let store := (← get).store
  return (← stored (.elements array)).any (store.same · v)

/-- The index of the first element that equals a value, or `-1`. -/
def find (array : NodeId) (v : Value) : Run Int := do
  let store := (← get).store
  match (← stored (.elements array)).findIdx? (store.same · v) with
  | some i => return i
  | none => return -1

/-- Adds a value at the end of an array. The result is its index. -/
def pushBack (array : NodeId) (v : Value) : Run Int := do
  stored (.append array v)
  return (← stored (.length array)) - 1

/-! ### Namespaces -/

def nameOf (command : String) (v : Value) : Run Unit := do
  if v.kind != .string && v.kind != .nothing then
    failAt v (command ++ " array first element must be a string (is " ++ v.kind.name ++ ")")

def setVariable (space : Value) (arguments : NodeId) : Run Unit := do
  let vs ← stored (.elements arguments)
  if vs.length != 2 && vs.length != 3 then
    failAt (.array arguments) ("setVariable requires array of 2-3 elements (has " ++
      toString vs.length ++ ")")
  let name ← stored (.element arguments 0)
  nameOf "setVariable" name
  let v ← stored (.element arguments 1)
  assign (← spaceOf space) (← textOf name) v

def getVariable (space name : Value) : Run Value := do
  discard (placeOf name)
  readVariable (← spaceOf space) (← textOf name)

/-- `space getVariable [name, default]` -/
def getVariableOr (space : Value) (arguments : NodeId) : Run Value := do
  let vs ← stored (.elements arguments)
  if vs.length != 2 then
    failAt (.array arguments) ("getVariable requires array of 2 elements (has " ++
      toString vs.length ++ ")")
  let name ← stored (.element arguments 0)
  nameOf "getVariable" name
  let v ← getVariable space name
  if v.isNothing then stored (.element arguments 1) else return v

/-- Lets code be run when a public variable arrives. There must be a network. -/
def listen (name code : Value) : Run Unit := do
  if (← get).network.isNone then throw .missingPart
  let name ← textOf name
  modifyMachine fun m => { m with listeners := m.listeners.put name code }

/-! ### All commands -/

def unary (answer : Answer) (c : Command) (v : Value) : Run Value := do
  if let some helper := Stored.unaryHelper? c v then return ← stored helper
  match c, v with
  | .params, v => addParams v none; nothing
  | .call, v => plainCode answer v
  | .negate, v => ofNum (← numberOf v).neg
  | .floor, v => ofInt (← lift (← numberOf v).floor)
  | .reverse, .array a => stored (.reverse a); nothing
  | .count, .array a => ofInt (← stored (.length a))
  | .toArray, v => toArray v
  | .toText, .array a => toText a
  | _, _ => throw .violation

/-- Runs a command that has two operands. Only listening to a variable has no result at all. -/
def binary (answer : Answer) (c : Command) (left right : Value) : Run (Option Value) := do
  if let some helper := Stored.binaryHelper? c left right then return ← stored helper
  match c, left, right with
  | .withDo, .withOf _ space, body => code answer body [] (← spaceOf space)
  | .catchCode, _, _ => nothing
  | .forEach, body, .array a => forEach answer body a
  | .whileDo, .whileOf _ condition, body => whileDo answer condition body
  | .forDo, .forOf _ name first last step, body => forDo answer name first last step body
  | .forSpecDo, .forSpecOf _ (.array parts), body => forSpecDo answer parts body
  | .switchDo, .switchOf _ _ subject, .code id _ lines =>
    switchDo answer subject id (lines.filter Tree.isBase)
  | .thenSpec, .ifOf _ condition, .array parts =>
    let first ← stored (.element parts 0)
    let second ← stored (.element parts 1)
    choose answer condition first (some second)
  | .thenElse, .ifOf _ condition, .elseOf _ first second =>
    choose answer condition first (some second)
  | .thenCode, .ifOf _ condition, body => choose answer condition body none
  | .exitWith, _, _ => nothing
  | .paramsOf, _, v => addParams v none; nothing
  | .callWith, this, body => code answer body [("_this", this)] .mission
  | .compare op, l, r => compare op l r
  | .arithmetic op, l, r => compute op l r
  | .logic op, l, r => logic answer op l r
  | .joinTexts, l, r => joinTexts l r
  | .findText, l, r => ofInt (findPart (← textOf r).toList (← textOf l).toList 0)
  | .set, .array a, .array b => stored (.setBy a b); nothing
  | .resize, .array a, v => stored (.resize a (← contentOf v)); nothing
  | .isIn, v, .array a => ofBool (← holds a v)
  | .select, .array a, v => select a v
  | .selectRange, .array a, .array b => selectRange a b
  | .find, .array a, v => ofInt (← find a v)
  | .pushBack, .array a, v => ofInt (← pushBack a v)
  | .pushBackUnique, .array a, v => if ← holds a v then ofInt (-1) else ofInt (← pushBack a v)
  | .append, .array a, .array b => stored (.appendAll a (← stored (.elements b))); nothing
  | .joinArrays, .array a, .array b =>
    stored (.array ((← stored (.elements a)) ++ (← stored (.elements b))))
  | .subtractArrays, .array a, .array b => subtractArrays a b
  | .setVariable, space, .array a => setVariable space a; nothing
  | .getVariable, space, v => getVariable space v
  | .getVariableOr, space, .array a => getVariableOr space a
  | .listen, name, body => listen name body; return none
  | _, _, _ => throw .violation

end ArmaScript.Run
