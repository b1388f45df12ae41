import ArmaScript.Run.World

/-!
# Loops and choices

The control structures that run code several times or not at all. A loop stops with an error after a
very large number of rounds.
-/

namespace ArmaScript.Run

def loopLimit : Nat := 1000000000

def isFalse (v : Value) : Run Bool := do
  match ← contentOf v with
  | .bool false => return true
  | _ => return false

/-- Runs code, and what follows each round, as long as a condition does not give false. The outcome is
that of the last round. -/
def whileLoop (answer : Answer) (condition body : Value) (next : Option Value) :
    Nat → Value → Run Value
  | 0, _ => throw .exhausted
  | fuel + 1, outcome => do
    if ← isFalse (← plainCode answer condition) then return outcome
    let outcome ← plainCode answer body
    if let some next := next then discard (plainCode answer next)
    whileLoop answer condition body next fuel outcome

def whileDo (answer : Answer) (condition body : Value) : Run Value := do
  whileLoop answer condition body none loopLimit (← nothing)

/-- `for [start, condition, increment] do body` -/
def forSpecDo (answer : Answer) (parts : NodeId) (body : Value) : Run Value := do
  let start ← stored (.element parts 0)
  let condition ← stored (.element parts 1)
  let increment ← stored (.element parts 2)
  let outcome ← nothing
  stored (.copyPlace start.id outcome.id)
  discard (plainCode answer start)
  whileLoop answer condition body (some increment) loopLimit outcome

def required {α : Type} : Option α → Run α
  | some a => return a
  | none => throw .missingPart

/-- The whole number that a bound of a loop must be. -/
def bound : Content → Run Int
  | .num (.int n) => return n
  | _ => throw .wrongType

/-- Runs code for `rounds` numbers from `i` on. -/
def countLoop (answer : Answer) (name : String) (body : Value) (step : Int) :
    Nat → Int → Value → Run Value
  | 0, _, outcome => return outcome
  | rounds + 1, i, _ => do
    let n ← stored (.number (.int i))
    let outcome ← code answer body [(name, n)] .mission
    countLoop answer name body step rounds (i + step) outcome

/-- How many numbers there are from `first` on in steps of `step` before `stop` is reached. -/
def rounds (first stop step : Int) : Nat :=
  if step > 0 then ((stop - first + step - 1).fdiv step).toNat
  else ((first - stop - step - 1).fdiv (-step)).toNat

/-- `for name from first to last step step do body`. The last number is included. If the steps go
down, the loop ends above the number after it. -/
def forDo (answer : Answer) (name : Value) (first last : Option Value) (step body : Value) :
    Run Value := do
  let counter ← contentOf name
  let first ← contentOf (← required first)
  let last ← contentOf (← required last)
  let step ← contentOf step
  let outcome ← nothing
  stored (.copyPlace body.id outcome.id)
  let first ← bound first
  let last ← bound last
  let step ← bound step
  if step = 0 then throw .badValue
  match counter with
  | .text n => countLoop answer n body step (rounds first (last + 1) step) first outcome
  | _ => throw .missingPart

/-- Runs code for the elements of a buffer from index `i` on. The buffer may change meanwhile. -/
def eachLoop (answer : Answer) (body : Value) (buffer : Nat) : Nat → Nat → Value → Run Value
  | 0, _, _ => throw .exhausted
  | fuel + 1, i, outcome => do
    match ((← get).store.buffers[buffer]?).bind (·[i]?) with
    | none => return outcome
    | some v =>
      let n ← stored (.number (.int i))
      let outcome ← code answer body [("_x", v), ("_forEachIndex", n)] .mission
      eachLoop answer body buffer fuel (i + 1) outcome

def forEach (answer : Answer) (body : Value) (array : NodeId) : Run Value := do
  let outcome ← nothing
  eachLoop answer body (← stored (.bufferOf array)) loopLimit 0 outcome

/-- Runs one of two pieces of code, of which the second may be missing. -/
def choose (answer : Answer) (condition : Value) (first : Value) (second : Option Value) :
    Run Value := do
  match ← contentOf condition, first with
  | .bool c, .code .. =>
    if c then plainCode answer first
    else match second with
      | some v => plainCode answer v
      | none => nothing
  | _, _ => throw .violation

/-- One line of a switch: the default, or a case with the code for it, if it has any. -/
inductive Branch where
  | default (body : Value)
  | case (condition : Value) (body : Option Value)

/-- The value of a node inside a switch: statements are run and variables looked up, all else stands
for itself. -/
def switchValue (answer : Answer) (t : Tree) : Run Value := do
  match t with
  | .statement .. => valueOf (← answer (.statement t))
  | t => valueOf (.ofTree t)

/-- Reads one line of the switch whose code is `id`. -/
def branch (answer : Answer) (id : NodeId) (hasDefault : Bool) (line : Tree) : Run Branch := do
  let values ← line.base.mapM (switchValue answer)
  match values with
  | [] => throw .outOfRange
  | .switchOf _ keyword subject :: rest =>
    if keyword == "default" then
      if hasDefault then
        throw (.error (← stored (.placeOf id)) "Switch code contains more than 1 `default`")
      match subject with
      | .code .. => return .default subject
      | _ => throw .violation
    else match rest with
      | [] => return .case subject none
      | [colon, body] =>
        if colon.isKeyword ":" then return .case subject (some body) else throw .violation
      | _ => throw .violation
  | _ =>
    throw (.error (← stored (.placeOf line.id))
      "Switch code can only start with \"case\" or \"default\"")

def Branch.isDefault : Branch → Bool
  | .default _ => true
  | .case .. => false

def Branch.default? : Branch → Option Value
  | .default body => some body
  | .case .. => none

/-- Reads the lines of a switch, all of them before any code is run. -/
def branches (answer : Answer) (id : NodeId) (lines : List Tree) : Run (List Branch) :=
  lines.foldlM (fun done line => do
    return done ++ [← branch answer id (done.any Branch.isDefault) line]) []

/-- Runs the first case that fits. A case without code lets the next case with code run. -/
def runCases (answer : Answer) (subject : Value) : List Branch → Bool → Run (Option Value)
  | [], _ => return none
  | .default _ :: rest, falling => runCases answer subject rest falling
  | .case condition body :: rest, falling => do
    match body, falling with
    | some body, true => return some (← plainCode answer body)
    | body, _ =>
      let v ← valueOf condition
      if (← get).store.same v subject then
        match body with
        | some body => return some (← plainCode answer body)
        | none => runCases answer subject rest true
      else runCases answer subject rest falling

/-- Runs the first case that fits, or else the default, or else gives true. -/
def runBranches (answer : Answer) (subject : Value) (branches : List Branch) : Run Value := do
  match ← runCases answer subject branches false with
  | some v => return v
  | none =>
    match branches.findSome? Branch.default? with
    | some body => plainCode answer body
    | none => stored (.boolean true)

def switchDo (answer : Answer) (subject : Value) (id : NodeId) (lines : List Tree) :
    Run Value := do
  runBranches answer subject (← branches answer id lines)

end ArmaScript.Run
