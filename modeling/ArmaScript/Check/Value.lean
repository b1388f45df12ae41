import ArmaScript.Check.State
import ArmaScript.Signature.Command

/-!
# Values in a checker

The value of a variable is the unknown value of its kind that was last assigned to it. A value that
is read gets the place where it was read. Code that is met is kept, to be checked if it is not run.
-/

namespace ArmaScript.Check

def variableValue (id : NodeId) (name : String) : Check Value := do
  let space ← current
  let stack ← stack space
  let level ← lift (stack.levelOf name)
  if level == 0 && isLocalName name then
    reportWarning (← stored (.placeOf id))
      ("Local variable \"" ++ name ++ "\" is not from this scope (not private)")
  let v ← match stack.valueAt? level name with
    | some v => pure v
    | none => anything
  stored (.copyPlace id v.id)
  countUse space level name
  return v

/-- What a value stands for that is neither a variable nor an array: a command without operands is
carried out, all else stands for itself. -/
def plainValue (v : Value) : Check Value := do
  let result ← match (Index.checked.lookup [v.operand]).head? with
    | some entry => match entry.signature.returns with
      | some k => stored (.result k)
      | none => anything
    | none => pure v
  stored (.copyPlace v.id result.id)
  return result

/-- A new array of what is done with each element, at the place of the array. -/
def arrayOf (id : NodeId) (elements : List Value) (f : Value → Check Value) : Check Value := do
  let vs ← elements.mapM f
  let result ← stored (.array vs)
  stored (.copyPlace id result.id)
  return result

/-- The last value of the statements that a resolved conditional stands for. -/
def resolutionValue (ask : Ask) (id : NodeId) : List Tree → Check Value
  | [] => throw .noResult
  | t :: ts => do
    stored (.placeTree (← stored (.placeOf id)) t)
    let v ← ask (.value (← token ask t))
    match ts with
    | [] => return v
    | ts => resolutionValue ask id ts

def valueOf (ask : Ask) (v : Value) : Check Value := do
  let each (w : Value) : Check Value := do ask (.value (← ask (.token w)))
  let result ← match v with
    | .node (.resolution id result _) => resolutionValue ask id result
    | .node (.expansion id _ result _) =>
      stored (.placeTree (← stored (.placeOf id)) result)
      each (.ofTree result)
    | .node (.statement ..) => each v
    | .node t@(.array id _) => arrayOf id (t.elements.map .ofTree) each
    | .atom id (.var name) => variableValue id name
    | .array id =>
      match (← get).store.elements? id with
      | some vs => arrayOf id vs each
      | none => plainValue v
    | v => plainValue v
  if let .code id _ children := result then keepCode id children
  return result

end ArmaScript.Check
