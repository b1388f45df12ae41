import ArmaScript.Check.Params

/-!
# Declarations and assignments in a checker

A variable keeps only the kind of what is assigned to it. A global variable that changes its kind is
unsettled from then on: its value is unknown. A local variable that changes its kind in code that may
be run or not is unknown as well.
-/

namespace ArmaScript.Check

def settledKind (name : String) (level doubt : Nat) (unsettled : List String) (old new : Kind) :
    Kind :=
  if level == 0 then (if unsettled.contains name then .anything else new)
  else if old != new && doubt ≥ level then .anything
  else new

def assign (id : NodeId) (name : String) (v : Value) : Check Unit := do
  let place ← stored (.placeOf id)
  let space ← current
  let stack ← stack space
  let level ← lift (stack.levelOf name)
  let old := ((stack.valueAt? level name).map Value.kind).getD .anything
  let c ← checker
  if level == 0 && (old != .anything || c.doubt > 0) && old != v.kind &&
      !c.unsettled.contains name then
    modifyChecker fun c => { c with unsettled := c.unsettled ++ [name] }
  let c ← checker
  let new ← stored (.unknown (settledKind name level c.doubt c.unsettled old v.kind))
  modifyStack space fun s => return s.assignAt level name new
  if level == 0 && isLocalName name then
    reportWarning place
      ("Local variable \"" ++ name ++ "\" assigned to an outer scope (not private)")

/-- Adds a declared variable to those that are not assigned to. One of the same name stays. -/
def addPrivate (v : Value) : Check Unit := do
  let store := (← get).store
  modifyChecker fun c =>
    if c.privates.any (store.same v) then c else { c with privates := c.privates ++ [v] }

/-- Takes a declared variable out of those that are not assigned to. -/
def removePrivate (v : Value) : Check Unit := do
  let store := (← get).store
  if !(← checker).privates.any (store.same v) then throw .unknownName
  modifyChecker fun c => { c with privates := c.privates.eraseP (store.same v) }

def declareAll (word : Tree) (array : Value) : Check Unit := do
  match ← contentOf array with
  | .list vs => addPrivates vs
  | _ =>
    reportWarning (← placeOfNode word)
      "Obfuscated statement. Consider explicitly set what is private."

/-- `private` with a text, an array or a variable. -/
def declare (ask : Ask) (word right : Tree) (otherwise : Value) : Check Value := do
  let v ← token ask right
  match v with
  | .atom _ (.string _) => addPrivates [v]; return otherwise
  | .atom id (.var name) =>
    let place ← stored (.placeOf id)
    addPrivates [← atomAt place (.string (some ⟨'"', name⟩))]
    let outcome := Value.privateOf (← stored .fresh) v
    stored (.setPlace outcome.id place)
    addPrivate outcome
    return outcome
  | .array _ =>
    declareAll word (← ask (.value v))
    return otherwise
  | _ =>
    reportError (← placeOfNode word) "`private` used incorrectly"
    return otherwise

/-- An assignment. While its right side is checked, a variable that has no value yet counts as
unknown, since code there may call itself by its name. -/
def checkAssignment (ask : Ask) (left right : Tree) (ended : Bool) (otherwise : Value) :
    Check Value := do
  let target ← match ← token ask left with
    | v@(.privateOf _ name) => do
      removePrivate v
      pure name
    | _ => match left.leading? with
      | none => throw .outOfRange
      | some t => pure (.ofTree t)
  match target with
  | .atom id (.var name) =>
    let space ← current
    let stack ← stack space
    let level ← lift (stack.levelOf name)
    if ((stack.valueAt? level name).map Value.isNothing).getD true then
      let unknown ← anything
      modifyStack space fun s => return s.assignAt level name unknown
    let v ← ask (.value (.ofTree right))
    assign id name v
    return if ended then otherwise else v
  | _ =>
    reportError (← placeOfNode left) "lhs of assignment operator must be a variable"
    return otherwise

end ArmaScript.Check
