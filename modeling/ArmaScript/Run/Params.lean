import ArmaScript.Parameter
import ArmaScript.Run.World

/-!
# Private variables and parameters

`private` and `params` put names into the top scope. The names must be local.
-/

namespace ArmaScript

namespace Run

def privateName (v : Value) : Run String := do
  match v with
  | .atom _ (.string q) =>
    match q with
    | none => throw .missingPart
    | some q =>
      if isLocalName q.body then return q.body
      failAt v (Parameter.notLocal q.body)
  | v => failAt v (Parameter.notText v.kind)

/-- Puts names into the top scope, without a value yet. -/
def addPrivates (names : List Value) : Run Unit := do
  for v in names do
    let name ← privateName v
    assignTop name (← nothing)

/-- The argument that was given, or the default if there is none or it is nothing. -/
def argumentOr (default : Value) : Option Value → Value
  | some v => if v.isNothing then default else v
  | none => default

/-- Puts a parameter with a default value into the top scope. -/
def addDefault (given : Option Value) (parameter : Value) (parts : List Value) : Run Unit := do
  match parts with
  | name :: default :: _ =>
    addPrivates [name]
    match ← contentOf name with
    | .text n =>
      assign (← current) n default
      assignTop n (argumentOr default given)
    | _ => throw .missingPart
  | _ => failAt parameter Parameter.wrongLength

def callArgument : Run Value := do
  valueOfName (← current) "_this"

/-- What the parameters get: a value that is given, unless it is nothing, or the argument of the
call. -/
def givenOrCalled : Option Value → Run Value
  | some v => if v.isNothing then callArgument else pure v
  | none => callArgument

/-- The arguments of the parameters. The elements of an array are one argument each. -/
def argumentsOf (given : Option Value) : Run (List Value) := do
  let source ← givenOrCalled given
  match ← contentOf source with
  | .list vs => return vs
  | _ => return [source]

def addParam (parameters parameter : Value) (argument : Option Value) : Run Unit := do
  match parameter with
  | .atom _ (.string q) =>
    if q.map Quoted.body != some "" then
      addPrivates [parameter]
      match argument with
      | some v => assignTop ((q.map Quoted.body).getD "") v
      | none =>
        throw (.warning (← placeOf parameter) (Parameter.missing ((← get).store.text parameter)))
  | .array id =>
    let parts ← stored (.elements id)
    if 2 ≤ parts.length && parts.length ≤ 4 then addDefault argument parameters parts
    else failAt parameters Parameter.wrongLength
  | _ => failAt parameters Parameter.wrongKind

/-- Puts the parameters that an array lists into the top scope, with the arguments of the call or with
the given ones. -/
def addParams (parameters : Value) (given : Option Value) : Run Unit := do
  let .array id := parameters
    | throw .violation
  let arguments ← argumentsOf given
  let listed ← stored (.elements id)
  if arguments.length > listed.length then
    throw (.warning (← placeOf parameters) (Parameter.tooMany arguments.length listed.length))
  for (parameter, i) in listed.zipIdx do
    addParam parameters parameter arguments[i]?

end Run

end ArmaScript
