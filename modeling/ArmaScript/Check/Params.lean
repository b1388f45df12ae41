import ArmaScript.Check.State
import ArmaScript.Parameter

/-!
# Declared names and parameters in a checker

A checker goes on after a name or an argument that does not fit. Every name that is declared is
recorded as not used yet.
-/

namespace ArmaScript.Check

def declareName (declared : Value) (name : String) : Check Unit := do
  assignTop name (← stored (.atom .nothing))
  let space ← current
  let level ← lift (← stack space).top
  modify fun s => { s with uses := s.uses.put (usageKey space level name) ⟨0, declared⟩ }

def addPrivates (names : List Value) : Check Unit := do
  for v in names do
    match v with
    | .atom _ (.string q) =>
      match q with
      | none => throw .missingPart
      | some q =>
        if isLocalName q.body then declareName v q.body
        else reportError (← placeOf v) (Parameter.notLocal q.body)
    | v => reportError (← placeOf v) (Parameter.notText v.kind)

/-- The arguments that the parameters get. An unknown value stands for one unknown value each. -/
def argumentsOf (v : Value) (count : Nat) : Check (List Value) := do
  match v with
  | .array id => match (← get).store.elements? id with
    | some vs => return vs
    | none => (List.range count).mapM fun _ => anything
  | .atom _ .anything => (List.range count).mapM fun _ => anything
  | v => return [v]

def addParam (parameters parameter : Value) (argument : Option Value) : Check Unit := do
  match parameter with
  | .atom _ (.string q) =>
    if q.map Quoted.body != some "" then
      addPrivates [parameter]
      match argument with
      | some v => assignTop ((q.map Quoted.body).getD "") v
      | none =>
        reportWarning (← placeOf parameter) (Parameter.missing ((← get).store.text parameter))
  | .array id =>
    let parts ← stored (.elements id)
    match parts with
    | name :: default :: rest =>
      if rest.length > 2 then reportError (← placeOf parameters) Parameter.wrongLength
      else
        addPrivates [name]
        let v := match argument with
          | some v => if v.isNothing then default else v
          | none => default
        match ← contentOf name with
        | .text n => assignTop n v
        | _ => throw .missingPart
    | _ => reportError (← placeOf parameters) Parameter.wrongLength
  | _ => reportError (← placeOf parameters) Parameter.wrongKind

/-- Declares the parameters that an array lists, with the arguments of the call or with the given
ones. -/
def addParams (parameters : Value) (given : Option Value) : Check Unit := do
  let .array id := parameters
    | throw .violation
  let source ← match given with
    | some v => if v.isNothing then valueOfName "_this" else pure v
    | none => valueOfName "_this"
  let listed ← stored (.elements id)
  let arguments ← argumentsOf source listed.length
  if arguments.length > listed.length then
    reportWarning (← placeOf parameters) (Parameter.tooMany arguments.length listed.length)
  for (parameter, i) in listed.zipIdx do
    addParam parameters parameter arguments[i]?

end ArmaScript.Check
