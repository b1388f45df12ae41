import ArmaScript.Check.Code
import ArmaScript.Check.Params
import ArmaScript.Value.Helper

/-!
# Commands in a checker

What a checker does for a signature that fits the operands, or may fit them because some are unknown.
Control structures make helpers and run code; of all other commands only the kind of the result is
known. Then all code among the operands is run, since the command may run it.
-/

namespace ArmaScript

/-- The kinds of the operands by position; the keyword has none. -/
def Signature.operandKinds : Signature → List (Option Kind)
  | .nullary .. => [none]
  | .unary _ a _ => [none, some a]
  | .binary l _ r _ => [some l, none, some r]

namespace Check

def spaceOf (v : Value) : Check Space := do
  match ← contentOf v with
  | .text name => lift (Space.ofName name)
  | _ => throw .missingPart

/-- Runs a text as code. A text that cannot be read is an error at the place of the text. -/
def runText (ask : Ask) (v : Value) (bindings : Bindings) : Check Unit := do
  match ← contentOf v with
  | .text text =>
    let start := (← get).store.nextId
    match Script.read text start with
    | .error (.reported d) =>
      if d.severity == .warning then throw (.reported d)
      reportError (← placeOf v) ("Error while parsing a string to code: " ++ d.message)
    | .error fault => throw fault
    | .ok script =>
      adopt script
      let id ← stored .fresh
      let opening := Tree.atom (← stored .fresh) (.mark "\x7b")
      let closing := Tree.atom (← stored .fresh) (.mark "\x7d")
      stored (.copyPlace v.id id)
      let body : Body := ⟨id, [opening, script.tree, closing], false⟩
      discard (ask (.code body bindings .mission false))
  | _ => throw .wrongType

/-- The code that two commands take as a text, so that the variables in it count as used. -/
def runTextOperand (ask : Ask) (word : String) (values : List Value) : Check Unit := do
  match values with
  | [_, v] => if word == "isnil" && v.kind == .string then runText ask v []
  | [v, _, _] =>
    if word == "configclasses" then
      let x ← anything
      runText ask v [(some "_x", x)]
  | _ => return

/-- The outcome of a command whose signature surely fits. -/
def runCommand (ask : Ask) (entry : Entry) (values : List Value) : Check Value := do
  match entry.command, values with
  | .plain, _ => match entry.signature.returns with
    | some k => stored (.result k)
    | none => anything
  | .params, [_, v] => addParams v none; stored (.boolean (some true))
  | .paramsOf, [given, _, v] => addParams v given; stored (.boolean (some true))
  | .call, [_, body] => code ask body [] .mission false
  | .callWith, [this, _, body] => code ask body [(some "_this", this)] .mission false
  | .withDo, [.withOf _ space, _, body] => code ask body [] (← spaceOf space) false
  | c, [_, v] => match Stored.unaryHelper? c v with
    | some helper => stored helper
    | none => anything
  | c, [l, _, r] => match Stored.binaryHelper? c l r with
    | some helper => stored helper
    | none => anything
  | _, _ => anything

/-- The outcome of a command whose signature may fit, from what all signatures of the keyword give. -/
def guess (entry : Entry) (possible : List Entry) (values : List Value) (otherwise : Value) :
    Check Value := do
  let kinds := possible.map (·.signature.returns)
  match kinds with
  | [] => anything
  | returns :: rest =>
    if rest.any (· != returns) then anything
    else
      let outcome ←
        if entry.command = .forEach ∨ entry.command = .elseCode then anything
        else match returns with
          | some k => stored (.unknown k)
          | none => pure otherwise
      if returns == some .forHelper then
        match values with
        | .forOf _ name first last step :: _ =>
          return .forOf (← stored .fresh) name first last step
        | _ => throw .missingPart
      else if entry.signature.word == "call" then anything
      else return outcome

/-- The variables that a command gives to the code among its operands. -/
def bindingsOf (word : String) (values : List Value) : Check Bindings := do
  if ["select", "apply", "count"].contains word then return [(some "_x", ← anything)]
  else if word == "foreach" then
    let index ← stored (.unknown .number)
    return [(some "_foreachindex", index), (some "_x", ← anything)]
  else if word == "catch" then return [(some "_exception", ← anything)]
  else if word == "spawn" then return [(some "_thisScript", ← stored (.unknown .script))]
  else match word, values with
    | "do", .forOf _ name _ _ _ :: _ =>
      let number ← stored (.unknown .number)
      match ← contentOf name with
      | .text n => return [(some n, number)]
      | _ => return [(none, number)]
    | _, _ => return []

/-- Runs code that is an operand. What is spawned runs on its own. -/
def runOperand (ask : Ask) (word : String) (v : Value) (bindings : Bindings) : Check Unit := do
  if word == "spawn" then
    match v with
    | .code id _ children =>
      checkPending ask (← codeKey id children) bindings true
      let key ← codeKey id children
      if !(← checker).pending.has key then throw .unknownName
      modifyChecker fun c => { c with pending := c.pending.remove key }
    | _ => throw .violation
  else discard (code ask v bindings (← current) true)

/-- Takes a helper out of those that are not used yet. -/
def useHelper (v : Value) : Check Unit := do
  if v.kind.isHelper then
    let store := (← get).store
    modifyChecker fun c => { c with helpers := c.helpers.eraseP (store.same · v) }

def runEntry (ask : Ask) (entry : Entry) (possible : List Entry) (values : List Value)
    (otherwise : Value) : Check Value := do
  let word := entry.signature.word
  let outcome ←
    if entry.signature.accepts (values.map Value.operand) then do
      runTextOperand ask word values
      runCommand ask entry values
    else guess entry possible values otherwise
  let bindings ← bindingsOf word values
  for (v, kind) in values.zip entry.signature.operandKinds do
    if kind == some .code && v.kind == .code then runOperand ask word v bindings
    useHelper v
  if outcome.kind.isValue then return outcome else throw .violation

end Check

end ArmaScript
