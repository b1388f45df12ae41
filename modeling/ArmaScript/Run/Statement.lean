import ArmaScript.Run.Broadcast
import ArmaScript.Run.Command

/-!
# Running statements

A statement is run by evaluating its parts. If a command fits their values it is run; otherwise the
statement sends a public variable, declares or assigns a variable, or is a single value.

The functions that run code, nodes and statements need each other. Each takes a function that answers
the requests of the others, and `answerWithin` ties them together, up to a depth of nesting.
-/

namespace ArmaScript.Run

/-- Runs the statements of code in a namespace, in a scope of its own. After a failure the scope and
the namespace stay as they are. The scope of a file stays as well. -/
def runCode (answer : Answer) (body : Body) (vars : List (String × Value)) (space : Space) :
    Run Value := do
  let previous ← current
  setCurrent space
  modifyStack space fun s => return s.push vars
  let outcome ← nothing
  stored (.copyPlace body.id outcome.id)
  let outcome ← (body.children.filter Tree.isBase).foldlM
    (fun _ t => do valueOf (← answer (.node t))) outcome
  unless body.isFile do modifyStack space (·.pop)
  setCurrent previous
  return outcome

/-- Evaluates a node. The result gets the place of the node. A variable stands for itself. -/
def runNode (answer : Answer) (t : Tree) : Run Value := do
  let result ← match t with
    | .statement .. => answer (.statement t)
    | .array .. =>
      let elements := t.elements.filter fun s => !s.children.isEmpty
      stored (.array (← elements.mapM fun s => do valueOf (← answer (.node s))))
    | .atom id a => do
      let isServer := a.isKeyword "isServer"
      if isServer || a.isKeyword "isDedicated" then
        let w ← get
        match w.network with
        | none => throw .missingPart
        | some network => ofBool (if isServer then w.active == 0 else network.dedicated)
      else pure (.atom id a)
    | t => pure (.ofTree t)
  stored (.copyPlace t.id result.id)
  return result

def meaningless {α : Type} (statement : Tree) : Run α := do
  throw (.error (← stored (.placeOf statement.id))
    ("Interpretation of \"" ++ statement.text ++ "\" failed"))

def sendVariable (answer : Answer) (name : String) (audience : Audience) : Run Unit := do
  if (← get).network.isNone then throw .missingPart
  match ← find? .mission name with
  | some v => broadcast answer name v audience
  | none => throw .unknownName

/-- `publicVariable name`: the name must be written as a text. -/
def publicVariable (answer : Answer) (statement : Tree) (name : Value) (audience : Audience) :
    Run Unit := do
  match name with
  | .atom _ (.string (some q)) =>
    if isLocalName q.body then meaningless statement
    sendVariable answer q.body audience
  | _ => meaningless statement

def publicVariableClient (answer : Answer) (statement : Tree) (client name : Value)
    (clientKind : Kind) : Run Unit := do
  if clientKind != .number then meaningless statement
  let name ← textOf name
  if isLocalName name then meaningless statement
  sendVariable answer name (.ofContent (← contentOf client))

/-- `private` in front of the statement of a variable, which is then assigned to. -/
def declareVariable (node : Tree) (otherwise : Value) : Run Value := do
  match node with
  | .statement .. =>
    match node.base with
    | [] => throw .outOfRange
    | .atom id (.var name) :: _ =>
      addPrivates [← stored (.string '"' name)]
      return .privateOf (← stored .fresh) (.atom id (.var name))
    | _ => return otherwise
  | _ => return otherwise

/-- `private` with a text, an array of texts, or a variable that is then assigned to. -/
def declare (node : Tree) (v : Value) (otherwise : Value) : Run Value := do
  match v with
  | .atom _ (.string _) => addPrivates [v]; return otherwise
  | .array a => addPrivates (← stored (.elements a)); return otherwise
  | _ => declareVariable node otherwise

def assignedName (target : Tree) (left : Value) : Run (Option String) :=
  match left with
  | .privateOf _ v => return v.varName?
  | _ =>
    match target.leading? with
    | none => throw .outOfRange
    | some (.atom _ (.var name)) => return some name
    | some _ => return none

/-- Assigns to a variable. The outcome is the right side as written. -/
def assignTo (statement target : Tree) (left right value : Value) : Run Value := do
  match ← assignedName target left with
  | some name =>
    if !value.kind.isValue then meaningless statement
    assign (← current) name value
    return right
  | none => meaningless statement

/-- What a statement does if no command fits it. -/
def runOther (answer : Answer) (statement : Tree) (nodes : List Tree) (tokens values : List Value)
    (outcome : Value) : Run Value := do
  match nodes, tokens, values with
  | [_, node], [word, token], [_, value] =>
    if word.isKeyword "publicVariable" then
      publicVariable answer statement token .all
      return outcome
    else if word.isKeyword "publicVariableServer" then
      publicVariable answer statement token .server
      return outcome
    else if word.isKeyword "private" then declare node value outcome
    else meaningless statement
  | [target, _, _], [left, word, right], [leftValue, _, value] =>
    if word.isKeyword "=" then assignTo statement target left right value
    else if word.isKeyword "publicVariableClient" then
      publicVariableClient answer statement left right leftValue.kind
      return outcome
    else meaningless statement
  | _, [_], [value] => return value
  | _, _, _ => meaningless statement

def isEnded : Tree → Bool
  | .statement _ _ ending _ => ending.isSome
  | _ => false

/-- Runs a statement. One that ends with a semicolon or a comma has no outcome. -/
def runStatement (answer : Answer) (statement : Tree) : Run Value := do
  let unknown ← nothing
  let nodes := statement.base
  let parts ← nodes.mapM fun t => do
    let token ← answer (.node t)
    return (token, ← valueOf token)
  let tokens := parts.map Prod.fst
  let values := parts.map Prod.snd
  let operands := values.map Value.operand
  let outcome ← match (Index.interpreted.lookup operands).find? (·.signature.accepts operands) with
    | some entry => match values with
      | [_, right] => some <$> unary answer entry.command right
      | [left, _, right] => binary answer entry.command left right
      | _ => throw .violation
    | none => some <$> runOther answer statement nodes tokens values unknown
  match if isEnded statement then some unknown else outcome with
  | none => throw .missingPart
  | some v =>
    if v.kind != .nothing && v.kind != .keyword then
      if ← lift ((← get).store.isUndefined v) then throw .violation
    return v

/-- Answers a request, and has the requests that come up meanwhile answered. -/
def step (answer : Answer) : Answer
  | .code body vars space => runCode answer body vars space
  | .node t => runNode answer t
  | .statement t => runStatement answer t

/-- Answers requests that are nested at most `depth` deep. -/
def answerWithin : Nat → Answer
  | 0 => fun _ => throw .exhausted
  | depth + 1 => step (answerWithin depth)

def nestingLimit : Nat := 100000

def answer : Answer :=
  answerWithin nestingLimit

def readScript (text : String) : Run Script := do
  let script ← lift (Script.read text (← get).store.nextId)
  stored (modify fun s => { s with nextId := script.nextId }.setPlaces script.places)
  return script

/-- Runs a script on the machine that is active, with requests nested at most `depth` deep. -/
def interpretWithin (depth : Nat) (text : String) : Run Value := do
  let script ← readScript text
  let id ← stored .fresh
  stored (.setPlace id .start)
  let this ← nothing
  answerWithin depth (.code ⟨id, script.tree.children, true⟩ [("_this", this)] .mission)

def interpret (text : String) : Run Value :=
  interpretWithin nestingLimit text

end ArmaScript.Run
