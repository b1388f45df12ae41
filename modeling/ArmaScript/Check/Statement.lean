import ArmaScript.Check.Assign
import ArmaScript.Check.Entry
import ArmaScript.Check.Value

/-!
# Checking statements

A statement is a directive, a declaration, an assignment, a single variable or array, the use of
something that looks like a definition from elsewhere, or an expression. The functions that check
nodes, values and code need each other: each takes a function that answers the questions of the
others, and `askWithin` ties them together, up to a depth of nesting.
-/

namespace ArmaScript.Check

/-! ### Comments -/

/-- The words that let a comment declare variables. -/
def commentWords : List String :=
  ["IGNORE_PRIVATE_WARNING", "USES_VARIABLES"]

def firstArray? (t : Tree) : Option Tree :=
  match t.children with
  | first :: _ => match first with
    | .array .. => none
    | t => match t.children with
      | a@(.array ..) :: _ => some a
      | _ => none
  | [] => none

def elementName (t : Tree) : Check String := do
  let leaf ← match t with
    | .statement .. => match t.base with
      | first :: _ => pure first
      | [] => throw .outOfRange
    | t => pure t
  match leaf with
  | .atom _ a => match Store.atomContent a with
    | .text name => return name
    | _ => throw .missingPart
  | _ => throw .missingPart

/-- Declares the variables that a comment lists. Their values are unknown. -/
def declareListed (ask : Ask) (text : String) : Check Unit := do
  let script ← readScript text
  match firstArray? script.tree with
  | none => throw .violation
  | some array =>
    match ← contentOf (← ask (.value (.ofTree array))) with
    | .list vs => addPrivates vs
    | _ => throw .violation
    for t in array.elements do
      let name ← elementName t
      assignTop name (← anything)

def checkComment (ask : Ask) (t : Tree) : Check Unit := do
  match t with
  | .atom id (.comment text) =>
    let content := String.ofList (text.toList.drop 2)
    match commentWords.find? (content.startsWith ·) with
    | none => return
    | some word =>
      try declareListed ask (String.ofList (content.toList.drop (word.length + 1)))
      catch _ =>
        reportWarning (← stored (.placeOf id))
          (word ++ " comment must be `//" ++ word ++ " [\"var1\",...]`")
  | _ => return

/-! ### Directives and definitions from elsewhere -/

/-- `#include` must have one operand, a text. -/
def checkInclude (ask : Ask) (word : Tree) (rest : List Tree) : Check Unit := do
  match rest with
  | [t] =>
    let v ← token ask t
    if v.kind != .string then
      reportError (← placeOfNode word) "#include first argument must be a string"
  | _ => reportError (← placeOfNode word) "#include requires one argument"

def isDirectiveWord : Tree → Bool
  | .atom _ (.keyword w) => Vocabulary.directives.contains w
  | .atom _ (.directive w) => Vocabulary.directives.contains w
  | _ => false

def firstChar (t : Tree) : Check Char := do
  match t.text.toList with
  | c :: _ => return c
  | [] => throw .outOfRange

/-- Whether two nodes look like the use of a definition from elsewhere: an upper-case name and
arguments in brackets. -/
def looksDefined (name arguments : Tree) : Check Bool := do
  let first ← match name with
    | .statement .. => match name.base with
      | t :: _ => pure t
      | [] => throw .outOfRange
    | t => pure t
  if Text.isUpperChar (← firstChar first) then return (← firstChar arguments) == '('
  else return false

/-- The nodes that stand for the arguments of a definition from elsewhere. -/
def definedArguments (name arguments : Tree) : Check (List Tree) := do
  match arguments.base with
  | [] => throw .outOfRange
  | t@(.statement ..) :: _ => return t.base
  | _ => match name with
    | .atom .. => throw .wrongType
    | .array .. => return name.elements
    | t => return t.children

/-! ### Expressions -/

/-- The message about operands that no signature takes. -/
def mismatch (possible : List Entry) (values : List Value) : String :=
  let kind (i : Nat) : String := (values[i]?.map (·.kind.name)).getD ""
  match possible.map Entry.signature with
  | .unary keyword a r :: rest =>
    let kinds := (.unary keyword a r :: rest).filterMap fun
      | .unary _ a _ => some a.name
      | _ => none
    "Unary operator \"" ++ keyword ++ "\" only accepts argument of types [" ++
      ",".intercalate kinds ++ "] (rhs is " ++ kind 1 ++ ")"
  | .binary l keyword r o :: rest =>
    let kinds := (.binary l keyword r o :: rest).filterMap fun
      | .binary l _ r _ => some ("(" ++ l.name ++ "," ++ r.name ++ ")")
      | _ => none
    "Binary operator \"" ++ keyword ++ "\" arguments must be [" ++ ",".intercalate kinds ++
      "] (lhs is " ++ kind 0 ++ ", rhs is " ++ kind 2 ++ ")"
  | _ => ""

def isGlobal : Tree → Bool
  | .atom _ (.var name) => !isLocalName name
  | _ => false

/-- The outcome of an expression that no signature fits. -/
def checkMismatch (statement first last : Tree) (possible : List Entry)
    (tokens values : List Value) (otherwise : Value) : Check Value := do
  match values with
  | [v] =>
    if !v.kind.isValue then
      reportError (← placeOfNode statement)
        ("\"" ++ statement.text ++ "\" is syntactically incorrect (missing ;?)")
    return v
  | _ =>
    if isGlobal first then return otherwise
    match possible, values with
    | _ :: _, _ :: operator :: _ =>
      reportError (← placeOf operator) (mismatch possible values)
    | _, _ =>
      let store := (← get).store
      let shown := tokens.map fun v => "<" ++ v.kind.name ++ "(" ++ store.text v ++ ")>"
      reportError (← placeOfNode last)
        ("can't interpret statement (missing ;?): " ++ " ".intercalate shown)
    atomAt (← placeOfNode first) .anything

/-- Keeps a helper until a control structure uses it. A case, a declared variable and a definition
need not be used. -/
def keepHelper (v : Value) : Check Unit := do
  let store := (← get).store
  if v.kind.isHelper && v.kind != .switchHelper && v.kind != .privateHelper && v.kind != .define then
    modifyChecker fun c =>
      if c.helpers.any (store.same · v) then c else { c with helpers := c.helpers ++ [v] }

/-- Checks an expression. Its outcome gets the place of its first node. -/
def checkExpression (ask : Ask) (statement first : Tree) (nodes : List Tree) (ended : Bool)
    (otherwise : Value) : Check Value := do
  let parts ← nodes.mapM fun t => do
    let v ← token ask t
    return (v, ← ask (.value v))
  let tokens := parts.map Prod.fst
  let values := parts.map Prod.snd
  let operands := values.map Value.operand
  let possible := Index.checked.lookup operands
  let outcome ← match possible.find? (·.signature.admits operands) with
    | some entry => runEntry ask entry possible values otherwise
    | none =>
      checkMismatch statement first ((nodes.getLast?).getD first) possible tokens values otherwise
  keepHelper outcome
  let place ← placeOfNode first
  if outcome.kind != .privateHelper then stored (.setPlace outcome.id place)
  if ended then atomAt place .nothing else return outcome

/-! ### All statements -/

/-- Whether a statement ends with a semicolon or a comma. -/
def isEnded : Tree → Bool
  | .statement _ _ ending _ => ending.isSome
  | _ => false

/-- The word of a keyword that starts with an upper-case letter, which looks like a definition from
elsewhere. -/
def upperKeyword? : Tree → Option String
  | .atom _ (.keyword w) => match w.toList with
    | c :: _ => if Text.isUpperChar c then some w else none
    | [] => none
  | _ => none

def isVariableOrArray (t : Tree) : Bool :=
  t.kind == .var || t.kind == .array

/-- What a statement does with the nodes that take part in it. -/
def checkNodes (ask : Ask) (statement : Tree) (outcome : Value) : Check Value := do
  let nodes := statement.base
  let expression (first : Tree) : Check Value :=
    checkExpression ask statement first nodes (isEnded statement) outcome
  match nodes with
  | [] => return outcome
  | first :: rest =>
    if first.kind == .define then return .ofTree first
    else if first.isDirective "#include" then
      checkInclude ask first rest
      return outcome
    else if isDirectiveWord first then return outcome
    else match rest with
      | [] =>
        if isVariableOrArray first then token ask first
        else match upperKeyword? first with
          | some w => atomAt (← placeOfNode first) (.var w)
          | none => expression first
      | [second] =>
        if first.isKeyword "private" then declare ask first second outcome
        else if ← looksDefined first second then
          for t in ← definedArguments first second do
            discard (ask (.value (.ofTree t)))
          atomAt (← placeOfNode first) .anything
        else expression first
      | [second, third] =>
        if second.isKeyword "=" then checkAssignment ask first third (isEnded statement) outcome
        else expression first
      | _ => expression first

def checkStatement (ask : Ask) (statement : Tree) : Check Value := do
  let outcome ← atomAt (← placeOfNode statement) .nothing
  for t in statement.children do
    unless t.isBase do checkComment ask t
  checkNodes ask statement outcome

/-- The outcome of a node or of a value. Variables stand for themselves. -/
def tokenOf (ask : Ask) (v : Value) : Check Value := do
  let each (w : Value) : Check Value := ask (.token w)
  match v with
  | .node t@(.statement ..) => checkStatement ask t
  | .node t@(.array id _) => arrayOf id (t.elements.map .ofTree) each
  | .array id =>
    match (← get).store.elements? id with
    | some vs => arrayOf id vs each
    | none => do
      discard (placeOf v)
      return v
  | v => do
    discard (placeOf v)
    return v

/-- Answers a question, and has the questions that come up meanwhile answered. -/
def step (ask : Ask) : Ask
  | .token v => tokenOf ask v
  | .value v => valueOf ask v
  | .code body bindings space inDoubt => runCode ask body bindings space inDoubt

/-- Answers questions that are nested at most `depth` deep. -/
def askWithin : Nat → Ask
  | 0 => fun _ => throw .exhausted
  | depth + 1 => step (askWithin depth)

def nestingLimit : Nat := 100000

def ask : Ask :=
  askWithin nestingLimit

def checkScript (script : Script) : Check Unit := do
  let id ← stored .fresh
  stored (.setPlace id .start)
  let this ← atomAt .start .anything
  discard (ask (.code ⟨id, script.tree.children, true⟩ [(some "_this", this)] .mission false))

def check (text : String) : Check Unit := do
  checkScript (← readScript text)

end ArmaScript.Check
