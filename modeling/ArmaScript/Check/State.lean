import ArmaScript.Run.World
import ArmaScript.Value.Copy
import ArmaScript.Value.Unknown

/-!
# The state of a checker

A checker runs a script on unknown values and collects findings instead of stopping. Code that is
written but not run is kept with all that its run would see, and is checked at the end by a checker
of its own. All these checkers share the store and the record of which private variables are used.

`Check` is the monad of checkers. A failure, which stops a checker, keeps all that was done before.
-/

namespace ArmaScript

/-- How often a private variable was read, and the text that declared it. -/
structure Usage where
  count : Nat
  declared : Value

/-- Code that was not run, with what its run would see. -/
structure Pending where
  spaces : Namespaces Value
  space : Space
  children : List Tree
  position : Position
  doubt : Nat

/-- What tells pieces of code that were not run apart: place and text. -/
abbrev CodeKey := Position × String

/-- Variables that code gets when it is run. The name of a loop variable may be unknown. -/
abbrev Bindings := List (Option String × Value)

/-- What tells runs of code apart: its text, and the names and kinds of the variables it gets. -/
abbrev RunKey := String × List (Option String × Kind)

structure Checker where
  spaces : Namespaces Value
  current : Space
  findings : Array Diagnostic
  /-- The variables that were declared without being assigned to in the same statement. -/
  privates : List Value
  /-- The helpers that no control structure used yet. -/
  helpers : List Value
  pending : Table CodeKey Pending
  /-- The outcomes of the code that was run. Code is not run twice on variables of the same kinds. -/
  outcomes : Table RunKey Value
  /-- How many of the pieces of code around a statement may be run or not. -/
  doubt : Nat
  /-- The global variables that do not keep one kind. -/
  unsettled : List String

def Checker.ofVariables (vars : List (String × Value)) : Checker :=
  ⟨.ofVariables vars, .mission, #[], [], [], [], [], 0, []⟩

/-- A checker and what it shares with others. -/
structure CheckState where
  store : Store
  uses : Table String Usage
  checker : Checker

abbrev Check := EStateM Fault CheckState

namespace Check

/-- Takes over the outcome of a computation that changes nothing. -/
def lift {α : Type} : Except Fault α → Check α
  | .ok a => pure a
  | .error e => throw e

def stored {α : Type} (m : Stored α) : Check α := fun s =>
  let store := s.store
  let s := { s with store := .empty }
  match m store with
  | .ok a store => .ok a { s with store := store }
  | .error e store => .error e { s with store := store }

def checker : Check Checker :=
  return (← get).checker

def modifyChecker (f : Checker → Checker) : Check Unit :=
  modify fun s => { s with checker := f s.checker }

def placeOf (v : Value) : Check Position :=
  stored (.placeOf v.id)

def placeOfNode (t : Tree) : Check Position :=
  stored (.placeOf t.id)

def contentOf (v : Value) : Check Content :=
  stored (.contentOf v)

def atomAt (p : Position) (a : Atom) : Check Value := do
  let v ← stored (.atom a)
  stored (.setPlace v.id p)
  return v

def anything : Check Value :=
  stored (.atom .anything)

/-! ### Findings -/

def reportError (p : Position) (text : String) : Check Unit :=
  modifyChecker fun c => { c with findings := c.findings.push ⟨.error, p, text⟩ }

def reportWarning (p : Position) (text : String) : Check Unit :=
  modifyChecker fun c => { c with findings := c.findings.push ⟨.warning, p, text⟩ }

/-! ### Variables -/

def current : Check Space :=
  return (← checker).current

def setCurrent (space : Space) : Check Unit :=
  modifyChecker ({ · with current := space })

def stack (space : Space) : Check (Stack Value) :=
  return (← checker).spaces.stack space

def modifyStack (space : Space) (f : Stack Value → Except Fault (Stack Value)) : Check Unit := do
  let s ← lift (f (← stack space))
  modifyChecker fun c => { c with spaces := c.spaces.setStack space s }

def assignTop (name : String) (v : Value) : Check Unit := do
  modifyStack (← current) fun s => return s.assignAt (← s.top) name v

/-- The value of a name where the script would look for it, or an unknown one. -/
def valueOfName (name : String) : Check Value := do
  match ← lift ((← stack (← current)).find? name) with
  | some v => return v
  | none => anything

/-- What tells private variables apart: namespace, level and name. -/
def usageKey (space : Space) (level : Nat) (name : String) : String :=
  space.name ++ "_" ++ toString level ++ "_" ++ Text.lower name

/-- Counts a use of a variable, if it was declared. -/
def countUse (space : Space) (level : Nat) (name : String) : Check Unit :=
  modify fun s =>
    let key := usageKey space level name
    match s.uses.get? key with
    | some usage => { s with uses := s.uses.put key { usage with count := usage.count + 1 } }
    | none => s

/-! ### Code -/

def codeKey (id : NodeId) (children : List Tree) : Check CodeKey := do
  return (← stored (.placeOf id), Tree.textList children)

/-- Keeps code that is not kept yet, with a copy of all variables. -/
def keepCode (id : NodeId) (children : List Tree) : Check Unit := do
  let key ← codeKey id children
  let c ← checker
  if !c.pending.has key then
    let spaces ← stored (.copySpaces c.spaces)
    let pending : Pending := ⟨spaces, c.current, children, key.1, c.doubt⟩
    modifyChecker fun c => { c with pending := c.pending.put key pending }

/-- Gives the nodes of a script that was read their places. -/
def adopt (script : Script) : Check Unit :=
  stored (modify fun s => { s with nextId := script.nextId }.setPlaces script.places)

/-- Reads a script. Its nodes get identities that nothing in the store has. -/
def readScript (text : String) : Check Script := do
  let script ← lift (Script.read text (← get).store.nextId)
  adopt script
  return script

end Check

/-- What the parts of a checker ask of each other: the outcome of a node or value without looking up
a variable, its value, and the outcome of code. Code whose run is in doubt is marked so. -/
inductive Question where
  | token (v : Value)
  | value (v : Value)
  | code (body : Body) (bindings : Bindings) (space : Space) (inDoubt : Bool)

abbrev Ask := Question → Check Value

namespace Check

def token (ask : Ask) (t : Tree) : Check Value :=
  ask (.token (.ofTree t))

def code (ask : Ask) (v : Value) (bindings : Bindings) (space : Space) (inDoubt : Bool) :
    Check Value :=
  match v with
  | .code id _ children => ask (.code ⟨id, children, false⟩ bindings space inDoubt)
  | _ => throw .violation

end Check

end ArmaScript
