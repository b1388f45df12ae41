import ArmaScript.Scope
import ArmaScript.Script.Parse
import ArmaScript.Value.Array

/-!
# Machines

A script runs on a machine, which has namespaces and, in a network, codes to be run when a public
variable arrives. The machines of a network share one store: a value that is sent to another machine
is the same value there. `Run` is the monad of running scripts: a failure keeps all that was done
before it.
-/

namespace ArmaScript

structure Machine where
  spaces : Namespaces Value
  /-- The namespace in which names are looked up. -/
  current : Space
  /-- The code to run when a public variable arrives, by the variable's name. -/
  listeners : Table String Value

def Machine.ofVariables (vars : List (String × Value)) : Machine :=
  ⟨.ofVariables vars, .mission, []⟩

structure Network where
  dedicated : Bool
  /-- The variables that were sent to all machines, for those that join later. -/
  broadcasts : Table String Value

/-- All machines, the server first, the one on which the script runs, and the network if there is
one. -/
structure World where
  store : Store
  machines : Array Machine
  active : Nat
  network : Option Network

abbrev Run := EStateM Fault World

namespace Run

def lift {α : Type} : Except Fault α → Run α
  | .ok a => pure a
  | .error e => throw e

def stored {α : Type} (m : Stored α) : Run α := fun w =>
  let store := w.store
  let w := { w with store := .empty }
  match m store with
  | .ok a store => .ok a { w with store := store }
  | .error e store => .error e { w with store := store }

def machine : Run Machine := do
  let w ← get
  match w.machines[w.active]? with
  | some m => return m
  | none => throw .outOfRange

def modifyMachine (f : Machine → Machine) : Run Unit :=
  modify fun w => { w with machines := w.machines.modify w.active f }

def current : Run Space :=
  return (← machine).current

def setCurrent (space : Space) : Run Unit :=
  modifyMachine ({ · with current := space })

def modifyStack (space : Space) (f : Stack Value → Except Fault (Stack Value)) : Run Unit := do
  let stack ← lift (f ((← machine).spaces.stack space))
  modifyMachine fun m => { m with spaces := m.spaces.setStack space stack }

def find? (space : Space) (name : String) : Run (Option Value) := do
  lift (((← machine).spaces.stack space).find? name)

/-- Gives a name a value in a namespace, at the level it belongs to. -/
def assign (space : Space) (name : String) (v : Value) : Run Unit :=
  modifyStack space (·.assign name v)

def assignTop (name : String) (v : Value) : Run Unit := do
  modifyStack (← current) fun s => return s.assignAt (← s.top) name v

def nothing : Run Value :=
  stored (.atom .nothing)

def valueOfName (space : Space) (name : String) : Run Value := do
  match ← find? space name with
  | some v => return v
  | none => nothing

/-- The value of a variable in a namespace, or nothing. A word of the language is no value. -/
def readVariable (space : Space) (name : String) : Run Value := do
  let v ← valueOfName space name
  if v.kind.isValue then return v else throw .violation

/-- The value that a value stands for: that of a variable is looked up, all others stand for
themselves. -/
def valueOf (v : Value) : Run Value := do
  match v.varName? with
  | some name => readVariable (← current) name
  | none => return v

def placeOf (v : Value) : Run Position :=
  stored (.placeOf v.id)

def contentOf (v : Value) : Run Content :=
  stored (.contentOf v)

def failAt {α : Type} (v : Value) (text : String) : Run α := do
  throw (.error (← placeOf v) text)

end Run

/-- Code to be run. A file is code without braces whose variables stay. -/
structure Body where
  id : NodeId
  children : List Tree
  isFile : Bool

/-- What the parts of a script ask of each other: the outcome of code in a namespace, of a node, or
of a statement. -/
inductive Request where
  | code (body : Body) (vars : List (String × Value)) (space : Space)
  | node (t : Tree)
  | statement (t : Tree)

abbrev Answer := Request → Run Value

namespace Run

def code (answer : Answer) (v : Value) (vars : List (String × Value)) (space : Space) :
    Run Value :=
  match v with
  | .code id _ children => answer (.code ⟨id, children, false⟩ vars space)
  | _ => throw .violation

def plainCode (answer : Answer) (v : Value) : Run Value :=
  code answer v [] .mission

end Run

end ArmaScript
