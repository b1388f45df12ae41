import ArmaScript.Fault
import ArmaScript.Table
import ArmaScript.Text.Case

/-!
# Scopes and namespaces

A scope holds variables by name, without regard to case. The scopes of a namespace are stacked: the
base scope at the bottom, one on top for every piece of code that is running. A local name, which
starts with an underscore, is looked up from the top down; all other names belong to the base.
-/

namespace ArmaScript

variable {α : Type}

/-- Variables by name in lower case. -/
abbrev Scope (α : Type) := Table String α

namespace Scope

def find? (s : Scope α) (name : String) : Option α :=
  s.get? (Text.lower name)

def assign (s : Scope α) (name : String) (value : α) : Scope α :=
  s.put (Text.lower name) value

/-- A scope with the given variables; of two names that differ in case only the last counts. -/
def ofVariables (vars : List (String × α)) : Scope α :=
  vars.foldl (fun s (name, value) => s.assign name value) []

end Scope

def isLocalName (name : String) : Bool :=
  name.startsWith "_"

/-- The scopes of a namespace, the base scope first. The level of a scope is its index. -/
structure Stack (α : Type) where
  scopes : List (Scope α)

namespace Stack

def ofVariables (vars : List (String × α)) : Stack α :=
  ⟨[.ofVariables vars]⟩

/-- The highest level above the base, below `n`, whose scope has a variable of this name. -/
def highestWith? (s : Stack α) (name : String) : Nat → Option Nat
  | 0 => none
  | n + 1 =>
    if n ≥ 1 && ((s.scopes[n]?.bind (·.find? name)).isSome) then some n else s.highestWith? name n

/-- The level that a name belongs to: for a local name the highest scope that has it, and otherwise,
or if none has it, the base. -/
def levelOf (s : Stack α) (name : String) : Except Fault Nat :=
  if s.scopes.isEmpty then .error .outOfRange
  else if isLocalName name then .ok ((s.highestWith? name s.scopes.length).getD 0)
  else .ok 0

def valueAt? (s : Stack α) (level : Nat) (name : String) : Option α :=
  s.scopes[level]?.bind (·.find? name)

def assignAt (s : Stack α) (level : Nat) (name : String) (value : α) : Stack α :=
  ⟨s.scopes.modify level (·.assign name value)⟩

def find? (s : Stack α) (name : String) : Except Fault (Option α) := do
  return s.valueAt? (← s.levelOf name) name

/-- Gives a name a value at the level it belongs to. -/
def assign (s : Stack α) (name : String) (value : α) : Except Fault (Stack α) := do
  return s.assignAt (← s.levelOf name) name value

def top (s : Stack α) : Except Fault Nat :=
  if s.scopes.isEmpty then .error .outOfRange else .ok (s.scopes.length - 1)

def push (s : Stack α) (vars : List (String × α)) : Stack α :=
  ⟨s.scopes ++ [.ofVariables vars]⟩

def pop (s : Stack α) : Except Fault (Stack α) :=
  if s.scopes.isEmpty then .error .outOfRange else .ok ⟨s.scopes.dropLast⟩

end Stack

inductive Space where
  | ui | parsing | mission | profile
deriving DecidableEq, Repr

namespace Space

/-- The name of a namespace in lower case. -/
def name : Space → String
  | .ui => "uinamespace"
  | .parsing => "parsingnamespace"
  | .mission => "missionnamespace"
  | .profile => "profilenamespace"

def all : List Space :=
  [.ui, .parsing, .mission, .profile]

def ofName (name : String) : Except Fault Space :=
  match all.find? (·.name == Text.lower name) with
  | some s => .ok s
  | none => .error .unknownName

end Space

structure Namespaces (α : Type) where
  ui : Stack α
  parsing : Stack α
  mission : Stack α
  profile : Stack α

namespace Namespaces

/-- Namespaces with variables in the base scope of the mission only. -/
def ofVariables (vars : List (String × α)) : Namespaces α :=
  ⟨.ofVariables [], .ofVariables [], .ofVariables vars, .ofVariables []⟩

def stack (n : Namespaces α) : Space → Stack α
  | .ui => n.ui
  | .parsing => n.parsing
  | .mission => n.mission
  | .profile => n.profile

def setStack (n : Namespaces α) (space : Space) (s : Stack α) : Namespaces α :=
  match space with
  | .ui => { n with ui := s }
  | .parsing => { n with parsing := s }
  | .mission => { n with mission := s }
  | .profile => { n with profile := s }

end Namespaces

end ArmaScript
