import ArmaScript.Precedence
import ArmaScript.Slice
import ArmaScript.Table
import ArmaScript.Tree.Basic

/-!
# Building trees

While a script is read, new nodes get fresh identities and definitions are remembered by name and
number of parameters. `Build` is the monad of both. This module has the nodes that need no look at
the surrounding tokens: bracketed statements, code, arrays, and a row of tokens that is arranged
into a statement.
-/

namespace ArmaScript

/-- The definitions of a script: for each name those with different numbers of parameters, in the
order in which the numbers first came up. -/
abbrev Definitions := Table String (Table Nat Tree)

namespace Definitions

def named (ds : Definitions) (name : String) : Table Nat Tree :=
  (ds.get? name).getD []

def add (ds : Definitions) (name : String) (arity : Nat) (definition : Tree) : Definitions :=
  ds.put name ((ds.named name).put arity definition)

end Definitions

structure BuildState where
  nextId : NodeId
  definitions : Definitions

abbrev Build := EStateM Fault BuildState

namespace Build

def fail {α : Type} (fault : Fault) : Build α :=
  throw fault

def lift {α : Type} : Except Fault α → Build α
  | .ok a => pure a
  | .error e => throw e

def fresh : Build NodeId :=
  modifyGet fun s => (s.nextId, { s with nextId := s.nextId + 1 })

/-- A new bracket, comma or ending. -/
def mark (text : String) : Build Tree :=
  return .atom (← fresh) (.mark text)

def statement (nodes : List Tree) : Build Tree :=
  return .statement (← fresh) false none nodes

def bracketed (nodes : List Tree) : Build Tree := do
  let opening ← mark "("
  let closing ← mark ")"
  return .statement (← fresh) true none (opening :: nodes ++ [closing])

def code (nodes : List Tree) : Build Tree := do
  let opening ← mark "\x7b"
  let closing ← mark "\x7d"
  return .code (← fresh) (opening :: nodes ++ [closing])

/-- The given nodes with a new comma between any two. -/
def withCommas : List Tree → Build (List Tree)
  | [] => return []
  | [t] => return [t]
  | t :: ts => do
    let comma ← mark ","
    return t :: comma :: (← withCommas ts)

/-- A new array. It must have an element. -/
def array (elements : List Tree) : Build Tree := do
  if elements.isEmpty then throw .emptyArray
  let opening ← mark "["
  let inner ← withCommas elements
  let closing ← mark "]"
  return .array (← fresh) (opening :: inner ++ [closing])

/-- Gives a statement an ending in place of the one it has; other nodes stay as they are. -/
def setEnding (t : Tree) (ending : Option Ending) : Build Tree :=
  match t with
  | .statement id b old cs => do
    let cs := if old.isSome then cs.dropLast else cs
    match ending with
    | none => return .statement id b none cs
    | some e => return .statement id b (some e) (cs ++ [← mark e.text])
  | t => return t

mutual

/-- The node of an arranged row, with a new statement for every group. -/
def ofExp : Exp Tree → Build Tree
  | .leaf t => return t
  | .group es => do statement (← ofExpList es)

def ofExpList : List (Exp Tree) → Build (List Tree)
  | [] => return []
  | e :: es => return (← ofExp e) :: (← ofExpList es)

end

def items : Precedence.Items Tree :=
  ⟨Tree.text, Tree.isLayout⟩

def endingOf? (row : List Tree) : Option Ending :=
  match row.getLast? with
  | some (.atom _ (.mark text)) => Ending.ofText? text
  | _ => none

/-- The statement of a row of tokens, of which the last may be an ending. -/
def arrange (row : List Tree) : Build Tree := do
  let ending := endingOf? row
  let row := if ending.isSome then row.dropLast else row
  let t ← ofExp (← lift (Precedence.arrange items row))
  match t with
  | .statement .. => setEnding t ending
  | t => setEnding (← statement [t]) ending

/-- The parts of a row of tokens between its commas. -/
def splitCommas : List Tree → List (List Tree)
  | [] => [[]]
  | t :: ts =>
    match t.isMark ",", splitCommas ts with
    | true, parts => [] :: parts
    | false, part :: parts => (t :: part) :: parts
    | false, [] => [[t]]

/-- The elements of an array that is written with the given tokens, which end at `stop`. -/
def arrayElements (row : List Tree) (stop : Position) : Build (List Tree) :=
  if row.isEmpty then return []
  else (splitCommas row).mapM fun part =>
    if part.isEmpty then throw (.error stop "Array cannot have an empty element") else arrange part

/-- The token at an index, which counts from the end if it is negative. -/
def at? (row : Array Tree) (i : Int) : Option Tree :=
  (index? row.size i).bind (row[·]?)

end Build

end ArmaScript
