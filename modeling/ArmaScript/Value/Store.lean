import ArmaScript.Value.Basic
import Std.Data.HashMap

/-!
# The store

The store keeps what several holders of a value share: where it was last written, and the elements of
an array. The elements of an array are kept in a buffer. All changes of an array happen in its
buffer, except that shortening it gives it a new buffer, so that a loop over the old one goes on
undisturbed.

An array without elements cannot be shown. A change that empties an array takes place, but fails, and
the array keeps the text that it had.
-/

namespace ArmaScript

/-- The elements of an array: the buffer that holds them, unless the array is undefined, and the
elements that its text shows. -/
structure ArrayCell where
  buffer : Option Nat
  shown : List Value

/-- What is shared between the holders of values. -/
structure Store where
  nextId : NodeId
  places : Std.HashMap NodeId Position
  arrays : Std.HashMap NodeId ArrayCell
  buffers : Std.HashMap Nat (List Value)

/-- Computations on the store. A failure keeps the changes made before it. -/
abbrev Stored := EStateM Fault Store

namespace Store

def empty : Store :=
  ⟨0, ∅, ∅, ∅⟩

/-- The elements of an array, unless it is undefined. -/
def elements? (s : Store) (id : NodeId) : Option (List Value) := do
  let cell ← s.arrays[id]?
  let buffer ← cell.buffer
  s.buffers[buffer]?

/-- The elements that the text of an array shows. -/
def shown (s : Store) (id : NodeId) : List Value :=
  ((s.arrays[id]?).map ArrayCell.shown).getD []

def setPlaces (s : Store) (places : List (NodeId × Position)) : Store :=
  { s with places := places.foldl (fun m (id, p) => m.insert id p) s.places }

end Store

namespace Stored

def fresh : Stored NodeId :=
  modifyGet fun s => (s.nextId, { s with nextId := s.nextId + 1 })

def atom (a : Atom) : Stored Value :=
  return .atom (← fresh) a

def number (n : Num) : Stored Value :=
  atom (.number n)

def boolean (b : Option Bool) : Stored Value :=
  atom (.boolean b)

def string (quote : Char) (body : String) : Stored Value :=
  atom (.string (some ⟨quote, body⟩))

/-- The place of a value. It must have one. -/
def placeOf (id : NodeId) : Stored Position := do
  match (← get).places[id]? with
  | some p => return p
  | none => throw .unplaced

def setPlace (id : NodeId) (p : Position) : Stored Unit :=
  modify fun s => { s with places := s.places.insert id p }

def copyPlace (source target : NodeId) : Stored Unit := do
  setPlace target (← placeOf source)

/-- Gives a node and all nodes in it their places, if the node starts at `p`. -/
def placeTree (p : Position) (t : Tree) : Stored Unit :=
  modify fun s => s.setPlaces (t.placesInOrder p)

def undefinedArray : Stored Value := do
  let id ← fresh
  modify fun s => { s with arrays := s.arrays.insert id ⟨none, []⟩ }
  return .array id

/-- A new array. It must have an element. -/
def array (elements : List Value) : Stored Value := do
  if elements.isEmpty then throw .emptyArray
  let id ← fresh
  let buffer ← fresh
  modify fun s => { s with
    arrays := s.arrays.insert id ⟨some buffer, elements⟩
    buffers := s.buffers.insert buffer elements }
  return .array id

/-- The buffer of an array. The array must not be undefined. -/
def bufferOf (id : NodeId) : Stored Nat := do
  match ((← get).arrays[id]?).bind ArrayCell.buffer with
  | some buffer => return buffer
  | none => throw .violation

/-- The elements of an array. The array must not be undefined. -/
def elements (id : NodeId) : Stored (List Value) := do
  match (← get).elements? id with
  | some vs => return vs
  | none => throw .violation

/-- Lets the text of an array show its elements. There must be one. -/
def refresh (id : NodeId) : Stored Unit := do
  let vs ← elements id
  if vs.isEmpty then throw .emptyArray
  modify fun s => { s with
    arrays := s.arrays.modify id fun cell => { cell with shown := vs } }

def change (id : NodeId) (f : List Value → List Value) : Stored Unit := do
  let buffer ← bufferOf id
  modify fun s => { s with buffers := s.buffers.modify buffer f }
  refresh id

/-- Gives an array a new buffer. -/
def rebuild (id : NodeId) (vs : List Value) : Stored Unit := do
  let buffer ← fresh
  modify fun s => { s with
    arrays := s.arrays.modify id fun cell => { cell with buffer := some buffer }
    buffers := s.buffers.insert buffer vs }
  refresh id

end Stored

end ArmaScript
