import ArmaScript.Number.Arithmetic
import ArmaScript.Slice
import ArmaScript.Value.Content

/-!
# Operations on arrays

Reading and changing the elements of an array. An index may count from the end, if it is negative; a
part of an array may reach beyond it and is then cut off.
-/

namespace ArmaScript

/-- The largest number of items that a list can be asked to have. -/
def largestCount : Int := Nat.pow 2 63 - 1

namespace Stored

def lift {α : Type} : Except Fault α → Stored α
  | .ok a => pure a
  | .error e => throw e

def contentOf (v : Value) : Stored Content :=
  return (← get).content v

def length (id : NodeId) : Stored Nat :=
  return (← elements id).length

def element (id : NodeId) (i : Int) : Stored Value := do
  let vs ← elements id
  match (index? vs.length i).bind (vs[·]?) with
  | some v => return v
  | none => throw .outOfRange

/-- Makes an array long enough to have an element at an index. The new elements are one and the same
value: nothing. -/
def extend (id : NodeId) (i : Content) : Stored Unit := do
  let vs ← elements id
  let filler ← atom .nothing
  let count := (← lift i.whole) - vs.length + 1
  if count > largestCount || count < -largestCount - 1 then throw .tooLarge
  change id (· ++ List.replicate count.toNat filler)

def append (id : NodeId) (v : Value) : Stored Unit :=
  change id (· ++ [v])

def appendAll (id : NodeId) (vs : List Value) : Stored Unit :=
  change id (· ++ vs)

def reverse (id : NodeId) : Stored Unit :=
  change id List.reverse

/-- The number that is to be compared with a length. -/
def comparable (c : Content) : Stored Num :=
  match c.number? with
  | some n => return n
  | none => throw .wrongType

/-- Gives an array a length: it is filled up, or cut off at the end. -/
def resize (id : NodeId) (count : Content) : Stored Unit := do
  let vs ← elements id
  let n ← comparable count
  if (Num.int vs.length).less n then
    match n with
    | .int m => extend id (.num (.int (m - 1)))
    | .double _ => throw .wrongType
  else
    match n with
    | .int m => rebuild id (slice vs 0 m)
    | .double _ => throw .wrongType

/-- Puts an element in place of the one at an index. -/
def put (id : NodeId) (i : Content) (v : Value) : Stored Unit := do
  let k ← lift i.whole
  let vs ← elements id
  match index? vs.length k with
  | some j => change id (·.set j v)
  | none => throw .outOfRange

/-- Puts an element in place of the one at an index. The array is made long enough first. -/
def set (id : NodeId) (i : Content) (v : Value) : Stored Unit := do
  let vs ← elements id
  let n ← comparable i
  if (Num.int vs.length).atMost n then extend id i
  put id i v

/-- Puts an element at an index, both given by an array. -/
def setBy (id pair : NodeId) : Stored Unit := do
  discard (elements id)
  let vs ← match (← get).elements? pair with
    | some vs => pure vs
    | none => throw .wrongType
  match vs with
  | i :: v :: _ => set id (← contentOf i) v
  | _ => throw .outOfRange

end Stored

end ArmaScript
