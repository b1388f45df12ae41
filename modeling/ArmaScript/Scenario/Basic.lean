import ArmaScript.Datum
import ArmaScript.Value.Array

/-!
# Scenarios

A scenario runs some part of the library on made-up input of a given size and gives what it found as
plain data. It shows at a glance whether the parts work together.
-/

namespace ArmaScript.Scenario

/-- The outcome of a scenario: its result, and what it has to say besides. -/
structure Outcome where
  result : Datum
  notes : String

def Outcome.ofResult (result : Datum) : Outcome :=
  ⟨result, ""⟩

def int (n : Int) : Datum :=
  .num (.int n)

def place (p : Position) : Datum :=
  .list [int p.line, int p.column]

/-- As many repetitions of a list as are needed for `size` items. -/
def repeated {α : Type} (items : List α) (size : Int) : List α :=
  (List.replicate (size.fdiv items.length + 1).toNat items).flatten

/-- The first `size` items of a list that is repeated. A negative size counts from the end. -/
def cycle {α : Type} (items : List α) (size : Int) : List α :=
  slice (repeated items size) 0 size

def below (bound : Int) : List Nat :=
  List.range bound.toNat

end ArmaScript.Scenario
