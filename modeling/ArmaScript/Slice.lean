/-!
# Indices that count from the end

A negative index counts from the end of a list. A part of a list may reach beyond it and is then cut
off.
-/

namespace ArmaScript

/-- The index that a whole number stands for in a list of `length` items: a negative one counts from
the end. -/
def index? (length : Nat) (i : Int) : Option Nat :=
  if 0 ≤ i then (if i < length then some i.toNat else none)
  else if 0 ≤ i + length then some (i + length).toNat
  else none

/-- Cuts a bound of a part off at the ends of a list of `length` items. -/
def clampIndex (length : Nat) (i : Int) : Nat :=
  if i < 0 then (i + length).toNat else min i.toNat length

/-- The items from one bound to before another. -/
def slice {α : Type} (items : List α) (first last : Int) : List α :=
  let i := clampIndex items.length first
  let j := clampIndex items.length last
  (items.drop i).take (j - i)

end ArmaScript
