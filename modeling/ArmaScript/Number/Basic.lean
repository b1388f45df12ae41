import ArmaScript.Number.Numeral

/-!
# Numbers of a script

A number is a whole number of any size or a double. The two are compared by their exact values, so
that `1` equals `1.0`, and `2 ^ 53 + 1` does not equal the double nearest to it.
-/

namespace ArmaScript

inductive Num where
  | int (n : Int)
  | double (x : Float)

namespace Num

/-- The number that a word stands for, if it is a numeral. -/
def ofWord? (word : String) : Option Num :=
  match Numeral.whole? word with
  | some n => some (.int n)
  | none => (Numeral.double? word).map .double

/-- The text of a number: all digits of a whole number, two places of a double. -/
def text : Num → String
  | .int n => toString n
  | .double x => Double.fixedText x

/-- Orders two numbers by their exact values; a NaN is not ordered. -/
def compare? : Num → Num → Option Ordering
  | .int m, .int n => some (compare m n)
  | .int m, .double y => Double.compareInt? m y
  | .double x, .int n => (Double.compareInt? n x).map .swap
  | .double x, .double y =>
    if x < y then some .lt else if x == y then some .eq else if y < x then some .gt else none

def same (a b : Num) : Bool :=
  a.compare? b == some .eq

def less (a b : Num) : Bool :=
  a.compare? b == some .lt

def atMost (a b : Num) : Bool :=
  a.less b || a.same b

end Num

end ArmaScript
