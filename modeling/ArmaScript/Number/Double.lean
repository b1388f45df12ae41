/-!
# Doubles as exact numbers

A finite double is a whole number times a power of two. `view` reads a double that way and `ofRatio`
gives the double nearest to a ratio, so that rounding, comparison with whole numbers and remainders
are exact arithmetic on whole numbers.
-/

namespace ArmaScript.Double

/-- What a double stands for: `finite negative m e` is `m * 2 ^ e` with its sign. -/
inductive View where
  | nan
  | infinite (negative : Bool)
  | finite (negative : Bool) (mantissa : Nat) (exponent : Int)
deriving DecidableEq

/-- Reads sign, exponent and mantissa off the bits of a double. -/
def viewBits (bits : Nat) : View :=
  let negative := bits / Nat.pow 2 63 == 1
  let exponent : Nat := bits / Nat.pow 2 52 % 2048
  let fraction := bits % Nat.pow 2 52
  if exponent = 2047 then
    if fraction = 0 then .infinite negative else .nan
  else if exponent = 0 then .finite negative fraction (-1074)
  else .finite negative (Nat.pow 2 52 + fraction) (exponent - 1075)

def view (x : Float) : View :=
  viewBits x.toBits.toNat

/-- The double with the given sign and the given bits below it. -/
def ofMagnitude (negative : Bool) (bits : Nat) : Float :=
  Float.ofBits (UInt64.ofNat (if negative then bits + Nat.pow 2 63 else bits))

/-- A quotient rounded to the nearest whole number, a half to the even one. -/
def roundDiv (num den : Nat) : Nat :=
  let q := num / den
  let r := num % den
  if 2 * r > den || (2 * r == den && q % 2 == 1) then q + 1 else q

/-- `n * 2 ^ e` over `d`, as numerator and denominator. -/
def scale (n d : Nat) (e : Int) : Nat × Nat :=
  if e < 0 then (n, d * Nat.pow 2 e.natAbs) else (n * Nat.pow 2 e.natAbs, d)

/-- The bits of the infinite double without its sign, which are above those of all finite ones. -/
def infiniteBits : Nat :=
  2047 * Nat.pow 2 52

/-- The bits, without sign, of the double nearest to `num / den`; a tie goes to the even mantissa,
and what is too large becomes infinite. -/
def nearestBits (num den : Nat) : Nat :=
  if num = 0 then 0
  else
    let coarse : Int := (num.log2 : Int) - den.log2 - 53
    let (n, d) := scale num den (-coarse - 53)
    -- the mantissa has 53 binary digits, fewer only near zero
    let e := max (if n ≥ d then coarse + 1 else coarse) (-1074)
    let (n, d) := scale num den (-e)
    min ((e + 1074).toNat * Nat.pow 2 52 + roundDiv n d) infiniteBits

def ofRatio (negative : Bool) (num den : Nat) : Float :=
  ofMagnitude negative (nearestBits num den)

def ofInt? (n : Int) : Option Float :=
  let bits := nearestBits n.natAbs 1
  if bits < infiniteBits then some (ofMagnitude (n < 0) bits) else none

def signed (negative : Bool) (n : Nat) : Int :=
  if negative then -n else n

/-- Orders a whole number and a double by their exact values; nothing compares with a NaN. -/
def compareInt? (n : Int) (x : Float) : Option Ordering :=
  match view x with
  | .nan => none
  | .infinite negative => some (if negative then .gt else .lt)
  | .finite negative m e =>
    let (m, d) := scale m 1 e
    some (compare (n * d) (signed negative m))

def floor (negative : Bool) (m : Nat) (e : Int) : Int :=
  let (m, d) := scale m 1 e
  (signed negative m).fdiv d

/-- The whole number nearest to a finite double, a half to the even one. -/
def round (negative : Bool) (m : Nat) (e : Int) : Int :=
  let (m, d) := scale m 1 e
  signed negative (roundDiv m d)

def isOdd (x : Float) : Bool :=
  match view x with
  | .finite _ m e =>
    let (m, d) := scale m 1 e
    m % d == 0 && m / d % 2 == 1
  | _ => false

def isWhole (x : Float) : Bool :=
  match view x with
  | .finite _ m e =>
    let (m, d) := scale m 1 e
    m % d == 0
  | _ => false

def isNegative (x : Float) : Bool :=
  match view x with
  | .nan => false
  | .infinite negative => negative
  | .finite negative _ _ => negative

def zeroLike (x : Float) : Float :=
  ofMagnitude (isNegative x) 0

/-- The remainder of two finite doubles, of the sign of the first. -/
def truncatedRemainder (negative : Bool) (m : Nat) (e : Int) (n : Nat) (f : Int) : Float :=
  let low := min e f
  let r := (m * Nat.pow 2 (e - low).natAbs) % (n * Nat.pow 2 (f - low).natAbs)
  let (num, den) := scale r 1 low
  ofRatio negative num den

/-- The remainder of a division rounded down: it has the sign of the divisor, which is not zero. -/
def modulo (x y : Float) : Float :=
  let r := match view x, view y with
    | .nan, _ => x
    | _, .nan => y
    | .infinite _, _ => x - x
    | .finite .., .infinite _ => x
    | .finite negative m e, .finite _ n f => truncatedRemainder negative m e n f
  if r == 0 then zeroLike y
  else if (y < 0) != (r < 0) then r + y
  else r

/-- The text of a double with two places after the point, a half going to the even neighbour. -/
def fixedText (x : Float) : String :=
  match view x with
  | .nan => "nan"
  | .infinite negative => if negative then "-inf" else "inf"
  | .finite negative m e =>
    let (n, d) := scale (m * 100) 1 e
    let cents := roundDiv n d
    let places := toString (cents % 100)
    (if negative then "-" else "") ++ toString (cents / 100) ++ "." ++
      (if cents % 100 < 10 then "0" ++ places else places)

end ArmaScript.Double
