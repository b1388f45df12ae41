import ArmaScript.Fault
import ArmaScript.Number.Basic

/-!
# Arithmetic on numbers

Whole numbers are exact and stay whole under `+`, `-`, `*`, `%` and powers that are not negative. As
soon as a double takes part, or a quotient is taken, the result is a double. The remainder has the
sign of the divisor.
-/

namespace ArmaScript.Num

/-- A number as a double, if it is not too large for one. -/
def toDouble : Num → Except Fault Float
  | .int n => match Double.ofInt? n with
    | some x => .ok x
    | none => .error .tooLarge
  | .double x => .ok x

/-- Applies one of two operations: the first to two whole numbers, the second to doubles. -/
def combine (onInts : Int → Int → Int) (onDoubles : Float → Float → Float) (a b : Num) :
    Except Fault Num :=
  match a, b with
  | .int m, .int n => .ok (.int (onInts m n))
  | a, b => do return .double (onDoubles (← a.toDouble) (← b.toDouble))

def add : Num → Num → Except Fault Num :=
  combine (· + ·) (· + ·)

def sub : Num → Num → Except Fault Num :=
  combine (· - ·) (· - ·)

def mul : Num → Num → Except Fault Num :=
  combine (· * ·) (· * ·)

def neg : Num → Num
  | .int n => .int (-n)
  | .double x => .double (-x)

/-- The quotient of two numbers, always a double. That of two whole numbers is the double nearest to
their ratio. -/
def div (a b : Num) : Except Fault Num :=
  match a, b with
  | .int m, .int n =>
    if n = 0 then .error .divisionByZero
    else
      let negative := (m < 0) != (n < 0)
      let bits := Double.nearestBits m.natAbs n.natAbs
      if bits < Double.infiniteBits then .ok (.double (Double.ofMagnitude negative bits))
      else .error .tooLarge
  | a, b => do
    let x ← a.toDouble
    let y ← b.toDouble
    if y == 0 then .error .divisionByZero else return .double (x / y)

/-- The remainder of a division rounded down, which has the sign of the divisor. -/
def mod (a b : Num) : Except Fault Num :=
  match a, b with
  | .int m, .int n => if n = 0 then .error .divisionByZero else .ok (.int (m.fmod n))
  | a, b => do
    let x ← a.toDouble
    let y ← b.toDouble
    if y == 0 then .error .divisionByZero else return .double (Double.modulo x y)

/-- A power of doubles. A negative base has only whole powers in the reals, and a result past the
largest double is an error. -/
def powDouble (x y : Float) : Except Fault Num :=
  let odd := Double.isOdd y
  if y == 0 then .ok (.double 1)
  else if x.isNaN then .ok (.double x)
  else if y.isNaN then .ok (.double (if x == 1 then 1 else y))
  else if y.isInf then
    let size := x.abs
    if size == 1 then .ok (.double 1)
    else if (y > 0) == (size > 1) then .ok (.double y.abs)
    else .ok (.double 0)
  else if x.isInf then
    if y > 0 then .ok (.double (if odd then x else x.abs))
    else .ok (.double (if odd then Double.zeroLike x else 0))
  else if x == 0 then
    if y < 0 then .error .divisionByZero else .ok (.double (if odd then x else 0))
  else
    let size := Float.pow x.abs y
    if x.abs == 1 && (x > 0 || Double.isWhole y) then .ok (.double (if x < 0 && odd then -1 else 1))
    else if size.isInf then .error .tooLarge
    else if x < 0 && !Double.isWhole y then .error .violation
    else .ok (.double (if x < 0 && odd then -size else size))

/-- A power. Whole numbers stay whole unless the exponent is negative. -/
def pow (a b : Num) : Except Fault Num :=
  match a, b with
  | .int m, .int n =>
    if n ≥ 0 then .ok (.int (m.pow n.toNat))
    else do powDouble (← a.toDouble) (← b.toDouble)
  | a, b => do powDouble (← a.toDouble) (← b.toDouble)

/-- The greater of two numbers, the first if neither is greater. -/
def max (a b : Num) : Num :=
  if a.less b then b else a

def floor : Num → Except Fault Int
  | .int n => .ok n
  | .double x => match Double.view x with
    | .nan => .error .badValue
    | .infinite _ => .error .tooLarge
    | .finite negative m e => .ok (Double.floor negative m e)

/-- The whole number nearest to a number, a half going to the even one. -/
def round : Num → Except Fault Int
  | .int n => .ok n
  | .double x => match Double.view x with
    | .nan => .error .badValue
    | .infinite _ => .error .tooLarge
    | .finite negative m e => .ok (Double.round negative m e)

end ArmaScript.Num
