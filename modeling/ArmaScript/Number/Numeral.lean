import ArmaScript.Number.Double
import ArmaScript.Text.Digit

/-!
# Numerals

Which words of a script are numbers. A whole number is a row of digits; a decimal has a point or an
exponent, or is an infinity or a NaN spelt out in any case. Underscores may stand between digits,
blanks may stand around a numeral, and the digits of any writing system are digits.
-/

namespace ArmaScript.Numeral

/-- The longest row of digits that is read as a whole number. -/
def longestWhole : Nat := 4300

/-- Writes foreign digits and blanks as those of ASCII; what cannot stand in a numeral becomes a
question mark. -/
def plainChar (c : Char) : Char :=
  if c.toNat < 127 then c
  else if Text.isBlank c then ' '
  else match Text.decimalDigit? c with
    | some d => Char.ofNat (48 + d)
    | none => '?'

def strip (cs : List Char) : List Char :=
  ((cs.dropWhile Text.isPlainBlank).reverse.dropWhile Text.isPlainBlank).reverse

/-- Takes away the underscores of a numeral, if each stands between two digits. -/
def joinDigits (previous : Char) : List Char → Option (List Char)
  | [] => if previous == '_' then none else some []
  | c :: cs =>
    if c == '_' then
      if previous.isDigit then joinDigits c cs else none
    else if previous == '_' && !c.isDigit then none
    else (joinDigits c cs).map (c :: ·)

def digitsValue (cs : List Char) : Nat :=
  cs.foldl (fun n c => 10 * n + (c.toNat - 48)) 0

def splitSign : List Char → Bool × List Char
  | '-' :: cs => (true, cs)
  | '+' :: cs => (false, cs)
  | cs => (false, cs)

def whole? (word : String) : Option Int := do
  let (negative, cs) := splitSign (strip (word.toList.map plainChar))
  let digits ← joinDigits ' ' cs
  if digits.isEmpty || !digits.all Char.isDigit || digits.length > longestWhole then none
  else some (Double.signed negative (digitsValue digits))

/-- The double nearest to `digits * 10 ^ exponent`. -/
def ofDecimal (negative : Bool) (digits : List Char) (exponent : Int) : Float :=
  let digits := digits.dropWhile (· == '0')
  let reach := exponent + digits.length
  if digits.isEmpty || reach < -400 then Double.ofMagnitude negative 0
  else if reach > 400 then Double.ofMagnitude negative Double.infiniteBits
  else if exponent < 0 then Double.ofRatio negative (digitsValue digits) (Nat.pow 10 exponent.natAbs)
  else Double.ofRatio negative (digitsValue digits * Nat.pow 10 exponent.natAbs) 1

/-- The exponent at the end of a decimal: none, or `e` with a whole number. -/
def exponent? : List Char → Option Int
  | [] => some 0
  | c :: cs =>
    let (negative, digits) := splitSign cs
    if (c == 'e' || c == 'E') && !digits.isEmpty && digits.all Char.isDigit then
      some (Double.signed negative (digitsValue digits))
    else none

def double? (word : String) : Option Float := do
  let cs ← joinDigits ' ' (strip (word.toList.map plainChar))
  let (negative, cs) := splitSign cs
  let spelt := String.ofList (cs.map Char.toLower)
  if spelt == "inf" || spelt == "infinity" then return Double.ofMagnitude negative Double.infiniteBits
  if spelt == "nan" then return 0.0 / 0.0
  let front := cs.takeWhile Char.isDigit
  let rest := cs.dropWhile Char.isDigit
  let (back, rest) := match rest with
    | '.' :: rest => (rest.takeWhile Char.isDigit, rest.dropWhile Char.isDigit)
    | rest => ([], rest)
  if front.isEmpty && back.isEmpty then none
  let exponent ← exponent? rest
  return ofDecimal negative (front ++ back) (exponent - back.length)

end ArmaScript.Numeral
