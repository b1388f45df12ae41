import ArmaScript.Text.CaseTable

/-!
# Letter case

Names and keywords of a script are compared without regard to case: a text is put into lower case
first. `lower` follows the full rules of the character standard: a dotted capital I becomes two
characters, and a capital sigma has another form at the end of a word.
-/

namespace ArmaScript.Text

def isLowerChar (c : Char) : Bool :=
  if c.toNat < 128 then c.isLower else lowercaseRuns.any (·.contains c.toNat)

def isTitleChar (c : Char) : Bool :=
  c.toNat ≥ 128 && titlecaseRuns.any (·.contains c.toNat)

/-- Upper-case letters. Those that have a lower-case form are the ones that are not in title case. -/
def isUpperChar (c : Char) : Bool :=
  if c.toNat < 128 then c.isUpper
  else capitalRuns.any (·.contains c.toNat) ||
    lowerShifts.any (·.run.contains c.toNat) && !isTitleChar c

def isCased (c : Char) : Bool :=
  isLowerChar c || isUpperChar c || isTitleChar c

/-- Characters that a word's case looks through. -/
def isCaseIgnorable (c : Char) : Bool :=
  ignorableRuns.any (·.contains c.toNat)

/-- The lower-case form of a letter that has one of a single character. -/
def lowerChar (c : Char) : Char :=
  if c.toNat < 128 then c.toLower
  else match lowerShifts.find? (·.run.contains c.toNat) with
    | some s => Char.ofNat (c.toNat + s.distance).toNat
    | none => c

/-- Whether a capital sigma between these two texts ends a word: a letter comes before it and none
after it. The text before is given from its end. -/
def endsWord (before after : List Char) : Bool :=
  match before.dropWhile isCaseIgnorable with
  | [] => false
  | c :: _ => isCased c && match after.dropWhile isCaseIgnorable with
    | [] => true
    | d :: _ => !isCased d

/-- The lower-case form of a character at its place in a text. -/
def lowerAt (before : List Char) (c : Char) (after : List Char) : List Char :=
  if c.toNat == 0x3a3 then [if endsWord before after then 'ς' else 'σ']
  else if c.toNat == 0x130 then ['i', '\u0307']
  else [lowerChar c]

/-- The lower-case form of a text that follows `before`, which is given from its end. -/
def lowerAfter (before : List Char) : List Char → List Char
  | [] => []
  | c :: rest => lowerAt before c rest ++ lowerAfter (c :: before) rest

def lower (s : String) : String :=
  String.ofList (lowerAfter [] s.toList)

/-- A text is upper-case if it has an upper-case letter and no letter of another case. -/
def isUpper (s : String) : Bool :=
  s.toList.any isUpperChar && s.toList.all fun c => !isLowerChar c && !isTitleChar c

end ArmaScript.Text
