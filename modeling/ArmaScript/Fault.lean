import ArmaScript.Position

/-!
# What can go wrong

A `Diagnostic` is a finding about a script, with its place and its wording. A `Fault` ends a
computation: either such a finding, or one of a fixed set of causes that name no place.
-/

namespace ArmaScript

/-- How grave a finding is. An unbalanced bracket is an error of its own sort. -/
inductive Severity where
  | error
  | unbalanced
  | warning
deriving DecidableEq, Repr

/-- The word a message starts with. -/
def Severity.label : Severity → String
  | .error => "error"
  | .unbalanced => "error"
  | .warning => "warning"

structure Diagnostic where
  severity : Severity
  position : Position
  text : String
deriving DecidableEq, Repr

namespace Diagnostic

/-- Writes a character that would break a line or a column as two visible ones. -/
def escapeChar (c : Char) : List Char :=
  if c = '\n' then ['\\', 'n']
  else if c = '\t' then ['\\', 't']
  else if c = '\r' then ['\\', 'r']
  else [c]

/-- Puts a text on one line. -/
def escape (s : String) : String :=
  String.ofList (s.toList.flatMap escapeChar)

/-- The message of a finding: its label, a colon and its text, on one line. -/
def message (d : Diagnostic) : String :=
  escape (d.severity.label ++ ":" ++ d.text)

end Diagnostic

inductive Fault where
  /-- A finding about the script. -/
  | reported (d : Diagnostic)
  /-- A value is not of the form that an operation relies on. -/
  | violation
  /-- A value lacks the part that is asked of it. -/
  | missingPart
  /-- A node is asked for its place before it has one. -/
  | unplaced
  /-- An index lies outside a list. -/
  | outOfRange
  /-- A name or key is not known. -/
  | unknownName
  /-- A number is too large for its use. -/
  | tooLarge
  /-- An array without elements cannot be built. -/
  | emptyArray
  /-- An operation does not take a value of this type. -/
  | wrongType
  /-- A block that should give a result gives none. -/
  | noResult
  /-- A value of the right type that an operation does not take. -/
  | badValue
  /-- A division by zero. -/
  | divisionByZero
  /-- The nesting or the number of steps went past the limit. -/
  | exhausted
deriving DecidableEq, Repr

namespace Fault

def error (position : Position) (text : String) : Fault :=
  .reported ⟨.error, position, text⟩

def warning (position : Position) (text : String) : Fault :=
  .reported ⟨.warning, position, text⟩

def unbalanced (position : Position) (text : String) : Fault :=
  .reported ⟨.unbalanced, position, text⟩

end Fault

end ArmaScript
