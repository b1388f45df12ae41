import ArmaScript.Signature.Kind

/-!
# Declared names and parameters

What is said about names that cannot be declared and about arguments that do not fit the parameters.
-/

namespace ArmaScript

/-- The kind of a value as it is named in the message about a name that is no text. -/
def Kind.longName (k : Kind) : String :=
  let family := if k.isHelper then "sqf.interpreter_types." else "sqf.types."
  "<class '" ++ family ++ k.name ++ "'>"

namespace Parameter

def notText (k : Kind) : String :=
  "Variable in private must be a string (is " ++ k.longName ++ ")"

def notLocal (name : String) : String :=
  "Cannot make global variable \"" ++ name ++ "\" private (underscore missing?)"

def tooMany (arguments parameters : Nat) : String :=
  "`params` lhs (" ++ toString arguments ++ " elements) is larger than rhs (" ++
    toString parameters ++ " elements). Some arguments are ignored."

def missing (parameter : String) : String :=
  "`params` mandatory argument " ++ parameter ++ " is missing in rhs"

/-- A parameter with a default has too few or too many parts. -/
def wrongLength : String :=
  "`params` array element must have 2-4 elements"

/-- A parameter is neither a text nor an array. -/
def wrongKind : String :=
  "`params` array element must be a string or array"

end Parameter

end ArmaScript
