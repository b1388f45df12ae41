import ArmaScript.Check.Statement

/-!
# Reports

The findings about a script, one line each. Columns are counted from zero here.
-/

namespace ArmaScript

def Diagnostic.line (d : Diagnostic) : String :=
  "[" ++ toString d.position.line ++ "," ++ toString ((d.position.column : Int) - 1) ++ "]:" ++
    d.message ++ "\n"

namespace Report

def start (store : Store) (vars : List (String × Value)) : CheckState :=
  ⟨store, [], .ofVariables vars⟩

/-- The findings about a script. A script that cannot be read has one. -/
def findings (text : String) : Except Fault (List Diagnostic) := do
  match Script.read text 0 with
  | .error (.reported d) => if d.severity == .warning then throw (.reported d) else return [d]
  | .error fault => throw fault
  | .ok script =>
    match (do Check.adopt script; Check.checkScript script : Check Unit) (start .empty []) with
    | .ok _ s => return s.checker.findings.toList
    | .error fault _ => throw fault

def lines (text : String) : Except Fault (List String) := do
  return (← findings text).map Diagnostic.line

/-- What is said about a declared variable that is not assigned to. -/
def isPrivateWarning (d : Diagnostic) : Bool :=
  d.severity == .warning && d.text == "private argument must be a string."

def notAfter (d e : Diagnostic) : Bool :=
  d.position.line < e.position.line ||
    (d.position.line == e.position.line && d.position.column ≤ e.position.column)

/-- Puts findings about declared variables that follow each other in the order of their places. The
other findings stay where they are. -/
def inOrder (findings : List Diagnostic) : List Diagnostic :=
  (findings.splitBy fun d e => isPrivateWarning d == isPrivateWarning e).flatMap fun group =>
    if group.all isPrivateWarning then group.mergeSort notAfter else group

end Report

end ArmaScript
