import ArmaScript.CommandLine.Program
import ArmaScript.Scenario.Basic
import ArmaScript.Scenario.Scripts

/-!
# Scenarios of checking

Checking short scripts, and reports about them: as lines, and through the command line.
-/

namespace ArmaScript.Scenario

/-- Checks short scripts: the number of findings of each, where they are and how they start. -/
def checkScripts (size : Int) : Except Fault Outcome := do
  let results ← (cycle checkable size).mapM fun text => do
    let found ← Report.findings text
    return int found.length :: found.map fun d =>
      .list [place d.position, .text (String.ofList (d.message.toList.take 40))]
  return .ofResult (.list results.flatten)

/-- Reports on short scripts, the first of which cannot be read: the lines about each. -/
def reportScripts (size : Int) : Except Fault Outcome := do
  let scripts := unreadable.take 1 ++ checkable
  let results ← (cycle scripts size).mapM fun text => do
    return .list ((← Report.lines text).map .text)
  return .ofResult (.list results)

def threeDigits (n : Nat) : String :=
  let digits := toString n
  String.ofList (List.replicate (3 - digits.length) '0') ++ digits

/-- A directory of scripts, every second of them one level below, and one script that is always
there. -/
def scriptFiles (size : Int) : CommandLine.Files :=
  let listed := (cycle checkable size).zipIdx.map fun (text, i) =>
    let name := "f" ++ threeDigits i ++ ".sqf"
    (if i % 2 = 0 then ["scripts", name] else ["scripts", "sub", name], text)
  let single := (["scripts", "single.sqf"], (checkable.head?).getD "")
  ⟨listed ++ [single], "", ""⟩

/-- What the program writes, to its output or to a file. -/
def written (files : CommandLine.Files) (arguments : List String) (sink : Option String) :
    Except Fault String :=
  match (CommandLine.run CommandLine.Files.disk arguments).run files with
  | (.ok _, files) => .ok ((sink.bind files.get?).getD files.output)
  | (.error (.fault f), _) => .error f
  | (.error _, _) => .error .badValue

/-- Reports on a directory: how long the report is on the output and in a file, and the report about
a single file. -/
def reportDirectory (size : Int) : Except Fault Outcome := do
  let files := scriptFiles size
  let shown ← written files ["-d", "scripts"] none
  let saved ← written files ["-d", "scripts", "-o", "report"] (some "report")
  let single ← written files ["scripts/single.sqf"] none
  return .ofResult (.list [int shown.length, int saved.length, .text single])

end ArmaScript.Scenario
