import ArmaScript.CommandLine.Arguments
import ArmaScript.CommandLine.Disk
import ArmaScript.Report

/-!
# The program

The program reports on a file, on all script files of a directory, or on what it is given as input.
The report goes to the output, or to a file.
-/

namespace ArmaScript.CommandLine

inductive Stop where
  /-- The arguments are wrong, or a file cannot be opened. -/
  | usage
  /-- Help was asked for. -/
  | help
  /-- There is no such directory. -/
  | noDirectory
  /-- A script cannot be checked. -/
  | fault (f : Fault)
deriving DecidableEq, Repr

/-- What the arguments ask for. The path `-` is the standard input or output. -/
structure Job where
  file : Option String
  directory : Option String
  output : Option String
deriving DecidableEq, Repr

variable {m : Type → Type} [Monad m]

def Job.step (disk : Disk m) (job : Job) : Step → m (Except Stop Job)
  | .file none => return .ok { job with file := none }
  | .file (some path) => do
    if path == "-" || (← disk.canRead path) then return .ok { job with file := path }
    else return .error .usage
  | .directory none => return .ok { job with directory := none }
  | .directory (some path) => do
    if ← disk.isDirectory path then return .ok { job with directory := path }
    else return .error .noDirectory
  | .output none => return .ok { job with output := none }
  | .output (some path) => do
    if path == "-" || (← disk.create path) then return .ok { job with output := path }
    else return .error .usage
  | .help => return .error .help
  | .refuse => return .error .usage

/-- What the arguments ask for, after all their steps. -/
def Job.ofSteps (disk : Disk m) (job : Job) : List Step → m (Except Stop Job)
  | [] => return .ok job
  | s :: rest => do
    match ← job.step disk s with
    | .ok job => job.ofSteps disk rest
    | .error e => return .error e

/-- The report about a file in a directory: its path, and the lines with a tab in front. Nothing is
said about a file without findings. -/
def block (path : String) (lines : List String) : String :=
  if lines.isEmpty then "" else path ++ "\n" ++ String.join (lines.map ("\t" ++ ·))

def reportText (disk : Disk m) (sink : Option String) (text : String) : m (Except Stop Unit) := do
  match Report.lines text with
  | .ok lines =>
    disk.write sink (String.join lines)
    return .ok ()
  | .error f => return .error (.fault f)

def reportFiles (disk : Disk m) (sink : Option String) :
    List (String × String) → m (Except Stop Unit)
  | [] => return .ok ()
  | (path, text) :: rest => do
    if path.endsWith ".sqf" then
      match Report.lines text with
      | .ok lines =>
        disk.write sink (block path lines)
        reportFiles disk sink rest
      | .error f => return .error (.fault f)
    else reportFiles disk sink rest

def Job.run (disk : Disk m) (job : Job) : m (Except Stop Unit) := do
  let sink := job.output.filter (· != "-")
  match job.file, job.directory with
  | some path, _ =>
    let text ← if path == "-" then disk.input else disk.read path
    reportText disk sink text
  | none, some path => reportFiles disk sink (← disk.readAll path)
  | none, none => reportText disk sink (← disk.input)

def run (disk : Disk m) (arguments : List String) : m (Except Stop Unit) := do
  match ← (Job.mk none none none).ofSteps disk (Step.ofArguments arguments) with
  | .ok job => job.run disk
  | .error e => return .error e

end ArmaScript.CommandLine
