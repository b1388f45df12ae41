import ArmaScript.CommandLine.Program

/-!
# The command line

Reports on script files. The files, the input and the output are those of the machine.
-/

namespace ArmaScript.CommandLine

def machine : Disk IO where
  canRead path := do
    try
      discard (IO.FS.readFile path)
      return true
    catch _ => return false
  create path := do
    try
      IO.FS.writeFile path ""
      return true
    catch _ => return false
  isDirectory path := do
    try
      return (← (← IO.FS.realPath path).metadata).type == .dir
    catch _ => return false
  read path := return Files.clean (← IO.FS.readFile path)
  readAll path := do
    let root ← IO.FS.realPath path
    let mut found := #[]
    for entry in ← root.walkDir do
      if (← entry.metadata).type == .file then
        let name := String.ofList (entry.toString.toList.drop (root.toString.length + 1))
        found := found.push (name, Files.clean (← IO.FS.readFile entry))
    return found.toList.mergeSort fun a b => a.1 ≤ b.1
  input := do
    let text ← (← IO.getStdin).readToEnd
    return Files.clean text
  write sink text := do
    match sink with
    | none => IO.print text
    | some path =>
      let file ← IO.FS.Handle.mk path .append
      file.putStr text

end ArmaScript.CommandLine

open ArmaScript.CommandLine in
def main (arguments : List String) : IO UInt32 := do
  match ← run machine arguments with
  | .ok _ => return 0
  | .error .help =>
    IO.println "usage: armascript [-h] [-d [DIRECTORY]] [-o [OUTPUT]] [file]"
    return 0
  | .error .usage =>
    IO.eprintln "usage: armascript [-h] [-d [DIRECTORY]] [-o [OUTPUT]] [file]"
    return 2
  | .error .noDirectory =>
    IO.eprintln "not a valid path"
    return 1
  | .error (.fault _) =>
    IO.eprintln "the script cannot be checked"
    return 1
