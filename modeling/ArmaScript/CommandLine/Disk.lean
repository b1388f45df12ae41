import ArmaScript.Table

/-!
# Files

What the command line needs of the files around it, and files that are kept as values. The path of a
file is relative to the working directory. Every file is text; the ends of its lines are read as
newlines.
-/

namespace ArmaScript.CommandLine

/-- Reads all line ends as newlines. -/
def newlines : List Char → List Char
  | '\r' :: '\n' :: rest => '\n' :: newlines rest
  | '\r' :: rest => '\n' :: newlines rest
  | c :: rest => c :: newlines rest
  | [] => []

structure Disk (m : Type → Type) where
  /-- Whether a file can be opened for reading. -/
  canRead : String → m Bool
  /-- Empties or creates a file, unless that is impossible. -/
  create : String → m Bool
  isDirectory : String → m Bool
  /-- The text of a file, with newlines only. -/
  read : String → m String
  /-- The files in a directory and below, by their paths from there in order, with their texts. -/
  readAll : String → m (List (String × String))
  /-- The text of the standard input. -/
  input : m String
  /-- Adds text to a file, or to the standard output. -/
  write : Option String → String → m Unit

/-- Files as values, by the parts of their paths, and the standard input and output. -/
structure Files where
  contents : Table (List String) String
  input : String
  output : String

namespace Files

/-- Whether a path leads to a directory: the working directory or one that holds a file. -/
def isDirectory (files : Files) (path : List String) : Bool :=
  path.isEmpty || files.contents.any fun (p, _) => path.isPrefixOf p && path != p

def follow (files : Files) (path : List String) (part : String) : Option (List String) :=
  if !files.isDirectory path then none
  else if part == "" || part == "." then some path
  else if part == ".." then (if path.isEmpty then none else some path.dropLast)
  else some (path ++ [part])

/-- Follows a path from the working directory. The result may be missing there. -/
def resolve (files : Files) (path : String) : Option (List String) :=
  if path.isEmpty || path.startsWith "/" then none
  else (path.splitOn "/").foldlM files.follow []

def get? (files : Files) (path : String) : Option String := do
  files.contents.get? (← files.resolve path)

/-- Replaces the text of a file, or creates it. -/
def put? (files : Files) (path : String) (f : String → String) : Option Files := do
  let parts ← files.resolve path
  if files.isDirectory parts || !files.isDirectory parts.dropLast then none
  else
    let old := (files.contents.get? parts).getD ""
    some { files with contents := files.contents.put parts (f old) }

/-- The files in a directory and below, with their paths from there, in the order of the paths. -/
def below (files : Files) (path : List String) : List (String × String) :=
  let found := files.contents.filterMap fun (p, text) =>
    if path.isPrefixOf p && path != p then
      some ("/".intercalate (p.drop path.length), text)
    else none
  found.mergeSort fun a b => a.1 ≤ b.1

def clean (text : String) : String :=
  String.ofList (newlines text.toList)

def disk : Disk (StateM Files) where
  canRead path := return ((← get).get? path).isSome
  create path := do
    match (← get).put? path fun _ => "" with
    | some files =>
      set files
      return true
    | none => return false
  isDirectory path := do
    let files ← get
    return ((files.resolve path).map files.isDirectory).getD false
  read path := return clean (((← get).get? path).getD "")
  readAll path := do
    let files ← get
    let found := ((files.resolve path).map files.below).getD []
    return found.map fun (p, text) => (p, clean text)
  input := return (← get).input
  write sink text := modify fun files =>
    match sink with
    | none => { files with output := files.output ++ text }
    | some path => (files.put? path (· ++ text)).getD files

end Files

end ArmaScript.CommandLine
