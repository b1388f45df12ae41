import ArmaScript.Script.Conditional
import ArmaScript.Script.Define

/-!
# Blocks

A block is a row of tokens up to a closing bracket, to the end of a directive's line, or to the end
of the script. It is read token by token: a bracket opens a block inside, an ending closes a
statement, and directives and uses of definitions are replaced while the block is read.
-/

namespace ArmaScript.Build

/-- How far a block is read: where the next token is, the tokens of the statement being read, and the
statements before it. -/
structure Block where
  index : Int
  row : Array Tree
  statements : Array Tree
  levels : Levels

/-- What follows a token: more of the block, or its node and how many tokens it reaches over. -/
inductive Step where
  | more (b : Block)
  | done (node : Tree) (size : Int)

/-- Reads a block: its tokens, where it starts, what is open, and what ends a statement. -/
abbrev Reader := Array Tree → Int → Levels → Stop → Build (Tree × Int)

/-- The statements of a block when what is left of it is closed. -/
def Block.close (b : Block) : Build (Array Tree) := do
  if b.row.isEmpty then return b.statements
  return b.statements.push (← arrange b.row.toList)

/-- A conditional: it is resolved, and the statement begun before it is read again with the tokens it
stands for. -/
def stepConditional (read : Reader) (row : Array Tree) (stop : Stop) (b : Block) : Build Step := do
  let (node, _) ← conditional row stop (2 * row.size + 1) (b.index + 1)
    { b.levels with conditionals := 1 }
  let (taken, children) ← lift (resolve node.children (← get).definitions
    (placeAfter row (b.index - 1)))
  let begun := b.row.toList
  let (result, _) ← read (Tree.tokensList (begun ++ taken)).toArray 0 .none stop
  let children := begun ++ children
  let node := Tree.resolution (← fresh) result.children children
  return .more { b with
    index := b.index + (Tree.tokensList children).length - begun.length
    row := #[]
    statements := b.statements.push node }

/-- The node of a use of a definition, after the replacement: the first statement of what was read
from there. -/
def firstStatement (t : Tree) : Build Tree :=
  match t with
  | .statement .. => match t.content.head? with
    | some s => return s
    | none => throw .outOfRange
  | t => return t

/-- A use of a definition: the statement begun before it is read again with the body in its place. -/
def stepUse (read : Reader) (row : Array Tree) (stop : Stop) (b : Block) (definition : Tree)
    (arguments : List Int) : Build Step := do
  let (parameters, body) := match definition with
    | .define _ _ parameters body _ => (parameters, body)
    | _ => ([], [])
  let arity := parameters.length
  let width := if arity = 0 then 1 else 2 * arity + 2
  let start := b.index - b.row.size
  let replaced := slice row.toList b.index (b.index + width)
  let replacing ← substituteList parameters (arguments.filterMap (at? row)) body
  let newRow := slice row.toList 0 start ++ b.row.toList ++ replacing ++
    slice row.toList (b.index + width) row.size
  let (node, size) ← read newRow.toArray start b.levels stop
  let taken : Int := (replaced.length : Int) - replacing.length + size
  let written := slice row.toList start (start + taken)
  let result ← firstStatement node
  let some last := written.getLast?
    | throw .outOfRange
  -- the end of a line, a comment and the end of the script stay outside
  let trailing := last.kind == .lineEnd || last.kind == .comment || last.kind == .fileEnd
  let (written, taken) := if trailing then (written.dropLast, taken - 1) else (written, taken)
  let node := Tree.expansion (← fresh) definition result written
  return .more { b with
    index := start + taken
    row := #[]
    statements := b.statements.push node }

/-- An opening bracket: the block inside becomes one node of the statement being read. -/
def stepOpening (read : Reader) (row : Array Tree) (b : Block) (inner : Levels) (stop : Stop) :
    Build Step := do
  let (node, size) ← read row (b.index + 1) inner stop
  return .more { b with index := b.index + size + 2, row := b.row.push node }

/-- The end of an array. A block that holds a statement is no array, unless a definition was used in
it. -/
def closeArray (row : Array Tree) (b : Block) : Build Tree := do
  let place := placeAfter row b.index
  match b.statements.toList with
  | [] => array (← arrayElements b.row.toList place)
  | .expansion id definition result written :: _ =>
    return .expansion id definition result [← array (← arrayElements written place)]
  | statements =>
    throw (.error place ("A statement " ++ Tree.textList statements ++ " cannot be in an array"))

/-- The end of a directive's line: a definition is remembered, any other directive is a statement. -/
def closeDirective (row : Array Tree) (start : Int) (b : Block) : Build Tree := do
  let some directive := at? row (start - 1)
    | throw .outOfRange
  let tokens := directive :: b.row.toList
  if directive.isDirective "#define" then
    let node ← define tokens
    match node with
    | .define _ name parameters _ _ =>
      modify fun s =>
        { s with definitions := s.definitions.add name parameters.length node }
    | _ => pure ()
    statement (b.statements.push node).toList
  else statement (b.statements.push (← arrange tokens)).toList

/-- Reads one token of a block that is neither a conditional nor a use of a definition. -/
def stepToken (read : Reader) (row : Array Tree) (start : Int) (stop : Stop) (b : Block) (t : Tree) :
    Build Step := do
  let levels := b.levels
  let size := b.index - start
  if t.isMark "[" then
    stepOpening read row b { levels with array := levels.array + 1 } .semicolon
  else if t.isMark "(" then
    stepOpening read row b { levels with paren := levels.paren + 1 } stop
  else if t.isMark "\x7b" then
    stepOpening read row b { levels with code := levels.code + 1 } stop
  else if t.isMark "]" then
    if levels.array = 0 then
      throw (.unbalanced (placeAfter row b.index)
        "Trying to close right parenthesis without them opened.")
    return .done (← closeArray row b) size
  else if t.isMark ")" then
    if levels.paren = 0 then
      throw (.unbalanced (placeAfter row b.index)
        "Trying to close parenthesis without opened parenthesis.")
    return .done (← bracketed (← b.close).toList) size
  else if t.isMark "\x7d" then
    if levels.code = 0 then
      throw (.unbalanced (placeAfter row b.index)
        "Trying to close brackets without opened brackets.")
    return .done (← code (← b.close).toList) size
  else if !levels.inDirective && stop.isEnd t then
    let b := if t.kind == .fileEnd then b else { b with row := b.row.push t }
    return .more { b with index := b.index + 1, row := #[], statements := ← b.close }
  else if t.isDirective "#define" || t.isDirective "#include" then
    let inner := if t.isDirective "#define" then { levels with define := levels.define + 1 }
      else { levels with includes := levels.includes + 1 }
    let statements ← b.close
    let (node, size) ← read row (b.index + 1) inner stop
    return .more { b with
      index := b.index + size + 1
      row := #[]
      statements := statements.push node }
  else if (t.kind == .lineEnd || t.kind == .comment || t.kind == .fileEnd) && levels.inDirective then
    return .done (← closeDirective row start b) size
  else
    let tokens := if t.kind == .fileEnd then b.row else b.row.push t
    return .more { b with index := b.index + 1, row := tokens }

def step (read : Reader) (row : Array Tree) (start : Int) (stop : Stop) (b : Block) (t : Tree) :
    Build Step := do
  if startsConditional t then stepConditional read row stop b
  else
    let definitions := (← get).definitions
    match (definitions.get? t.text).bind (findUse row b.index) with
    | some (definition, arguments) => stepUse read row stop b definition arguments
    | none => stepToken read row start stop b t

def blockFrom (read : Reader) (row : Array Tree) (start : Int) (stop : Stop) :
    Nat → Block → Build (Tree × Int)
  | 0, _ => throw .exhausted
  | fuel + 1, b =>
    if b.index ≥ row.size then do
      match b.levels.unclosed? with
      | some message => throw (.unbalanced (placeAfter row (start - 1)) message)
      | none => return (← statement (← b.close).toList, b.index - start)
    else match at? row b.index with
    | none => throw .outOfRange
    | some t => do
      match ← step read row start stop b t with
      | .more b => blockFrom read row start stop fuel b
      | .done node size => return (node, size)

/-- Reads the block of a row of tokens that starts at an index, with at most `depth` blocks inside
each other. -/
def block : Nat → Reader
  | 0, _, _, _, _ => throw .exhausted
  | depth + 1, row, start, levels, stop =>
    if row.isEmpty then return (← statement [], 0)
    -- a body that closes a bracket around its use sends the reader back to tokens it has read
    else blockFrom (block depth) row start stop ((row.size + 2) * (row.size + 2))
      ⟨start, #[], #[], levels⟩

end ArmaScript.Build
