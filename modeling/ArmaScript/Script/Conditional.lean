import ArmaScript.Script.Build

/-!
# Conditionals

A conditional reaches from `#ifdef` or `#ifndef` to the end of the statement in which its `#endif`
stands. It is first read as a row of tokens, in which inner conditionals are nodes of their own, and
then resolved: one of its branches is taken, together with what follows `#endif`.
-/

namespace ArmaScript

/-- How many brackets and directives are open. `opened` counts the brackets opened inside a
conditional. -/
structure Levels where
  array : Nat
  paren : Nat
  code : Nat
  define : Nat
  includes : Nat
  conditionals : Nat
  opened : Nat
deriving DecidableEq, Repr

namespace Levels

def none : Levels :=
  ⟨0, 0, 0, 0, 0, 0, 0⟩

/-- Whether a directive that takes the rest of its line is open. -/
def inDirective (l : Levels) : Bool :=
  l.define != 0 || l.includes != 0

/-- The message about the first sort of bracket or directive that is still open. -/
def unclosed? (l : Levels) : Option String :=
  if l.array != 0 then some "Parenthesis \"[\" not closed"
  else if l.paren != 0 then some "Parenthesis \"(\" not closed"
  else if l.code != 0 then some "Parenthesis \"\x7b\" not closed"
  else if l.conditionals != 0 then some "#ifdef statement not closed"
  else Option.none

end Levels

/-- Which marks end a statement: inside an array a comma does not. -/
inductive Stop where
  | semicolon
  | both
deriving DecidableEq, Repr

/-- Whether a token ends a statement. The end of the script does. -/
def Stop.isEnd (stop : Stop) : Tree → Bool
  | .atom _ (.mark text) => text == ";" || (stop == .both && text == ",")
  | .atom _ .fileEnd => true
  | _ => false

namespace Build

/-- How much deeper uses of definitions may nest than the tokens of a script. A definition that uses
itself would nest without end. -/
def expansionLimit : Nat := 5000

/-- The text of the first `n` tokens; below zero, all but the last are taken. -/
def textUpTo (row : Array Tree) (n : Int) : String :=
  let n := if n < 0 then n + row.size else n
  Tree.textList (row.toList.take n.toNat)

/-- The place behind the first `n` tokens. -/
def placeAfter (row : Array Tree) (n : Int) : Position :=
  .afterText (textUpTo row n)

def isOpening (t : Tree) : Bool :=
  t.isMark "[" || t.isMark "(" || t.isMark "\x7b"

def isClosing (t : Tree) : Bool :=
  t.isMark "]" || t.isMark ")" || t.isMark "\x7d"

/-- Whether a token closes a bracket around the conditional. -/
def closesOuter (levels : Levels) (t : Tree) : Bool :=
  (levels.paren != 0 && t.isMark ")") || (levels.array != 0 && t.isMark "]") ||
    (levels.code != 0 && t.isMark "\x7d")

def startsConditional (t : Tree) : Bool :=
  t.isDirective "#ifdef" || t.isDirective "#ifndef"

/-- How far a conditional is read: the tokens so far, how many of them are `#endif`, where the next
one is, and what is open. -/
structure Conditional where
  index : Int
  taken : Array Tree
  endifs : Nat
  levels : Levels

namespace Conditional

/-- Whether the conditional and all brackets opened in it are closed. -/
def isComplete (c : Conditional) : Bool :=
  c.levels.conditionals == c.endifs && c.endifs > 0 && c.levels.opened == 0

def take (c : Conditional) (t : Tree) : Conditional :=
  { c with
    taken := c.taken.push t
    endifs := if t.isDirective "#endif" then c.endifs + 1 else c.endifs }

def noteOpening (c : Conditional) (t : Tree) : Conditional :=
  if isOpening t then { c with levels.opened := c.levels.opened + 1 } else c

/-- Notes that a bracket closes; the end of a statement counts as one. -/
def noteClosing (c : Conditional) (t : Tree) : Conditional :=
  if t.isMark ";" || isClosing t then { c with levels.opened := c.levels.opened - 1 } else c

end Conditional

/-- The node of a conditional: the directive before `start`, and the tokens taken. -/
def conditionalNode (row : Array Tree) (start : Int) (taken : List Tree) : Build Tree := do
  match at? row (start - 1) with
  | some directive => return .conditional (← fresh) (directive :: taken)
  | none => throw .outOfRange

/-- Reads a conditional that starts before `start`, token by token. `inner` reads one inside it. The
result is its node and how many tokens it reaches over. -/
def conditionalFrom (inner : Int → Levels → Build (Tree × Int)) (row : Array Tree) (start : Int)
    (stop : Stop) : Nat → Conditional → Build (Tree × Int)
  | 0, _ => throw .exhausted
  | fuel + 1, c =>
    if c.index ≥ row.size then do
      if c.isComplete then return (← conditionalNode row start c.taken.toList, c.index - start)
      throw (.unbalanced (placeAfter row (start - 1)) (c.levels.unclosed?.getD ""))
    else match at? row c.index with
    | none => throw .outOfRange
    | some t => do
      let c := c.noteOpening t
      if startsConditional t then
        let (node, size) ← inner (c.index + 1) { c.levels with conditionals := c.levels.conditionals + 1 }
        let c := c.take node
        conditionalFrom inner row start stop fuel { c with index := c.index + size + 2 }
      else if c.isComplete && (stop.isEnd t || closesOuter c.levels t) ||
          c.levels.conditionals > 1 && t.isDirective "#endif" then
        let taken := if t.kind == .fileEnd || isClosing t then c.taken else c.taken.push t
        return (← conditionalNode row start taken.toList, c.index - start)
      else
        let c := (c.take t).noteClosing t
        conditionalFrom inner row start stop fuel { c with index := c.index + 1 }

def conditional (row : Array Tree) (stop : Stop) : Nat → Int → Levels → Build (Tree × Int)
  | 0, _, _ => throw .exhausted
  | depth + 1, start, levels =>
    conditionalFrom (conditional row stop depth) row start stop (2 * row.size + 2)
      ⟨start, #[], 0, levels⟩

def lastIndex? (p : Tree → Bool) (row : List Tree) : Option Nat :=
  (row.reverse.findIdx? p).map fun i => row.length - i - 1

/-- The name that a conditional asks for, which is the last word on its line, and the index of the
end of that line. -/
def conditionName? : List Tree → Nat → Option String → Option (String × Nat)
  | [], _, _ => none
  | t :: ts, i, name =>
    match t with
    | .atom _ (.lineEnd _) => name.map (·, i)
    | .atom _ (.var v) => conditionName? ts (i + 1) (some v)
    | .atom _ (.keyword w) => conditionName? ts (i + 1) (some w)
    | _ => conditionName? ts (i + 1) name

/-- The tokens from index `i` to before index `j`. -/
def between (row : List Tree) (i j : Nat) : List Tree :=
  (row.drop i).take (j - i)

def isConditional (t : Tree) : Bool :=
  t.kind == .conditional

/-- The branch of a conditional that is taken, up to its first inner conditional. -/
def branch (row : List Tree) (positive defined : Bool) (line : Nat) (elseAt : Option Nat)
    (endif : Nat) : List Tree :=
  let inner := (row.take endif).findIdx? isConditional
  if defined == positive then
    let stop := elseAt.getD endif
    between row line (match inner with
      | some i => if i < stop then i + 1 else stop
      | none => stop)
  else match elseAt with
    | some i => between row (i + 1) endif
    | none => []

/-- Resolves a conditional: the tokens that it stands for, and its own children. A conditional that
follows on the same statement takes over the tokens behind it. -/
def resolve (row : List Tree) (definitions : Definitions) (before : Position) :
    Except Fault (List Tree × List Tree) := do
  let positive := (lastIndex? (·.isDirective "#ifdef") row).isSome
  let some at' := lastIndex? (·.isDirective (if positive then "#ifdef" else "#ifndef")) row
    | throw .badValue
  let some endif := lastIndex? (·.isDirective "#endif") row
    | throw .badValue
  let some (name, line) := conditionName? (row.drop at') at' none
    | throw (.error (before.offset (Tree.textList (row.take at')))
        "#ifdef statement must contain a variable")
  let taken (row : List Tree) := branch row positive (definitions.has name) line
    (lastIndex? (·.isDirective "#else") row) endif
  match (row.drop (endif + 1)).findIdx? isConditional with
  | none => return (taken row ++ row.drop (endif + 1), row)
  | some k =>
    let i := endif + 1 + k
    match row[i]? with
    | some (.conditional id cs) =>
      let next := Tree.conditional id (cs ++ row.drop (i + 1))
      -- a branch that goes on behind `#endif` holds the next conditional as well
      return (taken (row.set i next) ++ [next], row.take i ++ [next])
    | _ => return (taken row, row)

end Build

end ArmaScript
