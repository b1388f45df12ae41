import ArmaScript.Script.Build

/-!
# Definitions

A definition gives a name to a row of tokens. Where the name is used, the tokens take its place; if
the definition has parameters, the name must be followed by as many single tokens in parentheses,
and these take the place of the parameters.
-/

namespace ArmaScript.Build

/-- A new definition, from its tokens: the directive, a name, parameters in parentheses if they
follow the name at once, and the body. Without a body the name stands for nothing. -/
def define (row : List Tree) : Build Tree := do
  let valid := (List.range row.length).filter fun i => (row[i]?.map fun t => !t.isLayout).getD false
  match valid with
  | _ :: i :: rest =>
    let name := (row[i]?.map Tree.text).getD ""
    match rest with
    | [] => do
      let body : List Tree := [.atom (← fresh) .nothing]
      return .define (← fresh) name [] body row
    | j :: rest =>
      match row[j]?, i + 1 == j with
      | some (.statement _ true _ cs), true =>
        let inner := ((Tree.textList cs).toList.drop 1).dropLast
        match rest with
        | [] => throw .outOfRange
        | k :: _ =>
          return .define (← fresh) name ((String.ofList inner).splitOn ",") (row.drop k) row
      | _, _ => return .define (← fresh) name [] (row.drop j) row
  | _ => throw (.error (.afterText "#define") "#define needs at least one argument")

/-- The indices of the arguments that a use at `i` has for a definition with `arity` parameters: the
tokens after the parenthesis and every second one from there. The second part says whether all are
there and a closing parenthesis follows. -/
def argumentsFor (row : Array Tree) (i : Int) (arity : Nat) : List Int × Bool :=
  let indices := (List.range arity).map fun (k : Nat) => i + 2 + 2 * (k : Int)
  let present := indices.takeWhile (· < (row.size : Int))
  let closing := at? row (i + 1 + 2 * arity)
  (present, present.length == arity && (closing.map Tree.text) == some ")")

/-- Looks for the first of several definitions with parameters that a use at `i` fits. The indices of
the arguments tried for those that do not fit stay in front. -/
def matchArities (row : Array Tree) (i : Int) (tried : List Int) :
    Table Nat Tree → Option (Tree × List Int)
  | [] => none
  | (0, _) :: rest => matchArities row i tried rest
  | (arity, definition) :: rest =>
    let (indices, fits) := argumentsFor row i arity
    if fits then some (definition, tried ++ indices)
    else matchArities row i (tried ++ indices) rest

/-- The definition that the token at `i` is a use of, and the indices of its arguments. A name that a
parenthesis follows is a use of a definition with parameters only. -/
def findUse (row : Array Tree) (i : Int) (definitions : Table Nat Tree) :
    Option (Tree × List Int) :=
  if ((at? row (i + 1)).map Tree.text) == some "(" then matchArities row i [] definitions
  else (definitions.get? 0).map fun definition => (definition, [])

/-- The argument that takes the place of a token, if it is a parameter. -/
def argumentOf? (text : String) (parameters : List String) (arguments : List Tree) : Option Tree :=
  ((parameters.zip arguments).find? fun (p, _) => p == text).map (·.2)

mutual

/-- Puts arguments in the place of parameters. Statements are built anew; code and arrays stay as
they are. -/
def substitute (parameters : List String) (arguments : List Tree) : Tree → Build Tree
  | .statement id b ending cs => do
    let cs ← substituteList parameters arguments cs
    let content := (Tree.statement id b ending cs).content
    setEnding (← if b then bracketed content else statement content) ending
  | t => return (argumentOf? t.text parameters arguments).getD t

def substituteList (parameters : List String) (arguments : List Tree) :
    List Tree → Build (List Tree)
  | [] => return []
  | t :: ts =>
    return (← substitute parameters arguments t) :: (← substituteList parameters arguments ts)

end

end ArmaScript.Build
