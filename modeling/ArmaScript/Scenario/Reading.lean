import ArmaScript.Scenario.Basic
import ArmaScript.Scenario.Scripts
import ArmaScript.Script.Parse

/-!
# Scenarios of reading

Reading short scripts and a long one, cutting a text into tokens, and arranging operators.
-/

namespace ArmaScript.Scenario

/-- Reads short scripts: the text, the number of parts and the place of each, and its tokens. -/
def readScripts (size : Int) : Except Fault Outcome := do
  let results ← (cycle readable size).mapM fun text => do
    let tree := (← Script.read text 0).tree
    return [.list [.text tree.text, int tree.children.length, place .start],
      int tree.tokens.length]
  return .ofResult (.list results.flatten)

def longLine (i : Nat) : String :=
  let n := toString i
  match i % 6 with
  | 0 => "private _v" ++ n ++ " = " ++ n ++ " + 1;"
  | 1 => "_arr" ++ n ++ " = [1, 2, 3, " ++ n ++ "];"
  | 2 => "if (" ++ n ++ " > 0) then \x7b_v" ++ n ++ " = _v" ++ n ++ " * 2\x7d else \x7b_v" ++ n ++
      " = 0\x7d;"
  | 3 => "\x7b_x + " ++ n ++ "\x7d forEach [1,2,3];"
  | 4 => "// comment " ++ n ++ "\n"
  | _ => "_v" ++ n ++ " = \"str" ++ n ++ "\" + \"tail\";"

/-- Reads a script of many statements: the number of its parts, how it starts, and its place. -/
def readLongScript (size : Int) : Except Fault Outcome := do
  let tree := (← Script.read ("\n".intercalate ((below size).map longLine)) 0).tree
  return .ofResult (.list [int tree.children.length,
    .text (String.ofList (tree.text.toList.take 200)), place .start])

def sample : String :=
  "_x = 1 + 2.5;\n_s = \"hello \"\"world\"\"\";\n_t = 'single ''q'' text';\n// line comment\n" ++
  "/* block\n comment */\nif (true) then \x7b[1,2,\t3]\x7d;\r\n#define FOO 10\n" ++
  "#include \"macros.hpp\"\n#ifdef FOO\n"

/-- Cuts a text of `size` characters into tokens: how many lexemes and tokens there are, and the first
tokens. -/
def cutText (size : Int) : Except Fault Outcome := do
  let text := String.ofList (cycle sample.toList size)
  let tokens ← Atom.lex text
  return .ofResult (.list [int (Lexeme.split text).length, int tokens.length,
    .list ((tokens.take 50).map fun a => .text a.text)])

def expressionWords (operators : Nat) : List String :=
  let signs := #["+", "*", "-", "||", "&&", "==", "max", "/"]
  (List.range operators).flatMap (fun i => ["v" ++ toString i, signs.getD (i % 8) "+"]) ++ ["vend"]

mutual

def expressionDatum (text : α → String) : Exp α → Datum
  | .leaf a => .text (text a)
  | .group es => .list (expressionData text es)

def expressionData (text : α → String) : List (Exp α) → List Datum
  | [] => []
  | e :: es => expressionDatum text e :: expressionData text es

end

mutual

/-- The words of an arranged expression in a row. -/
def expressionText (text : α → String) : Exp α → String
  | .leaf a => text a
  | .group es => expressionTexts text es

def expressionTexts (text : α → String) : List (Exp α) → String
  | [] => ""
  | e :: es => expressionText text e ++ expressionTexts text es

end

/-- Arranges expressions of three sizes by precedence, and two of them as tokens. -/
def arrangeOperators (size : Int) : Except Fault Outcome := do
  let sizes := [max 3 (size.fdiv 4), max 5 (size.fdiv 2), max 9 size].map Int.toNat
  let trees ← sizes.mapM fun n => do
    return expressionDatum id (← Precedence.arrange ⟨id, fun _ => false⟩ (expressionWords n))
  let texts ← (sizes.take 2).mapM fun n => do
    let row := (expressionWords n).map Atom.ofWord
    return .text (expressionText Atom.text (← Precedence.arrange ⟨Atom.text, Atom.isLayout⟩ row))
  return .ofResult (.list (trees ++ texts))

end ArmaScript.Scenario
