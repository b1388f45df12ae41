import ArmaScript.Number.Basic
import ArmaScript.Signature.Kind
import ArmaScript.Text.Case
import ArmaScript.Token.Lexeme

/-!
# Atoms

An atom is a token of a script, or a value that has no parts. A constant may be *undefined*: of a
known kind, but of unknown value.
-/

namespace ArmaScript

/-- A token or a value without parts. -/
inductive Atom where
  | comment (text : String)
  | space
  | tab
  | lineEnd (text : String)
  | lineJoin
  | fileEnd
  | mark (text : String)
  | boolean (value : Option Bool)
  | string (value : Option Quoted)
  | number (value : Option Num)
  | nothing
  | anything
  | var (name : String)
  | keyword (word : String)
  | directive (word : String)
  | nspace (word : String)
  /-- A value of one of the kinds that only the game engine makes. -/
  | engine (kind : Kind)

namespace Atom

def kind : Atom → Kind
  | .comment _ => .comment
  | .space => .space
  | .tab => .tab
  | .lineEnd _ => .lineEnd
  | .lineJoin => .lineJoin
  | .fileEnd => .fileEnd
  | .mark _ => .mark
  | .boolean _ => .boolean
  | .string _ => .string
  | .number _ => .number
  | .nothing => .nothing
  | .anything => .anything
  | .var _ => .var
  | .keyword _ => .keyword
  | .directive _ => .directive
  | .nspace _ => .nspace
  | .engine k => k

def isLayout (a : Atom) : Bool :=
  a.kind.isLayout

def orUndefined (text : α → String) : Option α → String
  | some v => text v
  | none => "undefined"

def text : Atom → String
  | .comment s => s
  | .space => " "
  | .tab => "\t"
  | .lineEnd s => s
  | .lineJoin => "\\\n"
  | .fileEnd => ""
  | .mark s => s
  | .boolean v => orUndefined (fun b => if b then "true" else "false") v
  | .string v => orUndefined Quoted.text v
  | .number v => orUndefined Num.text v
  | .nothing => "Nothing"
  | .anything => "<Anything>"
  | .var name => name
  | .keyword w => w
  | .directive w => w
  | .nspace w => w
  | .engine k => k.name

/-- Writes the line ends of a comment as visible characters. -/
def escapeLineEnds : List Char → List Char
  | '\r' :: '\n' :: rest => '\\' :: 'r' :: '\\' :: 'n' :: escapeLineEnds rest
  | '\n' :: rest => '\\' :: 'n' :: escapeLineEnds rest
  | c :: rest => c :: escapeLineEnds rest
  | [] => []

def debugText : Atom → String
  | .comment s => String.ofList (escapeLineEnds ("C(" ++ s ++ ")").toList)
  | .space => "' '"
  | .tab => "\\t"
  | .lineEnd _ => "<EOL>"
  | .lineJoin => "<\\EOL>"
  | .fileEnd => "<\\EOF>"
  | .mark s => s
  | a@(.boolean _) => "B<" ++ a.text ++ ">"
  | a@(.string _) => "s<" ++ a.text ++ ">"
  | a@(.number _) => "N" ++ a.text
  | .nothing => "<Nothing>"
  | .anything => "<Anything>"
  | .var name => "V<" ++ name ++ ">"
  | .keyword w => "K<" ++ w ++ ">"
  | .directive w => "K<" ++ w ++ ">"
  | .nspace w => "NS<" ++ w ++ ">"
  | .engine k => "<sqf.types." ++ k.name ++ " object>"

/-- Whether two optional numbers are both undefined or have the same value. -/
def sameNumber : Option Num → Option Num → Bool
  | some a, some b => a.same b
  | none, none => true
  | _, _ => false

/-- Whether two atoms are equal: words of the language without regard to case, numbers by value,
names and texts letter by letter. -/
def same : Atom → Atom → Bool
  | .comment s, .comment t => s == t
  | .space, .space => true
  | .tab, .tab => true
  | .lineEnd s, .lineEnd t => s == t
  | .lineJoin, .lineJoin => true
  | .fileEnd, .fileEnd => true
  | .mark s, .mark t => s == t
  | .boolean a, .boolean b => a == b
  | .string a, .string b => a == b
  | .number a, .number b => sameNumber a b
  | .nothing, .nothing => true
  | .anything, .anything => true
  | .var a, .var b => a == b
  | .keyword a, .keyword b => Text.lower a == Text.lower b
  | .directive a, .directive b => Text.lower a == Text.lower b
  | .nspace a, .nspace b => Text.lower a == Text.lower b
  | .engine a, .engine b => a == b
  | _, _ => false

def isMark (a : Atom) (text : String) : Bool :=
  a.same (.mark text)

def isKeyword (a : Atom) (word : String) : Bool :=
  a.same (.keyword word)

def isDirective (a : Atom) (word : String) : Bool :=
  a.same (.directive word)

end Atom

end ArmaScript
