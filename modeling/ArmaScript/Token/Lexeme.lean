import ArmaScript.Fault

/-!
# Lexemes

A script is first cut at its separators: blanks, line ends, brackets, quotes and operator symbols.
What lies between two separators is a word. Then the lexemes from a quote to its end, and those of a
comment, are put together again. Nothing is lost on the way: the texts of the pieces make up the
script.
-/

namespace ArmaScript

/-- A text in quotes, as it is written: a quote inside stays doubled. -/
structure Quoted where
  quote : Char
  body : String
deriving DecidableEq, Repr

def Quoted.text (q : Quoted) : String :=
  q.quote.toString ++ q.body ++ q.quote.toString

namespace Lexeme

/-- Two characters that together are one separator. -/
def isPair (c d : Char) : Bool :=
  match c, d with
  | '\\', '\n' | '\r', '\n' | '>', '>' | '/', '*' | '*', '/' | '|', '|' | '/', '/' | '!', '='
  | '<', '=' | '>', '=' | '=', '=' => true
  | _, _ => false

/-- The characters that are separators by themselves. -/
def separators : List Char :=
  "\n\t\"' =:\x7b\x7d()[];/,!*%^-+<>".toList

def isSeparator (c : Char) : Bool :=
  separators.contains c

/-- The word that was read so far, which is given from its end, unless it is empty. -/
def flush (word : List Char) (rest : List String) : List String :=
  if word.isEmpty then rest else String.ofList word.reverse :: rest

/-- Cuts a text at its separators; `word` holds what was read since the last one, from its end. -/
def splitChars (word : List Char) : List Char → List String
  | [] => flush word []
  | [c] => if isSeparator c then flush word [c.toString] else flush (c :: word) []
  | c :: d :: rest =>
    if isPair c d then flush word (String.ofList [c, d] :: splitChars [] rest)
    else if isSeparator c then flush word (c.toString :: splitChars [] (d :: rest))
    else splitChars (c :: word) (d :: rest)

def split (script : String) : List String :=
  splitChars [] script.toList

/-- A lexeme, or the lexemes of a text in quotes or of a comment together. -/
inductive Piece where
  | word (text : String)
  | quoted (q : Quoted)
  | comment (text : String)
deriving DecidableEq, Repr

namespace Piece

def text : Piece → String
  | .word s => s
  | .quoted q => q.text
  | .comment s => s

def joined (pieces : List Piece) : String :=
  String.join (pieces.map text)

end Piece

/-- What is being read: ordinary lexemes, a text in quotes, or one of the two sorts of comment. Of a
text in quotes, `doubled` says that the last quote only announces a second one. -/
inductive Mode where
  | plain
  | quoted (quote : Char) (doubled : Bool)
  | block
  | line

/-- Puts quotes and comments together. `buffer` holds the text of the piece being read behind its
opening, and `done` the pieces before it, the last one first. -/
def groupFrom : Mode → String → List Piece → List String → Except Fault (List Piece)
  | .plain, _, done, [] => .ok done.reverse
  | .block, buffer, done, [] => .ok (.comment buffer :: done).reverse
  | .line, buffer, done, [] => .ok (.comment buffer :: done).reverse
  | .quoted .., _, done, [] =>
    .error (.error (.afterText (Piece.joined done.reverse)) "String is not closed")
  | .plain, _, done, lexeme :: rest =>
    match lexeme with
    | "\"" => groupFrom (.quoted '"' false) "" done rest
    | "'" => groupFrom (.quoted '\'' false) "" done rest
    | "/*" => groupFrom .block lexeme done rest
    | "//" => groupFrom .line lexeme done rest
    | _ => groupFrom .plain "" (.word lexeme :: done) rest
  | .quoted quote doubled, buffer, done, lexeme :: rest =>
    if lexeme != quote.toString then groupFrom (.quoted quote doubled) (buffer ++ lexeme) done rest
    else if doubled then groupFrom (.quoted quote false) (buffer ++ lexeme) done rest
    else if rest.head? == some quote.toString then
      groupFrom (.quoted quote true) (buffer ++ lexeme) done rest
    else groupFrom .plain "" (.quoted ⟨quote, buffer⟩ :: done) rest
  | .block, buffer, done, lexeme :: rest =>
    if lexeme == "*/" then groupFrom .plain "" (.comment (buffer ++ lexeme) :: done) rest
    else groupFrom .block (buffer ++ lexeme) done rest
  | .line, buffer, done, lexeme :: rest =>
    if lexeme == "\n" || lexeme == "\r\n" then
      groupFrom .plain "" (.comment (buffer ++ lexeme) :: done) rest
    else groupFrom .line (buffer ++ lexeme) done rest

/-- Puts quotes and comments together. A comment may end with the script, a text in quotes not. -/
def group (lexemes : List String) : Except Fault (List Piece) :=
  groupFrom .plain "" [] lexemes

end Lexeme

end ArmaScript
