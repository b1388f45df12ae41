import ArmaScript.Token.Atom
import ArmaScript.Token.Vocabulary

/-!
# From lexemes to tokens

Each lexeme is one token: layout, a bracket or an ending, a truth value, a number, a directive, a
namespace, a keyword, or else a name. The order of these questions matters, because a word may
qualify for several of them.
-/

namespace ArmaScript.Atom

/-- The brackets and endings of a script. -/
def marks : List String :=
  ["(", ")", "[", "]", "\x7b", "\x7d", ",", ";"]

/-- The word of a script that is neither layout nor a number. -/
def ofName (word : String) : Atom :=
  if Vocabulary.directives.contains word then .directive word
  else if Vocabulary.namespaces.contains (Text.lower word) then .nspace word
  else if Vocabulary.isKeyword (Text.lower word) then .keyword word
  else .var word

def ofWord (word : String) : Atom :=
  if word == " " then .space
  else if word == "\t" then .tab
  else if word == "\\\n" then .lineJoin
  else if marks.contains word then .mark word
  else if word == "\n" || word == "\r\n" then .lineEnd word
  else if word == "true" then .boolean true
  else if word == "false" then .boolean false
  else match Num.ofWord? word with
    | some n => .number n
    | none => ofName word

def ofPiece : Lexeme.Piece → Atom
  | .word s => ofWord s
  | .quoted q => .string q
  | .comment s => .comment s

def lex (script : String) : Except Fault (List Atom) :=
  return (← Lexeme.group (Lexeme.split script)).map ofPiece

end ArmaScript.Atom
