import ArmaScript.Signature.Catalogue
import Std.Data.HashSet

/-!
# The vocabulary

The words that a script does not use as names: directives, namespaces, and the keywords of all
operators and commands. Apart from directives they are known in any case.
-/

namespace ArmaScript.Vocabulary

def unaryDirectives : List String :=
  ["#ifdef", "#ifndef", "#undef", "#include"]

def directives : List String :=
  "#define" :: unaryDirectives ++ ["#else", "#endif"]

def namespaces : List String :=
  ["missionnamespace", "profilenamespace", "uinamespace", "parsingnamespace"]

def unaryList : List String :=
  Catalogue.unaries.map Signature.word

def binaryList : List String :=
  (Catalogue.operators ++ Catalogue.binaries).map Signature.word

/-- All keywords: those of the catalogue, assignment, the backslash and the directives. -/
def keywordList : List String :=
  (["=", "\\"] ++ directives ++ Catalogue.all.map Signature.word).filter (!namespaces.contains ·)

def unaryWords : Std.HashSet String := .ofList unaryList

def binaryWords : Std.HashSet String := .ofList binaryList

def keywordWords : Std.HashSet String := .ofList keywordList

def isUnary (word : String) : Bool :=
  unaryWords.contains word

def isBinary (word : String) : Bool :=
  binaryWords.contains word

def isKeyword (word : String) : Bool :=
  keywordWords.contains word

end ArmaScript.Vocabulary
