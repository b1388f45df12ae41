/-!
# Kinds

Every token, value and node of a script is of one kind. The kinds of values are what the signatures
of operators and commands speak of; their names appear in messages.
-/

namespace ArmaScript

/-- What a token, a value or a node is. -/
inductive Kind where
  /-- Comments and the characters that only lay out a script. -/
  | comment | space | tab | lineEnd | lineJoin | fileEnd | mark
  /-- Any value at all, and any constant: these two stand in signatures, not for one sort of value. -/
  | any | constant
  /-- Values that can be written down, and the two kinds of unknown value. -/
  | boolean | string | number | array | code | nspace | nothing | anything
  /-- Names. -/
  | var | keyword | directive
  /-- Values that only the game engine makes. -/
  | config | object | script | control | group | display | side | task | location | netObject
  | diaryReport | teamMember
  /-- Helpers: the values of half-written control structures. -/
  | privateHelper | whileHelper | forHelper | forSpecHelper | switchHelper | ifHelper | elseHelper
  | tryHelper | withHelper
  /-- Nodes of a script. -/
  | statement | define | conditional | expansion | resolution
deriving DecidableEq, Repr, Inhabited

namespace Kind

def name : Kind → String
  | .comment => "Comment"
  | .space => "Space"
  | .tab => "Tab"
  | .lineEnd => "EndOfLine"
  | .lineJoin => "BrokenEndOfLine"
  | .fileEnd => "EndOfFile"
  | .mark => "ParserKeyword"
  | .any => "Type"
  | .constant => "ConstantValue"
  | .boolean => "Boolean"
  | .string => "String"
  | .number => "Number"
  | .array => "Array"
  | .code => "Code"
  | .nspace => "Namespace"
  | .nothing => "Nothing"
  | .anything => "Anything"
  | .var => "Variable"
  | .keyword => "Keyword"
  | .directive => "Preprocessor"
  | .config => "Config"
  | .object => "Object"
  | .script => "Script"
  | .control => "Control"
  | .group => "Group"
  | .display => "Display"
  | .side => "Side"
  | .task => "Task"
  | .location => "Location"
  | .netObject => "NetObject"
  | .diaryReport => "DiaryReport"
  | .teamMember => "TeamMember"
  | .privateHelper => "PrivateType"
  | .whileHelper => "WhileType"
  | .forHelper => "ForType"
  | .forSpecHelper => "ForSpecType"
  | .switchHelper => "SwitchType"
  | .ifHelper => "IfType"
  | .elseHelper => "ElseType"
  | .tryHelper => "TryType"
  | .withHelper => "WithType"
  | .statement => "Statement"
  | .define => "DefineStatement"
  | .conditional => "IfDefStatement"
  | .expansion => "DefineResult"
  | .resolution => "IfDefResult"

/-- Comments and layout, which play no part in what a script does. -/
def isLayout : Kind → Bool
  | .comment | .space | .tab | .lineEnd | .lineJoin | .fileEnd | .mark => true
  | _ => false

/-- Everything that can be the value of something. Words of the language and statements cannot. -/
def isValue (k : Kind) : Bool :=
  !k.isLayout && k != .keyword && k != .directive && k != .statement

/-- Helpers, and the nodes that directives leave in a script. -/
def isHelper : Kind → Bool
  | .privateHelper | .whileHelper | .forHelper | .forSpecHelper | .switchHelper | .ifHelper
  | .elseHelper | .tryHelper | .withHelper | .define | .conditional | .expansion | .resolution => true
  | _ => false

/-- Whether a thing of kind `k` is acceptable where a signature asks for `wanted`. -/
def isA (k wanted : Kind) : Bool :=
  k == wanted || (wanted == .any && k.isValue)

/-- As `isA`, but an unknown value is acceptable for every kind except a helper. -/
def mayBe (k wanted : Kind) : Bool :=
  k.isA wanted || (k == .anything && !wanted.isHelper)

end Kind

end ArmaScript
