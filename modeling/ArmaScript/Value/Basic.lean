import ArmaScript.Signature.Basic
import ArmaScript.Tree.Basic

/-!
# Values

What a script computes with. Every value has an identity, which equals that of the node it was
written as, if it was. Arrays are shared: a value holds only the identity of an array, and its
elements are kept in a store. The helpers are values of half-written control structures, for
instance of `if (x)` before its `then`.
-/

namespace ArmaScript

/-- A value, or a token that stands for itself. -/
inductive Value where
  | atom (id : NodeId) (a : Atom)
  /-- Code, with its braces. Of undefined code nothing is known. -/
  | code (id : NodeId) (defined : Bool) (children : List Tree)
  | array (id : NodeId)
  /-- `private _x` -/
  | privateOf (id : NodeId) (name : Value)
  /-- `while code` -/
  | whileOf (id : NodeId) (condition : Value)
  /-- `for name from first to last step step`, as far as it is written. -/
  | forOf (id : NodeId) (name : Value) (first last : Option Value) (step : Value)
  /-- `for [start, condition, increment]` -/
  | forSpecOf (id : NodeId) (parts : Value)
  /-- `switch x`, `case x` or `default x`: the keyword in lower case tells which. -/
  | switchOf (id : NodeId) (keyword : String) (subject : Value)
  /-- `if x` -/
  | ifOf (id : NodeId) (condition : Value)
  /-- `code else code` -/
  | elseOf (id : NodeId) (first second : Value)
  /-- `try code` -/
  | tryOf (id : NodeId) (body : Value)
  /-- `with namespace` -/
  | withOf (id : NodeId) (space : Value)
  /-- A node that stands for itself: a definition, or a statement that a directive changed. -/
  | node (t : Tree)

namespace Value

def id : Value → NodeId
  | .atom id _ => id
  | .code id _ _ => id
  | .array id => id
  | .privateOf id _ => id
  | .whileOf id _ => id
  | .forOf id _ _ _ _ => id
  | .forSpecOf id _ => id
  | .switchOf id _ _ => id
  | .ifOf id _ => id
  | .elseOf id _ _ => id
  | .tryOf id _ => id
  | .withOf id _ => id
  | .node t => t.id

def kind : Value → Kind
  | .atom _ a => a.kind
  | .code .. => .code
  | .array _ => .array
  | .privateOf .. => .privateHelper
  | .whileOf .. => .whileHelper
  | .forOf .. => .forHelper
  | .forSpecOf .. => .forSpecHelper
  | .switchOf .. => .switchHelper
  | .ifOf .. => .ifHelper
  | .elseOf .. => .elseHelper
  | .tryOf .. => .tryHelper
  | .withOf .. => .withHelper
  | .node t => t.kind

/-- The value that a node stands for without being run. -/
def ofTree : Tree → Value
  | .atom id a => .atom id a
  | .code id cs => .code id true cs
  | t => .node t

def operand : Value → Operand
  | .atom _ (.keyword w) => .keyword (Text.lower w)
  | .atom _ (.directive w) => .directive (Text.lower w)
  | v => .thing v.kind

def isKeyword (v : Value) (word : String) : Bool :=
  match v with
  | .atom _ a => a.isKeyword word
  | _ => false

def varName? : Value → Option String
  | .atom _ (.var name) => some name
  | _ => none

def isNothing (v : Value) : Bool :=
  v.kind == .nothing

end Value

end ArmaScript
