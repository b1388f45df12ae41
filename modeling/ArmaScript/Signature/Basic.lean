import ArmaScript.Signature.Kind
import ArmaScript.Text.Case

/-!
# Signatures

An operator or command is known by its signatures: which kinds of operands it takes on its left and
right, and of what kind its result is. `Signature.accepts` holds for operands that surely fit and
`Signature.admits` also for those that may fit, because some of them are unknown.
-/

namespace ArmaScript

/-- One way in which a keyword can be used. Some control structures have no fixed result. -/
inductive Signature where
  | nullary (keyword : String) (returns : Kind)
  | unary (keyword : String) (argument : Kind) (returns : Option Kind)
  | binary (left : Kind) (keyword : String) (right : Kind) (returns : Option Kind)
deriving DecidableEq, Repr

/-- What a signature is matched with: a word of the language, or a thing of some kind. -/
inductive Operand where
  | keyword (lowered : String)
  | directive (lowered : String)
  | thing (kind : Kind)
deriving DecidableEq, Repr

namespace Operand

def word? : Operand → Option String
  | .keyword w => some w
  | .directive w => some w
  | .thing _ => none

def kind : Operand → Kind
  | .keyword _ => .keyword
  | .directive _ => .directive
  | .thing k => k

def firstWord? (operands : List Operand) : Option String :=
  operands.findSome? word?

end Operand

namespace Signature

def keyword : Signature → String
  | .nullary k _ => k
  | .unary k _ _ => k
  | .binary _ k _ _ => k

def word (s : Signature) : String :=
  Text.lower s.keyword

/-- The number of parts: the keyword and its operands. -/
def arity : Signature → Nat
  | .nullary .. => 1
  | .unary .. => 2
  | .binary .. => 3

def returns : Signature → Option Kind
  | .nullary _ r => some r
  | .unary _ _ r => r
  | .binary _ _ _ r => r

/-- What is written before the result: keyword and kinds, in order. -/
def parts : Signature → List String
  | .nullary k _ => [k]
  | .unary k a _ => [k, a.name]
  | .binary l k r _ => [l.name, k, r.name]

/-- The text of a signature, for instance `Array select Number -> Anything`. -/
def text (s : Signature) : String :=
  " ".intercalate s.parts ++ " -> " ++ (s.returns.map Kind.name).getD "None"

/-- Whether two signatures stand for the same keyword and operands, whatever the result. -/
def sameShape : Signature → Signature → Bool
  | .nullary k _, .nullary l _ => Text.lower k == Text.lower l
  | .unary k a _, .unary l b _ => Text.lower k == Text.lower l && a == b
  | .binary a k b _, .binary c l d _ => a == c && Text.lower k == Text.lower l && b == d
  | _, _ => false

/-- Whether operands fit a signature, given which kinds are acceptable for a wanted one. -/
def fits (acceptable : Kind → Kind → Bool) : Signature → List Operand → Bool
  | .nullary k _, [w] => w == .keyword (Text.lower k)
  | .unary k a _, [w, x] => w == .keyword (Text.lower k) && acceptable x.kind a
  | .binary l k r _, [x, w, y] =>
    acceptable x.kind l && w == .keyword (Text.lower k) && acceptable y.kind r
  | _, _ => false

def accepts : Signature → List Operand → Bool :=
  fits Kind.isA

def admits : Signature → List Operand → Bool :=
  fits Kind.mayBe

end Signature

end ArmaScript
