import ArmaScript.Tree.Same
import ArmaScript.Value.Store

/-!
# The content of values

The content of a value is what it holds for others to compute with: a truth value, a number, a text,
the elements of an array, or nothing. This module also has the text of a value, equality of values,
and whether a value is undefined. An array can hold itself, so the functions that look into arrays
take a bound on how deep they look. For texts the number of identities in the store is enough for all
arrays that do not; equality has a bound of its own, so that it does not depend on how much is stored.
-/

namespace ArmaScript

inductive Content where
  | none
  | bool (b : Bool)
  | num (n : Num)
  | text (s : String)
  | list (elements : List Value)

namespace Content

/-- The number that a truth value or a number equals. -/
def number? : Content → Option Num
  | .bool b => some (.int (if b then 1 else 0))
  | .num n => some n
  | _ => Option.none

/-- A whole number, which a truth value is as well. -/
def whole : Content → Except Fault Int
  | c => match c.number? with
    | some (.int n) => .ok n
    | _ => .error .wrongType

/-- Whether two contents are equal. Lists are not compared. -/
def same : Content → Content → Bool
  | .none, .none => true
  | .text s, .text t => s == t
  | a, b => match a.number?, b.number? with
    | some m, some n => m.same n
    | _, _ => false

end Content

namespace Store

def atomContent : Atom → Content
  | .boolean (some b) => .bool b
  | .string (some q) => .text q.body
  | .number (some n) => .num n
  | .keyword w => .text w
  | .directive w => .text w
  | .nspace w => .text w
  | _ => .none

def content (s : Store) : Value → Content
  | .atom _ a => atomContent a
  | .array id => match s.elements? id with
    | some vs => .list vs
    | none => .none
  | _ => .none

/-- Whether a value is of a known kind but otherwise unknown. Words of the language are neither
defined nor undefined. -/
def isUndefined (s : Store) : Value → Except Fault Bool
  | .atom _ (.var _) => .ok false
  | .atom _ (.keyword _) => .error .missingPart
  | .atom _ (.directive _) => .error .missingPart
  | .atom _ a => .ok (match atomContent a with
    | .none => true
    | _ => false)
  | .code _ defined _ => .ok (!defined)
  | .array id => .ok (s.elements? id).isNone
  | .privateOf _ v => s.isUndefined v
  | .whileOf _ v => s.isUndefined v
  | .forOf _ name first last _ => do
    if ← s.isUndefined name then return true
    if ← (match first with
      | some v => s.isUndefined v
      | none => .ok false) then return true
    match last with
    | some v => s.isUndefined v
    | none => .ok false
  | .forSpecOf _ v => s.isUndefined v
  | .switchOf _ _ v => s.isUndefined v
  | .ifOf _ v => s.isUndefined v
  | .elseOf _ v w => do
    if ← s.isUndefined w then return true
    s.isUndefined v
  | .tryOf _ v => s.isUndefined v
  | .withOf _ v => s.isUndefined v
  | .node (.array ..) => .ok false
  | .node _ => .ok true

/-- The text of a helper, which has none of its own. -/
def helperText (k : Kind) : String :=
  "<sqf.interpreter_types." ++ k.name ++ " object>"

/-- The text of a value, looking into arrays at most `depth` deep. -/
def textWithin (s : Store) : Nat → Value → String
  | _, .atom _ a => a.text
  | _, .code _ _ cs => Tree.textList cs
  | _, .node t => t.text
  | 0, .array _ => ""
  | depth + 1, .array id =>
    if (s.elements? id).isNone then "[undefined]"
    else "[" ++ ",".intercalate ((s.shown id).map (s.textWithin depth)) ++ "]"
  | _, v => helperText v.kind

def text (s : Store) (v : Value) : String :=
  s.textWithin (s.nextId + 1) v

def sameItems (eq : Value → Value → Bool) : List Value → List Value → Bool
  | [], [] => true
  | v :: vs, w :: ws => eq v w && sameItems eq vs ws
  | _, _ => false

def sameOption (eq : Value → Value → Bool) : Option Value → Option Value → Bool
  | none, none => true
  | some v, some w => eq v w
  | _, _ => false

/-- Whether two values are built in the same way from parts that are equal by `eq`. Arrays are if both
their elements and what they show are. -/
def sameParts (s : Store) (eq : Value → Value → Bool) : Value → Value → Bool
  | .atom _ a, .atom _ b => a.same b
  | .code _ d cs, .code _ e ds => d == e && Tree.sameList cs ds
  | .array i, .array j =>
    sameItems eq (s.shown i) (s.shown j) && (match s.elements? i, s.elements? j with
      | some vs, some ws => sameItems eq vs ws
      | none, none => true
      | _, _ => false)
  | .privateOf _ a, .privateOf _ b => eq a b
  | .whileOf _ a, .whileOf _ b => eq a b
  | .forOf _ a f l st, .forOf _ b f' l' st' =>
    eq a b && sameOption eq f f' && sameOption eq l l' && eq st st'
  | .forSpecOf _ a, .forSpecOf _ b => eq a b
  | .switchOf _ k a, .switchOf _ l b => k == l && eq a b
  | .ifOf _ a, .ifOf _ b => eq a b
  | .elseOf _ a b, .elseOf _ c d => eq a c && eq b d
  | .tryOf _ a, .tryOf _ b => eq a b
  | .withOf _ a, .withOf _ b => eq a b
  | .node t, .node u => t.same u
  | _, _ => false

/-- Whether two values are equal, looking at most `depth` deep. A value always equals itself. -/
def sameWithin (s : Store) : Nat → Value → Value → Bool
  | 0, _, _ => false
  | depth + 1, v, w => v.id == w.id || s.sameParts (s.sameWithin depth) v w

def equalityDepth : Nat := 1000

def same (s : Store) (v w : Value) : Bool :=
  s.sameWithin equalityDepth v w

end Store

end ArmaScript
