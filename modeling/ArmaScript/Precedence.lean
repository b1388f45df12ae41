import ArmaScript.Fault
import ArmaScript.Token.Vocabulary

/-!
# Operator precedence

A row of items is arranged by how strongly its operators bind. Prefix operators bind strongest,
operators between operands by their power and to the left, and two operands side by side bind
weakest. Layout is not an operand: it is kept beside the operand that it follows or precedes.

The arrangement works on any sort of item that has a text. Powers are given in tenths.
-/

namespace ArmaScript

/-- An arranged row: an item, or a group of arranged rows. -/
inductive Exp (α : Type) where
  | leaf (a : α)
  | group (items : List (Exp α))

namespace Precedence

variable {α : Type}

/-- How strongly a word binds the operands beside it; the text is in lower case. -/
def power (word : String) : Nat :=
  if word == "=" then 8
  else if word == "private" then 9
  else if ["||", "or"].contains word then 10
  else if ["&&", "and"].contains word then 20
  else if ["==", "isequalto", "!=", "<", ">", "<=", ">=", ">>"].contains word then 30
  else if ["*", "/", "%", "mod", "atan2"].contains word then 70
  else if ["+", "max", "min", "-"].contains word then 60
  else if word == "else" then 50
  else if Vocabulary.isBinary word then 40
  else if Vocabulary.isUnary word then 90
  else 1

/-- The power that no operator exceeds: an operand of a prefix operator ends at once. -/
def prefixPower : Nat := 1000

/-- What the arrangement needs to know of an item. -/
structure Items (α : Type) where
  text : α → String
  isLayout : α → Bool

/-- What is left to arrange: the next item, if there is one, the layout read before it that no group
has taken up yet, and the items after it. -/
structure Ahead (α : Type) where
  next : Option α
  skipped : List α
  rest : List α

def Ahead.advance (items : Items α) (s : Ahead α) : Ahead α :=
  let skipped := s.skipped ++ s.rest.takeWhile items.isLayout
  match s.rest.dropWhile items.isLayout with
  | [] => ⟨none, skipped, []⟩
  | a :: rest => ⟨some a, skipped, rest⟩

/-- How strongly the next item binds; the end does not. -/
def Ahead.power (items : Items α) (s : Ahead α) : Nat :=
  match s.next with
  | some a => Precedence.power (Text.lower (items.text a))
  | none => 0

/-- A group of the given rows, with items of layout before and after. -/
def surround (before : List α) (e : Exp α) (after : List α) : Exp α :=
  if before.isEmpty && after.isEmpty then e
  else .group (before.map .leaf ++ [e] ++ after.map .leaf)

/-- How an item starts an operand: alone, or with one or three operands of its own. -/
inductive Opening where
  | alone | one | three

/-- An operator before its operand takes one, a definition takes three, and a name in upper case
takes the parenthesis that follows it. -/
def opening (items : Items α) (a : α) (s : Ahead α) : Except Fault Opening :=
  let text := items.text a
  if Vocabulary.isUnary (Text.lower text) || Vocabulary.unaryDirectives.contains text then .ok .one
  else if text == "#define" then .ok .three
  else if Text.isUpper text then
    match s.next with
    | none => .ok .alone
    | some b => match (items.text b).toList with
      | [] => .error .outOfRange
      | c :: _ => .ok (if c == '(' then .one else .alone)
  else .ok .alone

mutual

/-- Arranges an operand and the operators behind it that bind more strongly than `bound`. -/
def operand (items : Items α) : Nat → Nat → Ahead α → Except Fault (Exp α × Ahead α)
  | 0, _, _ => .error .exhausted
  | fuel + 1, bound, s =>
    match s.next with
    | none =>
      let s' : Ahead α := ⟨none, [], s.rest⟩
      match s.skipped with
      | [a] => .ok (.leaf a, s')
      | skipped => .ok (.group (skipped.map .leaf), s')
    | some a => do
      let s' := Ahead.advance items ⟨none, [], s.rest⟩
      let (e, s'') ← start items fuel a s'
      operators items fuel bound (surround s.skipped e s''.skipped) ⟨s''.next, [], s''.rest⟩

/-- Arranges what starts with an item: the item alone, or a prefix operator with its operands. -/
def start (items : Items α) : Nat → α → Ahead α → Except Fault (Exp α × Ahead α)
  | 0, _, _ => .error .exhausted
  | fuel + 1, a, s => do
    match ← opening items a s with
    | .alone => return (.leaf a, s)
    | .one =>
      let (e, s) ← operand items fuel prefixPower s
      return (.group [.leaf a, e], s)
    | .three =>
      let (e₁, s) ← operand items fuel prefixPower s
      let (e₂, s) ← operand items fuel prefixPower s
      let (e₃, s) ← operand items fuel prefixPower s
      return (.group [.leaf a, e₁, e₂, e₃], s)

/-- Arranges the operators behind an operand that bind more strongly than `bound`. An operator at
the end of the row has no right operand. -/
def operators (items : Items α) : Nat → Nat → Exp α → Ahead α → Except Fault (Exp α × Ahead α)
  | 0, _, _, _ => .error .exhausted
  | fuel + 1, bound, left, s =>
    match s.next with
    | none => .ok (left, s)
    | some a =>
      let strength := s.power items
      if bound < strength then do
        let s' := Ahead.advance items s
        if s'.next.isNone then return (.group [left, .leaf a], s')
        let (right, s'') ← operand items fuel strength s'
        operators items fuel bound (.group [left, .leaf a, right]) s''
      else .ok (left, s)

end

/-- Arranges a row of items. A single item stays as it is. -/
def arrange (items : Items α) (row : List α) : Except Fault (Exp α) :=
  match row with
  | [a] => .ok (.leaf a)
  | row => do
    let (e, _) ← operand items (3 * row.length + 6) 0 (Ahead.advance items ⟨none, [], row⟩)
    return e

end Precedence

end ArmaScript
