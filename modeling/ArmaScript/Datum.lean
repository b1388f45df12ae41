import ArmaScript.Fault
import ArmaScript.Number.Basic

/-!
# Plain data

Numbers, texts, truth values, lists and records without any meaning in a script, and two questions
about them: where a value last stands in a list, and whether two records agree outside some fields.
Truth values equal the numbers one and zero.
-/

namespace ArmaScript

inductive Datum where
  | null
  | bool (b : Bool)
  | num (n : Num)
  | text (s : String)
  | list (items : List Datum)
  | record (fields : List (String × Datum))
deriving Inhabited

namespace Datum

/-- The number that a truth value or a number equals. -/
def number? : Datum → Option Num
  | .bool b => some (.int (if b then 1 else 0))
  | .num n => some n
  | _ => none

mutual

/-- Whether two pieces of data are equal. The order of the fields of a record does not matter. -/
def same : Datum → Datum → Bool
  | .null, .null => true
  | .text s, .text t => s == t
  | .list xs, .list ys => sameList xs ys
  | .record fs, .record gs => fs.length == gs.length && coveredBy fs gs
  | x, y => match x.number?, y.number? with
    | some m, some n => m.same n
    | _, _ => false

def sameList : List Datum → List Datum → Bool
  | [], [] => true
  | x :: xs, y :: ys => x.same y && sameList xs ys
  | _, _ => false

def coveredBy : List (String × Datum) → List (String × Datum) → Bool
  | [], _ => true
  | (k, v) :: fs, gs => (match gs.lookup k with
    | some w => v.same w
    | none => false) && coveredBy fs gs

end

def lastIndex (items : List Datum) (value : Datum) : Except Fault Nat :=
  match items.reverse.findIdx? (·.same value) with
  | some i => .ok (items.length - i - 1)
  | none => .error .badValue

/-- Whether two records have the same fields with equal values, apart from the ignored ones. -/
def agree (a b : List (String × Datum)) (ignored : List String) : Bool :=
  coveredBy (a.filter fun f => !ignored.contains f.1) b &&
    b.all fun (k, _) => ignored.contains k || (a.lookup k).isSome

end Datum

end ArmaScript
