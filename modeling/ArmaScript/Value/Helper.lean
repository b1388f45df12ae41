import ArmaScript.Signature.Command
import ArmaScript.Value.Store

/-!
# Helpers

The values of half-written control structures, and the commands that make them. A `from`, `to` or
`step` makes a new helper; the one that it continues stays as it is, and the parts that are not
given yet start anew.
-/

namespace ArmaScript.Stored

/-- The helper that a command makes of its one operand, if it makes one. -/
def unaryHelper? (c : Command) (v : Value) : Option (Stored Value) :=
  match c with
  | .caseOf => some do return .switchOf (← fresh) "case" v
  | .defaultOf => some do return .switchOf (← fresh) "default" v
  | .switchOn => some do return .switchOf (← fresh) "switch" v
  | .withSpace => some do return .withOf (← fresh) v
  | .tryCode => some do return .tryOf (← fresh) v
  | .whileCond => some do return .whileOf (← fresh) v
  | .forVar => some do return .forOf (← fresh) v none none (← number (.int 1))
  | .forSpec => some do return .forSpecOf (← fresh) v
  | .ifCond => some do return .ifOf (← fresh) v
  | _ => none

/-- The helper that a command makes of its two operands, if it makes one. -/
def binaryHelper? (c : Command) (left right : Value) : Option (Stored Value) :=
  match c, left with
  | .forFrom, .forOf _ name _ _ _ => some do
    return .forOf (← fresh) name right none (← number (.int 1))
  | .forTo, .forOf _ name first _ _ => some do
    return .forOf (← fresh) name first right (← number (.int 1))
  | .forStep, .forOf _ name first last _ => some do
    return .forOf (← fresh) name first last right
  | .elseCode, l => some do return .elseOf (← fresh) l right
  | _, _ => none

end ArmaScript.Stored
