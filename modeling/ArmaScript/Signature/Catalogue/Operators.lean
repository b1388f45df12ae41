import ArmaScript.Signature.Catalogue.Row

/-!
# Operators

Operators written with symbols that stand between two operands.
-/

namespace ArmaScript.Catalogue

/-- The kinds of values that can be compared, in the order in which they are tried. -/
def comparable : List Kind :=
  [.number, .string, .object, .group, .side, .string, .config, .display, .control,
    .teamMember, .netObject, .task, .location]

def operators : List Signature :=
  comparable.map (fun k => binary k "!=" k .boolean) ++ [
  binary .number "%" .number .number,
  binary .boolean "&&" .boolean .boolean,
  binary .boolean "&&" .code .boolean,
  binary .number "*" .number .number,
  binary .number "+" .number .number,
  binary .string "+" .string .string,
  binary .array "+" .array .array,
  binary .number "-" .number .number,
  binary .array "-" .array .array,
  binary .number "/" .number .number,
  binary .config "/" .string .config,
  binary .switchHelper ":" .code .nothing,
  binary .number "<" .number .boolean,
  binary .number "<=" .number .boolean] ++
  comparable.map (fun k => binary k "==" k .boolean) ++ [
  binary .number ">" .number .boolean,
  binary .number ">=" .number .boolean,
  binary .config ">>" .string .config,
  binary .number "^" .number .number,
  binary .boolean "||" .boolean .boolean,
  binary .boolean "||" .code .boolean]

end ArmaScript.Catalogue
