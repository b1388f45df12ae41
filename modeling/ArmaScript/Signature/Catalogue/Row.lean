import ArmaScript.Signature.Basic

/-!
# Rows of the catalogue

Short forms in which the catalogue of commands is written: all of its signatures have a result.
-/

namespace ArmaScript.Catalogue

def unary (keyword : String) (argument returns : Kind) : Signature :=
  .unary keyword argument (some returns)

def binary (left : Kind) (keyword : String) (right returns : Kind) : Signature :=
  .binary left keyword right (some returns)

/-- Commands without operands that have results of one kind. -/
def alone (returns : Kind) (keywords : List String) : List Signature :=
  keywords.map (.nullary · returns)

/-- Commands with operands of one kind on their right. -/
def before (argument returns : Kind) (keywords : List String) : List Signature :=
  keywords.map (unary · argument returns)

/-- Commands between operands of two kinds. -/
def between (left right returns : Kind) (keywords : List String) : List Signature :=
  keywords.map (binary left · right returns)

end ArmaScript.Catalogue
