import ArmaScript.Signature.Catalogue.Binary
import ArmaScript.Signature.Catalogue.Nullary
import ArmaScript.Signature.Catalogue.Operators
import ArmaScript.Signature.Catalogue.Unary

/-!
# The catalogue of commands

All signatures of the operators and commands of the game engine. The order matters: the first of
several signatures that fit is taken, and messages list them in order.
-/

namespace ArmaScript.Catalogue

def unaries : List Signature :=
  unarySymbols ++ unaryWords

def all : List Signature :=
  operators ++ unaries ++ binaries ++ nullaries

end ArmaScript.Catalogue
