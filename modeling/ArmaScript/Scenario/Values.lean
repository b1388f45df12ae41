import ArmaScript.Parameter
import ArmaScript.Scenario.Basic
import ArmaScript.Scope
import ArmaScript.Signature.Declaration
import ArmaScript.Value.Helper
import ArmaScript.Value.Unknown

/-!
# Scenarios of values

Building values and nodes, their texts and equality, variables in a namespace, and the catalogue that
is made from declarations.
-/

namespace ArmaScript.Scenario

/-- Takes the result of a computation on an empty store. -/
def stored {α : Type} (m : Stored α) : Except Fault α :=
  match m .empty with
  | .ok a _ => .ok a
  | .error f _ => .error f

def leaf (a : Atom) : Stored Tree :=
  return .atom (← .fresh) a

def bracketed (opening closing : String) (t : Tree) : Stored (List Tree) :=
  return [← leaf (.mark opening), t, ← leaf (.mark closing)]

/-- Code that holds one leaf, which may stand in a statement of its own. -/
def codeOf (t : Tree) : Stored Tree :=
  return .code (← .fresh) (← bracketed "\x7b" "\x7d" t)

def statementOf (children : List Tree) : Stored Tree :=
  return .statement (← .fresh) false none children

def privateStatement (name : String) : Stored Tree := do
  let inner := Tree.statement (← .fresh) true none (← bracketed "(" ")" (← leaf (.var name)))
  statementOf [← leaf (.keyword "private"), inner]

def number (n : Int) : Atom :=
  .number (some (.int n))

/-- Builds an array, changes it in several ways, and builds the code and the statement with the same
number. -/
def roundTrip (i : Nat) : Stored (List Datum) := do
  let name := "v" ++ toString i
  let n ← Stored.number (.int i)
  let double ← Stored.string '"' name
  let single ← Stored.string '\'' name
  let truth ← Stored.boolean (some (i % 2 == 0))
  let build : Stored NodeId := do
    let array ← Stored.array [n, double, truth]
    Stored.reverse array.id
    Stored.set array.id (.num (.int 2)) (← Stored.number (.int 99))
    Stored.append array.id (← Stored.number (.int 1))
    return array.id
  let array ← build
  let other ← build
  let code ← codeOf (← leaf (number i))
  let otherCode ← codeOf (← leaf (number i))
  let statement ← privateStatement ("_x" ++ toString i)
  let otherStatement ← privateStatement ("_x" ++ toString i)
  let unknown ← Stored.unknown .number
  let unknownArray ← Stored.undefinedArray
  let s ← get
  let undefined (v : Value) : Bool := (s.isUndefined v).toOption.getD false
  return [.text (s.text n), .text (s.text double), .text (s.text single), .text (s.text truth),
    .text (s.text (.array array)), .text code.text, .text statement.text,
    int (← Stored.length array), .bool (s.same (.array array) (.array other)),
    .bool (code.same otherCode), .bool (statement.same otherStatement),
    .text (Atom.keyword "hint").text, .text (Atom.nspace "missionNamespace").text,
    .text Atom.nothing.text, .bool ((Atom.keyword "hint").isKeyword "HINT"), .bool (s.same n double),
    .bool ((Atom.nspace "missionNamespace").same (.nspace "missionnamespace")),
    .bool (undefined unknown), .bool (undefined unknownArray)]

/-- Records that agree or not, and the extent of a text. -/
def plainQuestions : List Datum :=
  let record (x y : Int) : List (String × Datum) := [("a", int x), ("b", int y)]
  let extent := Extent.ofText "a\nbb"
  [.bool (Datum.agree (record 1 2) (record 1 3) ["b"]), .bool (Datum.agree (record 1 2) (record 1 3) []),
    .bool (Datum.agree (record 1 2) (record 1 2) []), place (.afterText "a\nbb"),
    .list [int extent.lines, int extent.columns]]

def buildValues (size : Int) : Except Fault Outcome := do
  let results ← (below size).mapM fun i => do
    return [.list (← stored (roundTrip i)), .list plainQuestions]
  return .ofResult (.list results.flatten)

/-! ### Debug texts -/

def signatureText : Signature → String
  | .nullary k _ => "<NullExpression (K<" ++ k ++ ">,)>"
  | .unary k a _ => "<UnaryExpression (K<" ++ k ++ ">, " ++ a.longName ++ ")>"
  | .binary a k b _ =>
    "<BinaryExpression (" ++ a.longName ++ ", K<" ++ k ++ ">, " ++ b.longName ++ ")>"

def debugText (s : Store) : Nat → Value → String
  | _, .atom _ a => a.debugText
  | _, .code _ _ cs => Tree.debugJoin cs
  | _, .node t => t.debugText
  | 0, _ => ""
  | depth + 1, .array id => match s.elements? id with
    | some vs => "[" ++ ",".intercalate (vs.map (debugText s depth)) ++ "]"
    | none => "[undefined]"
  | _, v => Store.helperText v.kind

def layoutTexts (i : Nat) : List Datum :=
  let n := toString i
  let atoms : List Atom := [.comment ("// c" ++ n), .comment ("/* b" ++ n ++ " */"), .space, .tab,
    .lineEnd "\n", .lineEnd "\r\n", .lineJoin, .fileEnd, .mark ";"]
  atoms.map fun a => .text (a.debugText ++ a.text)

/-- The texts of all sorts of values, nodes, signatures and helpers that hold a number. -/
def describe (i : Nat) : Stored (List Datum) := do
  let texts (ss : List String) : Datum := .list (ss.map .text)
  let n := toString i
  let whole ← Stored.number (.int i)
  let half ← Stored.number (.double (Double.ofRatio false (2 * i + 1) 2))
  let unknownNumber ← Stored.unknown .number
  let string ← Stored.string '"' ("s" ++ n)
  let unknownString ← Stored.unknown .string
  let truth ← Stored.boolean (some true)
  let unknownTruth ← Stored.unknown .boolean
  let name : Value := .atom (← .fresh) (.var ("_v" ++ n))
  let word ← leaf (.keyword "hint")
  let space : Value := .atom (← .fresh) (.nspace "missionNamespace")
  let array ← Stored.array [whole, string]
  let unknownArray ← Stored.undefinedArray
  let inner ← statementOf [← leaf (number i)]
  let body := Value.ofTree (← codeOf inner)
  let unknownCode ← Stored.undefinedCode
  let object ← Stored.unknown .object
  let content := [← leaf (.var ("_v" ++ n)), word]
  let marks := [← leaf (.mark "("), ← leaf (.mark ")"), ← leaf (.mark ";")]
  let statement := Tree.statement (← .fresh) true (some .semicolon)
    (marks.take 1 ++ content ++ marks.drop 1)
  let counter ← Stored.string '"' "_i"
  let parts ← Stored.array [body, body, body]
  let one ← Stored.number (.int 1)
  let forHelper := Value.forOf (← .fresh) counter whole half one
  let unknownFor ← Stored.unknown .forHelper
  let ifHelper := Value.ifOf (← .fresh) truth
  let unknownIf ← Stored.unknown .ifHelper
  let elseHelper := Value.elseOf (← .fresh) body body
  let helpers := [forHelper, unknownFor, ifHelper, unknownIf, elseHelper, .whileOf (← .fresh) body,
    .switchOf (← .fresh) "case" whole, .tryOf (← .fresh) body, .withOf (← .fresh) space,
    .forSpecOf (← .fresh) parts, .privateOf (← .fresh) name]
  let define := Tree.define (← .fresh) "hint" [] [] [word]
  let conditional := Tree.conditional (← .fresh) [word]
  let nothing ← Stored.unknown .nothing
  let anything ← Stored.unknown .anything
  let count : Signature := .unary "count" .array (some .number)
  let plus : Signature := .binary .number "+" .number (some .number)
  let time : Signature := .nullary "time" .anything
  let s ← get
  let debug := debugText s 3
  let undefined (v : Value) : Datum := .bool ((s.isUndefined v).toOption.getD false)
  let condition : Value → Value
    | .ifOf _ v => v
    | v => v
  return [.list (layoutTexts i),
    texts ([whole, half, unknownNumber, string, unknownString, truth, unknownTruth, name,
      .ofTree word, space, array, unknownArray, body, unknownCode, anything, nothing].map debug ++
      ["F<" ++ inner.debugText ++ ">"]),
    texts ([whole, half, unknownNumber, string, unknownString, truth, unknownTruth].map s.text ++
      [Kind.constant.name, s.text object, s.text unknownArray]),
    .list [.text statement.debugText, texts (statement.content.map Tree.debugText),
      .bool (statement.same inner), .text word.text, .text (s.text space)],
    .list [.text (signatureText count), .bool (count.accepts [.keyword "count", .thing .number]),
      .bool (count.sameShape plus), .text count.keyword, .text plus.keyword, .text time.keyword,
      .text (debug (← Stored.result .anything))],
    texts (helpers.map (·.kind.name)),
    texts [define.debugText, conditional.debugText],
    .list [undefined forHelper, .text (debug counter), .text (debug (condition unknownIf)),
      .text (debug body), .text (debug body), undefined elseHelper, .text (debug body),
      .text (debug whole), .text (debug space), .text (debug parts), .text (debug name)]]

def describeValues (size : Int) : Except Fault Outcome := do
  let results ← (below size).mapM fun i => stored (describe i)
  return .ofResult (.list results.flatten)

/-! ### Namespaces and declarations -/

/-- Sets global variables in a namespace while local scopes come and go: the level and the value of
each, and the level of the top scope at the end. -/
def fillNamespace (size : Int) : Except Fault Outcome := do
  let start : Stack Int := .ofVariables []
  let (found, stack) ← (below size).foldlM (fun (found, stack) i => do
    let name := "var" ++ toString i
    let stack ← (stack.push [("_" ++ name, Int.ofNat i)]).assign name i
    let level ← stack.levelOf name
    let value ← stack.find? name
    let item := Datum.list [int level, .bool value.isSome, .text (toString (value.getD 0))]
    return (found ++ [item], ← stack.pop)) ([], start)
  return .ofResult (.list (found ++
    [.text ("<Namespace " ++ Space.mission.name ++ ">"), int (← stack.top)]))

def declarations (i : Nat) : List String :=
  let n := toString i
  ["static x__op" ++ n ++ "__scalar__array__x__scalar;", "static x__un" ++ n ++ "__object__x__bool;",
    "static x__nl" ++ n ++ "__x__string;"]

/-- Reads declarations, two of which have a wrong number of parts: how many signatures they give, the
first and the last of them, and how the names of kinds are read. -/
def readDeclarations (size : Int) : Except Fault Outcome := do
  let lines := "// declarations" :: (below size).flatMap declarations ++
    ["static x__attachedto__object__x__any;", "static x__extra__a__b__c__d__e__f;",
      "static x__only3;", "static x__handgunmagazine__object__x__any;"]
  match Declaration.read ("\n".intercalate lines) with
  | .error f _ => .error f
  | .ok _ reading =>
    let entries := reading.signatures.map Declaration.entry
    let kind ← Declaration.resultKind "bool_nothing"
    return ⟨.list [int entries.length, .text ((entries.head?).getD ""),
      .text ((entries.getLast?).getD ""),
      .list ((Declaration.names "scalar_nan").map .text), .text kind.name],
      Declaration.notes reading.unread⟩

end ArmaScript.Scenario
