import ArmaScript.Token.Atom

/-!
# Syntax trees

The tree of a script keeps every token, layout and brackets included, so that its text is that of
the script with numbers in their standard form. Every node has an identity, its `NodeId`: the same
node can stand in several places, for instance the body of a definition wherever it is used, and
then its position is one and the same for all of them.
-/

namespace ArmaScript

abbrev NodeId := Nat

inductive Ending where
  | semicolon
  | comma
deriving DecidableEq, Repr

def Ending.text : Ending → String
  | .semicolon => ";"
  | .comma => ","

def Ending.ofText? (text : String) : Option Ending :=
  if text == ";" then some .semicolon else if text == "," then some .comma else none

/-- A node of a script. The children of a bracketed node start and end with its brackets, those of a
statement with an ending end with it, and those of an array are parted by commas. -/
inductive Tree where
  | atom (id : NodeId) (a : Atom)
  | statement (id : NodeId) (bracketed : Bool) (ending : Option Ending) (children : List Tree)
  | code (id : NodeId) (children : List Tree)
  | array (id : NodeId) (children : List Tree)
  /-- A definition, its parameters and its body. -/
  | define (id : NodeId) (name : String) (parameters : List String) (body : List Tree)
      (children : List Tree)
  /-- A conditional that is not resolved yet. -/
  | conditional (id : NodeId) (children : List Tree)
  /-- A statement in which a definition was used, as written and as it is after the replacement. -/
  | expansion (id : NodeId) (definition : Tree) (result : Tree) (children : List Tree)
  /-- A resolved conditional, as written and the statements that it stands for. -/
  | resolution (id : NodeId) (result : List Tree) (children : List Tree)

namespace Tree

def id : Tree → NodeId
  | .atom id _ => id
  | .statement id _ _ _ => id
  | .code id _ => id
  | .array id _ => id
  | .define id _ _ _ _ => id
  | .conditional id _ => id
  | .expansion id _ _ _ => id
  | .resolution id _ _ => id

def kind : Tree → Kind
  | .atom _ a => a.kind
  | .statement .. => .statement
  | .code .. => .code
  | .array .. => .array
  | .define .. => .define
  | .conditional .. => .conditional
  | .expansion .. => .expansion
  | .resolution .. => .resolution

/-- The nodes that a node is written with. -/
def children : Tree → List Tree
  | .atom .. => []
  | .statement _ _ _ cs => cs
  | .code _ cs => cs
  | .array _ cs => cs
  | .define _ _ _ _ cs => cs
  | .conditional _ cs => cs
  | .expansion _ _ _ cs => cs
  | .resolution _ _ cs => cs

def atom? : Tree → Option Atom
  | .atom _ a => some a
  | _ => none

/-- Comments, blanks, line ends, brackets and endings. -/
def isLayout (t : Tree) : Bool :=
  t.kind.isLayout

def isMark (t : Tree) (text : String) : Bool :=
  match t with
  | .atom _ a => a.isMark text
  | _ => false

def isKeyword (t : Tree) (word : String) : Bool :=
  match t with
  | .atom _ a => a.isKeyword word
  | _ => false

def isDirective (t : Tree) (word : String) : Bool :=
  match t with
  | .atom _ a => a.isDirective word
  | _ => false

/-- The elements of an array: what stands between its brackets and commas. -/
def elements (t : Tree) : List Tree :=
  t.children.filter fun c => c.kind != .mark

/-- What stands between the brackets of a statement and before its ending. -/
def content : Tree → List Tree
  | .statement _ bracketed ending cs =>
    let cs := if ending.isSome then cs.dropLast else cs
    if bracketed then cs.tail.dropLast else cs
  | t => t.children

mutual

def writeTo (written : String) : Tree → String
  | .atom _ a => written ++ a.text
  | .statement _ _ _ cs => writeListTo written cs
  | .code _ cs => writeListTo written cs
  | .array _ cs => writeListTo written cs
  | .define _ _ _ _ cs => writeListTo written cs
  | .conditional _ cs => writeListTo written cs
  | .expansion _ _ _ cs => writeListTo written cs
  | .resolution _ _ cs => writeListTo written cs

def writeListTo (written : String) : List Tree → String
  | [] => written
  | t :: ts => writeListTo (t.writeTo written) ts

end

def text (t : Tree) : String :=
  t.writeTo ""

def textList (ts : List Tree) : String :=
  writeListTo "" ts

mutual

theorem writeTo_eq (written : String) : ∀ t : Tree, t.writeTo written = written ++ t.text
  | .atom .. => by simp [text, writeTo]
  | .statement _ _ _ cs | .code _ cs | .array _ cs | .define _ _ _ _ cs | .conditional _ cs
  | .expansion _ _ _ cs | .resolution _ _ cs => by
    rw [text, writeTo, writeTo, writeListTo_eq written cs, textList]

theorem writeListTo_eq (written : String) :
    ∀ ts : List Tree, writeListTo written ts = written ++ textList ts
  | [] => by simp [textList, writeListTo]
  | t :: ts => by
    rw [textList, writeListTo, writeListTo, writeListTo_eq _ ts, writeListTo_eq _ ts,
      writeTo_eq written t, writeTo_eq "" t, String.append_assoc, String.empty_append]

end

@[simp] theorem text_atom (id : NodeId) (a : Atom) : (Tree.atom id a).text = a.text := by
  simp [text, writeTo]

@[simp] theorem text_statement (id : NodeId) (b : Bool) (e : Option Ending) (cs : List Tree) :
    (Tree.statement id b e cs).text = textList cs := by
  rw [text, writeTo, textList]

@[simp] theorem text_code (id : NodeId) (cs : List Tree) :
    (Tree.code id cs).text = textList cs := by
  rw [text, writeTo, textList]

@[simp] theorem text_array (id : NodeId) (cs : List Tree) :
    (Tree.array id cs).text = textList cs := by
  rw [text, writeTo, textList]

@[simp] theorem text_define (id : NodeId) (name : String) (ps : List String)
    (body cs : List Tree) : (Tree.define id name ps body cs).text = textList cs := by
  rw [text, writeTo, textList]

@[simp] theorem text_conditional (id : NodeId) (cs : List Tree) :
    (Tree.conditional id cs).text = textList cs := by
  rw [text, writeTo, textList]

@[simp] theorem text_expansion (id : NodeId) (d r : Tree) (cs : List Tree) :
    (Tree.expansion id d r cs).text = textList cs := by
  rw [text, writeTo, textList]

@[simp] theorem text_resolution (id : NodeId) (r cs : List Tree) :
    (Tree.resolution id r cs).text = textList cs := by
  rw [text, writeTo, textList]

@[simp] theorem textList_nil : textList [] = "" := by
  rw [textList, writeListTo]

@[simp] theorem textList_cons (t : Tree) (ts : List Tree) :
    textList (t :: ts) = t.text ++ textList ts := by
  rw [textList, writeListTo, writeListTo_eq, ← text]

mutual

def extent : Tree → Extent
  | .atom _ a => .ofText a.text
  | .statement _ _ _ cs => extentList cs
  | .code _ cs => extentList cs
  | .array _ cs => extentList cs
  | .define _ _ _ _ cs => extentList cs
  | .conditional _ cs => extentList cs
  | .expansion _ _ _ cs => extentList cs
  | .resolution _ _ cs => extentList cs

def extentList : List Tree → Extent
  | [] => ⟨0, 0⟩
  | t :: ts => t.extent.append (extentList ts)

end

mutual

theorem extent_eq : ∀ t : Tree, t.extent = .ofText t.text
  | .atom .. => by rw [extent, text_atom]
  | .statement _ _ _ cs | .code _ cs | .array _ cs | .define _ _ _ _ cs | .conditional _ cs
  | .expansion _ _ _ cs | .resolution _ _ cs => by simp [extent, extentList_eq cs]

theorem extentList_eq : ∀ ts : List Tree, extentList ts = .ofText (textList ts)
  | [] => by rw [extentList, textList_nil]; rfl
  | t :: ts => by
    rw [extentList, textList_cons, Extent.ofText_append, extent_eq t, extentList_eq ts]

end

mutual

def tokens : Tree → List Tree
  | .atom id a => [.atom id a]
  | .statement _ _ _ cs => tokensList cs
  | .code _ cs => tokensList cs
  | .array _ cs => tokensList cs
  | .define _ _ _ _ cs => tokensList cs
  | .conditional _ cs => tokensList cs
  | .expansion _ _ _ cs => tokensList cs
  | .resolution _ _ cs => tokensList cs

def tokensList : List Tree → List Tree
  | [] => []
  | t :: ts => t.tokens ++ tokensList ts

end

mutual

/-- Whether a node takes part in what its statement does. Layout does not, nor does a node that
holds nothing else, unless it stands in brackets. -/
def isBase : Tree → Bool
  | .atom _ a => !a.isLayout
  | .statement _ bracketed _ cs => bracketed || anyBase cs
  | .code .. => true
  | .array .. => true
  | .define _ _ _ _ cs => anyBase cs
  | .conditional _ cs => anyBase cs
  | .expansion _ _ _ cs => anyBase cs
  | .resolution _ _ cs => anyBase cs

def anyBase : List Tree → Bool
  | [] => false
  | t :: ts => t.isBase || anyBase ts

end

/-- The children that take part in what a node does. -/
def base (t : Tree) : List Tree :=
  t.children.filter isBase

mutual

/-- The node that stands first in a statement, and in the statement that stands there, and so on. -/
def leading? : Tree → Option Tree
  | .statement _ _ _ cs => leadingOf? cs
  | t => some t

/-- The leading node of the first node that takes part. -/
def leadingOf? : List Tree → Option Tree
  | [] => none
  | t :: ts => if t.isBase then t.leading? else leadingOf? ts

end

mutual

/-- The positions of a node and of all nodes in it, if the node starts at `p`, in the order in which
they are given. -/
def places (p : Position) : Tree → List (NodeId × Position)
  | .atom id _ => [(id, p)]
  | .statement id _ _ cs => (id, p) :: placesList p cs
  | .code id cs => (id, p) :: placesList p cs
  | .array id cs => (id, p) :: placesList p cs
  | .define id _ _ _ cs => (id, p) :: placesList p cs
  | .conditional id cs => (id, p) :: placesList p cs
  | .expansion id _ _ cs => (id, p) :: placesList p cs
  | .resolution id _ cs => (id, p) :: placesList p cs

/-- The positions of nodes in a row, the first of which starts at `p`. -/
def placesList (p : Position) : List Tree → List (NodeId × Position)
  | [] => []
  | t :: ts => t.places p ++ placesList (p.advance t.extent) ts

end

mutual

/-- Notes the position of a node that starts at `p` and then those of all nodes in it, the last one
first. The result has the place behind the node as well. -/
def note (p : Position) (noted : List (NodeId × Position)) :
    Tree → Position × List (NodeId × Position)
  | .atom id a => (p.advance (.ofText a.text), (id, p) :: noted)
  | .statement id _ _ cs => noteList p ((id, p) :: noted) cs
  | .code id cs => noteList p ((id, p) :: noted) cs
  | .array id cs => noteList p ((id, p) :: noted) cs
  | .define id _ _ _ cs => noteList p ((id, p) :: noted) cs
  | .conditional id cs => noteList p ((id, p) :: noted) cs
  | .expansion id _ _ cs => noteList p ((id, p) :: noted) cs
  | .resolution id _ cs => noteList p ((id, p) :: noted) cs

/-- Notes the positions of nodes in a row, the first of which starts at `p`. -/
def noteList (p : Position) (noted : List (NodeId × Position)) :
    List Tree → Position × List (NodeId × Position)
  | [] => (p, noted)
  | t :: ts =>
    let (behind, noted) := t.note p noted
    noteList behind noted ts

end

mutual

theorem note_eq (p : Position) (noted : List (NodeId × Position)) :
    ∀ t : Tree, t.note p noted = (p.advance t.extent, (t.places p).reverse ++ noted)
  | .atom .. => by simp [note, extent, places]
  | .statement _ _ _ cs | .code _ cs | .array _ cs | .define _ _ _ _ cs | .conditional _ cs
  | .expansion _ _ _ cs | .resolution _ _ cs => by simp [note, extent, places, noteList_eq _ _ cs]

theorem noteList_eq (p : Position) (noted : List (NodeId × Position)) :
    ∀ ts : List Tree,
      noteList p noted ts = (p.advance (extentList ts), (placesList p ts).reverse ++ noted)
  | [] => by simp [noteList, extentList, placesList, Position.advance]
  | t :: ts => by
    rw [noteList, note_eq p noted t]
    simp [noteList_eq _ _ ts, extentList, placesList, Position.advance_append]

end

def placesInOrder (p : Position) (t : Tree) : List (NodeId × Position) :=
  (t.note p []).2.reverse

theorem placesInOrder_eq (p : Position) (t : Tree) : t.placesInOrder p = t.places p := by
  simp [placesInOrder, note_eq]

end Tree

end ArmaScript
