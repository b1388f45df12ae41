import ArmaScript.Script.Block
import Mathlib.Tactic.SplitIfs

/-!
# Outlines

The outline of a row of tokens is the row with the tokens between two brackets put into a group of
their own. The reader closes the innermost open bracket with any closing bracket, so the two brackets
of a group may be of different kinds. An outline is built into a tree from left to right, in the order
in which the reader goes through the row.
-/

namespace ArmaScript

inductive Bracket where
  | round
  | square
  | curly
deriving DecidableEq, Repr

namespace Bracket

def openingText : Bracket → String
  | .round => "("
  | .square => "["
  | .curly => "\x7b"

def closingText : Bracket → String
  | .round => ")"
  | .square => "]"
  | .curly => "\x7d"

end Bracket

namespace Atom

def opens? (a : Atom) : Option Bracket :=
  if a.isMark "[" then some .square
  else if a.isMark "(" then some .round
  else if a.isMark "\x7b" then some .curly
  else none

def closes? (a : Atom) : Option Bracket :=
  if a.isMark "]" then some .square
  else if a.isMark ")" then some .round
  else if a.isMark "\x7d" then some .curly
  else none

/-- Whether an atom is a directive that makes the reader replace tokens or leave some out. -/
def isReplacing (a : Atom) : Bool :=
  a.isDirective "#define" || a.isDirective "#include" || a.isDirective "#ifdef" ||
    a.isDirective "#ifndef"

variable {a : Atom} {k : Bracket}

lemma eq_mark_of_isMark {text : String} (h : a.isMark text = true) : a = .mark text := by
  cases a with
  | mark s => simpa [isMark, same] using h
  | _ => simp [isMark, same] at h

lemma eq_of_opens? (h : a.opens? = some k) : a = .mark k.openingText := by
  unfold opens? at h
  split_ifs at h with h1 h2 h3
  · cases h
    exact eq_mark_of_isMark h1
  · cases h
    exact eq_mark_of_isMark h2
  · cases h
    exact eq_mark_of_isMark h3

lemma eq_of_closes? (h : a.closes? = some k) : a = .mark k.closingText := by
  unfold closes? at h
  split_ifs at h with h1 h2 h3
  · cases h
    exact eq_mark_of_isMark h1
  · cases h
    exact eq_mark_of_isMark h2
  · cases h
    exact eq_mark_of_isMark h3

@[simp] lemma opens?_openingText (k : Bracket) : (mark k.openingText).opens? = some k := by
  cases k <;> rfl

@[simp] lemma closes?_closingText (k : Bracket) : (mark k.closingText).closes? = some k := by
  cases k <;> rfl

/-- No atom opens a bracket and closes one. -/
lemma opens?_of_closes? (h : a.closes? = some k) : a.opens? = none := by
  rw [eq_of_closes? h]
  cases k <;> rfl

end Atom

namespace Tree

def opens? (t : Tree) : Option Bracket :=
  t.atom?.bind Atom.opens?

def closes? (t : Tree) : Option Bracket :=
  t.atom?.bind Atom.closes?

/-- Whether a node is a directive that makes the reader replace tokens or leave some out. -/
def isReplacing (t : Tree) : Bool :=
  (t.atom?.map Atom.isReplacing).getD false

lemma opens?_of_closes? {t : Tree} {k : Bracket} (h : t.closes? = some k) : t.opens? = none := by
  cases t with
  | atom id a => exact Atom.opens?_of_closes? h
  | _ => cases h

end Tree

/-- A token, or a group: an opening bracket, a closing bracket and what stands between them. -/
inductive Item where
  | token (t : Tree)
  | group (opening closing : Tree) (content : List Item)

namespace Item

mutual

def flat : Item → List Tree
  | .token t => [t]
  | .group o c content => o :: flatList content ++ [c]

/-- The tokens of several items in a row. -/
def flatList : List Item → List Tree
  | [] => []
  | i :: is => i.flat ++ flatList is

end

@[simp] lemma flat_token (t : Tree) : (Item.token t).flat = [t] := by rw [flat]

@[simp] lemma flat_group (o c : Tree) (content : List Item) :
    (Item.group o c content).flat = o :: flatList content ++ [c] := by rw [flat]

@[simp] lemma flatList_nil : flatList [] = [] := by rw [flatList]

@[simp] lemma flatList_cons (i : Item) (is : List Item) :
    flatList (i :: is) = i.flat ++ flatList is := by rw [flatList]

@[simp] lemma flatList_append (is js : List Item) :
    flatList (is ++ js) = flatList is ++ flatList js := by
  induction is with
  | nil => simp
  | cons i is ih => simp [ih]

mutual

/-- An item whose brackets are brackets and whose tokens are none, inside the open brackets
`around`. A closing bracket is of the kind of some open one. -/
def Open (around : List Bracket) : Item → Prop
  | .token t => t.opens? = none ∧ t.closes? = none
  | .group o c content => ∃ k ∈ o.opens?, (∃ k' ∈ c.closes?, k' ∈ k :: around) ∧
      OpenList (k :: around) content

/-- Items in a row inside the open brackets `around`. -/
def OpenList (around : List Bracket) : List Item → Prop
  | [] => True
  | i :: is => i.Open around ∧ OpenList around is

end

lemma openList_append {around : List Bracket} {is js : List Item} :
    OpenList around (is ++ js) ↔ OpenList around is ∧ OpenList around js := by
  induction is with
  | nil => simp [OpenList]
  | cons i is ih => simp [OpenList, ih, and_assoc]

end Item

/-- The outline of the tokens that follow. `stack` has the open brackets, the innermost first, each
with the items before it in reverse; `done` has the items after the innermost one in reverse. -/
def outlineFrom : List (Tree × List Item) → List Item → List Tree → Option (List Item)
  | stack, done, [] => if stack.isEmpty then some done.reverse else none
  | stack, done, t :: ts =>
    if t.opens?.isSome then outlineFrom ((t, done) :: stack) [] ts
    else if t.closes?.isSome then
      match stack with
      | [] => none
      | (o, before) :: stack => outlineFrom stack (.group o t done.reverse :: before) ts
    else outlineFrom stack (.token t :: done) ts

/-- The outline of a row of tokens, if as many brackets are closed as are opened, and none before it is
opened. -/
def outline (row : List Tree) : Option (List Item) :=
  outlineFrom [] [] row

variable {t : Tree}

lemma outlineFrom_opening {k : Bracket} (h : t.opens? = some k) (stack : List (Tree × List Item))
    (done : List Item) (rest : List Tree) :
    outlineFrom stack done (t :: rest) = outlineFrom ((t, done) :: stack) [] rest := by
  cases stack <;> simp [outlineFrom, h]

lemma outlineFrom_closing {k : Bracket} (h : t.closes? = some k) (o : Tree) (before : List Item)
    (stack : List (Tree × List Item)) (done : List Item) (rest : List Tree) :
    outlineFrom ((o, before) :: stack) done (t :: rest) =
      outlineFrom stack (.group o t done.reverse :: before) rest := by
  simp [outlineFrom, h, Tree.opens?_of_closes? h]

lemma outlineFrom_token (ho : t.opens? = none) (hc : t.closes? = none)
    (stack : List (Tree × List Item)) (done : List Item) (rest : List Tree) :
    outlineFrom stack done (t :: rest) = outlineFrom stack (.token t :: done) rest := by
  cases stack <;> simp [outlineFrom, ho, hc]

mutual

theorem outlineFrom_flat {around : List Bracket} (stack : List (Tree × List Item))
    (done : List Item) (rest : List Tree) :
    ∀ i : Item, i.Open around → outlineFrom stack done (i.flat ++ rest) =
      outlineFrom stack (i :: done) rest
  | .token t, h => by
    obtain ⟨ho, hc⟩ := h
    rw [Item.flat_token, List.singleton_append, outlineFrom_token ho hc]
  | .group o c content, h => by
    obtain ⟨k, ho, ⟨k', hc, -⟩, hcontent⟩ := h
    calc outlineFrom stack done ((Item.group o c content).flat ++ rest)
        = outlineFrom stack done (o :: (Item.flatList content ++ (c :: rest))) := by simp
      _ = outlineFrom ((o, done) :: stack) [] (Item.flatList content ++ (c :: rest)) :=
          outlineFrom_opening ho _ _ _
      _ = outlineFrom ((o, done) :: stack) (content.reverse ++ []) (c :: rest) :=
          outlineFrom_flatList _ _ _ content hcontent
      _ = outlineFrom stack (.group o c (content.reverse ++ []).reverse :: done) rest :=
          outlineFrom_closing hc _ _ _ _ _
      _ = outlineFrom stack (.group o c content :: done) rest := by simp

theorem outlineFrom_flatList {around : List Bracket} (stack : List (Tree × List Item))
    (done : List Item) (rest : List Tree) :
    ∀ is : List Item, Item.OpenList around is → outlineFrom stack done (Item.flatList is ++ rest) =
      outlineFrom stack (is.reverse ++ done) rest
  | [], _ => by simp
  | i :: is, h => by
    rw [Item.OpenList] at h
    rw [Item.flatList_cons, List.append_assoc, outlineFrom_flat stack done _ i h.1,
      outlineFrom_flatList stack (i :: done) rest is h.2]
    simp

end

/-- Items whose brackets fit are the outline of their own tokens. -/
lemma outline_flatList {around : List Bracket} {is : List Item} (h : Item.OpenList around is) :
    outline (Item.flatList is) = some is := by
  have := outlineFrom_flatList [] [] [] is h
  simpa [outline, outlineFrom] using this

end ArmaScript
