/-!
# Positions in a text

Lines and columns count from one, a column is a character, and only a newline ends a line.
-/

namespace ArmaScript

structure Position where
  line : Nat
  column : Nat
deriving DecidableEq, Repr, Inhabited

/-- How far a text reaches: the newlines in it, and the characters after the last of them. -/
structure Extent where
  lines : Nat
  columns : Nat
deriving DecidableEq, Repr, Inhabited

namespace Extent

def step (e : Extent) (c : Char) : Extent :=
  if c = '\n' then ⟨e.lines + 1, 0⟩ else ⟨e.lines, e.columns + 1⟩

def ofChars (cs : List Char) : Extent :=
  cs.foldl step ⟨0, 0⟩

def ofText (s : String) : Extent :=
  ofChars s.toList

def append (e f : Extent) : Extent :=
  if f.lines = 0 then ⟨e.lines, e.columns + f.columns⟩ else ⟨e.lines + f.lines, f.columns⟩

theorem append_step (e f : Extent) (c : Char) : e.append (f.step c) = (e.append f).step c := by
  by_cases hc : c = '\n' <;> by_cases hf : f.lines = 0 <;> simp [append, step, hc, hf] <;> omega

theorem foldl_step_append (cs : List Char) (e f : Extent) :
    cs.foldl step (e.append f) = e.append (cs.foldl step f) := by
  induction cs generalizing f with
  | nil => rfl
  | cons c cs ih => rw [List.foldl_cons, List.foldl_cons, ← append_step, ih]

theorem append_zero (e : Extent) : e.append ⟨0, 0⟩ = e := by
  simp [append]

theorem ofText_append (s t : String) : ofText (s ++ t) = (ofText s).append (ofText t) := by
  simp only [ofText, ofChars, String.toList_append, List.foldl_append]
  rw [← foldl_step_append, append_zero]

end Extent

namespace Position

def start : Position := ⟨1, 1⟩

/-- The place behind a text that starts at `p`. -/
def advance (p : Position) (e : Extent) : Position :=
  if e.lines = 0 then ⟨p.line, p.column + e.columns⟩ else ⟨p.line + e.lines, 1 + e.columns⟩

theorem advance_append (p : Position) (e f : Extent) :
    p.advance (e.append f) = (p.advance e).advance f := by
  by_cases he : e.lines = 0 <;> by_cases hf : f.lines = 0 <;>
    simp [advance, Extent.append, he, hf] <;> omega

/-- The place behind a text that starts at the first place. -/
def afterText (s : String) : Position :=
  start.advance (.ofText s)

/-- Moves a position by that of another text's end; both count from one, and of the lines only the
columns are corrected for it. -/
def offset (p : Position) (s : String) : Position :=
  ⟨p.line + (afterText s).line, p.column + (afterText s).column - 1⟩

end Position

end ArmaScript
