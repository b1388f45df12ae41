import ArmaScript.Script.Block
import ArmaScript.Token.Classify

/-!
# Scripts

Reading a script: its tokens get identities in order, the block of all of them is read, and every
node gets its position in the text of the tree.
-/

namespace ArmaScript

/-- A script that was read: its tree, and an identity above those of all its nodes. -/
structure Script where
  tree : Tree
  nextId : NodeId

namespace Script

/-- Tokens as leaves with identities in order. -/
def leaves (firstId : NodeId) : List Atom → List Tree
  | [] => []
  | a :: rest => .atom firstId a :: leaves (firstId + 1) rest

/-- Reads a script. The identities of its nodes start at `firstId`. -/
def read (text : String) (firstId : NodeId) : Except Fault Script := do
  let row := leaves firstId ((← Atom.lex text) ++ [.fileEnd])
  let start : BuildState := ⟨firstId + row.length, []⟩
  match (Build.block (row.length + Build.expansionLimit) row.toArray 0 .none .both).run start with
  | .ok (tree, _) state => return ⟨tree, state.nextId⟩
  | .error fault _ => throw fault

/-- The positions of all nodes of a script, in the order in which they are given. -/
def places (s : Script) : List (NodeId × Position) :=
  s.tree.placesInOrder .start

end Script

end ArmaScript
