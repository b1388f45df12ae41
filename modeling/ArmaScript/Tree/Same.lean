import ArmaScript.Tree.Basic

/-!
# Equality and debug text of trees

Two nodes are equal if they are the same node, or are built in the same way from equal parts; where
they stand in a script does not matter. The debug text of a node shows how it is built.
-/

namespace ArmaScript.Tree

mutual

/-- Whether two nodes are equal, wherever they stand. -/
def same : Tree → Tree → Bool
  | .atom i a, .atom j b => i == j || a.same b
  | .statement i p e cs, .statement j q f ds => i == j || (p == q && e == f && sameList cs ds)
  | .code i cs, .code j ds => i == j || sameList cs ds
  | .array i cs, .array j ds => i == j || sameList cs ds
  | .define i n ps body cs, .define j m qs body' ds =>
    i == j || (n == m && ps == qs && sameList body body' && sameList cs ds)
  | .conditional i cs, .conditional j ds => i == j || sameList cs ds
  | .expansion i d r cs, .expansion j d' r' ds =>
    i == j || (d.same d' && r.same r' && sameList cs ds)
  | .resolution i r cs, .resolution j r' ds => i == j || (sameList r r' && sameList cs ds)
  | _, _ => false

def sameList : List Tree → List Tree → Bool
  | [], [] => true
  | t :: ts, u :: us => t.same u && sameList ts us
  | _, _ => false

end

/-- Writes line ends as two visible characters. -/
def showLineEnds (s : String) : String :=
  String.ofList (s.toList.flatMap fun c => if c = '\n' then ['\\', 'n'] else [c])

mutual

/-- The text of a node with marks of how it is built. -/
def debugText : Tree → String
  | .atom _ a => a.debugText
  | .statement _ _ _ cs => "S<" ++ debugJoin cs ++ ">"
  | .code _ cs => debugJoin cs
  | .array _ cs => debugJoin cs
  | .define _ _ _ _ cs => "#d<" ++ debugJoin cs ++ ">"
  | .conditional _ cs => "#i<" ++ debugJoin cs ++ ">"
  | .expansion _ _ r cs => "#dR|[" ++ debugListed cs ++ "] -> " ++ showLineEnds r.text ++ "|"
  | .resolution _ r cs =>
    "#iR|[" ++ debugListed cs ++ "] -> " ++ showLineEnds ("[" ++ debugListed r ++ "]") ++ "|"

def debugJoin : List Tree → String
  | [] => ""
  | t :: ts => t.debugText ++ debugJoin ts

def debugListed : List Tree → String
  | [] => ""
  | [t] => t.debugText
  | t :: ts => t.debugText ++ ", " ++ debugListed ts

end

end ArmaScript.Tree
