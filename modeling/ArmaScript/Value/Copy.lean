import ArmaScript.Scope
import ArmaScript.Value.Store

/-!
# Copies of values

A copy of a value has new identities everywhere, so that nothing that happens to the copy is seen
elsewhere. Places are copied as well, and what is shared inside what is copied is shared inside the
copy.
-/

namespace ArmaScript

/-- Computations that copy. They know the identities of the copies made so far. -/
abbrev Copying := StateT (Std.HashMap NodeId NodeId) Stored

namespace Copying

/-- The identity of the copy of something. The copy has the same place. -/
def identity (id : NodeId) : Copying NodeId := do
  match (← get)[id]? with
  | some copy => return copy
  | none =>
    let copy ← Stored.fresh
    modify (·.insert id copy)
    if let some p := (← getThe Store).places[id]? then Stored.setPlace copy p
    return copy

mutual

def tree : Tree → Copying Tree
  | .atom id a => return .atom (← identity id) a
  | .statement id b e cs => return .statement (← identity id) b e (← trees cs)
  | .code id cs => return .code (← identity id) (← trees cs)
  | .array id cs => return .array (← identity id) (← trees cs)
  | .define id name ps body cs => return .define (← identity id) name ps (← trees body) (← trees cs)
  | .conditional id cs => return .conditional (← identity id) (← trees cs)
  | .expansion id d r cs => return .expansion (← identity id) (← tree d) (← tree r) (← trees cs)
  | .resolution id r cs => return .resolution (← identity id) (← trees r) (← trees cs)

def trees : List Tree → Copying (List Tree)
  | [] => return []
  | t :: ts => return (← tree t) :: (← trees ts)

end

/-- Copies a value whose parts are nested at most `depth` deep. -/
def valueWithin : Nat → Value → Copying Value
  | 0, _ => throw .exhausted
  | depth + 1, v => do
    let copy := valueWithin depth
    let option : Option Value → Copying (Option Value)
      | some w => some <$> copy w
      | none => return none
    match v with
    | .atom id a => return .atom (← identity id) a
    | .code id defined cs => return .code (← identity id) defined (← trees cs)
    | .array id =>
      let known := (← get).contains id
      let new ← identity id
      if !known then
        if let some cell := (← getThe Store).arrays[id]? then
          let buffer ← match cell.buffer with
            | none => pure none
            | some b =>
              let vs ← (((← getThe Store).buffers[b]?).getD []).mapM copy
              let fresh ← Stored.fresh
              modifyThe Store fun s => { s with buffers := s.buffers.insert fresh vs }
              pure (some fresh)
          let shown ← cell.shown.mapM copy
          modifyThe Store fun s => { s with arrays := s.arrays.insert new ⟨buffer, shown⟩ }
      return .array new
    | .privateOf id w => return .privateOf (← identity id) (← copy w)
    | .whileOf id w => return .whileOf (← identity id) (← copy w)
    | .forOf id name first last step =>
      return .forOf (← identity id) (← copy name) (← option first) (← option last) (← copy step)
    | .forSpecOf id w => return .forSpecOf (← identity id) (← copy w)
    | .switchOf id k w => return .switchOf (← identity id) k (← copy w)
    | .ifOf id w => return .ifOf (← identity id) (← copy w)
    | .elseOf id a b => return .elseOf (← identity id) (← copy a) (← copy b)
    | .tryOf id w => return .tryOf (← identity id) (← copy w)
    | .withOf id w => return .withOf (← identity id) (← copy w)
    | .node t => return .node (← tree t)

def value (v : Value) : Copying Value := do
  valueWithin ((← getThe Store).nextId + 1) v

def stack (s : Stack Value) : Copying (Stack Value) := do
  return ⟨← s.scopes.mapM fun scope => scope.mapM fun (name, v) => return (name, ← value v)⟩

def namespaces (n : Namespaces Value) : Copying (Namespaces Value) := do
  return ⟨← stack n.ui, ← stack n.parsing, ← stack n.mission, ← stack n.profile⟩

end Copying

def Stored.copySpaces (n : Namespaces Value) : Stored (Namespaces Value) :=
  (Copying.namespaces n).run' ∅

end ArmaScript
