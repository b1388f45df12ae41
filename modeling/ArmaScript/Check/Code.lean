import ArmaScript.Check.State

/-!
# Checking code

Code is run in a scope of its own. When a file ends, the code in it that was not run is checked, each
piece by a checker of its own that sees the variables as they were where the code was written. Then
come the warnings about what was left over.
-/

namespace ArmaScript.Check

/-- Runs the statements of code in a namespace, in a scope of its own. After a failure the scope and
the namespace stay as they are. The scope of a file stays as well. -/
def runStatements (ask : Ask) (body : Body) (bindings : Bindings) (space : Space) : Check Value := do
  let previous ← current
  setCurrent space
  let vars ← bindings.mapM fun
    | (some name, v) => pure (name, v)
    | (none, _) => throw .missingPart
  modifyStack space fun s => return s.push vars
  let outcome ← atomAt (← stored (.placeOf body.id)) .anything
  let outcome ← (body.children.filter Tree.isBase).foldlM
    (fun _ t => do ask (.value (← token ask t))) outcome
  unless body.isFile do modifyStack space (·.pop)
  setCurrent previous
  return outcome

def runKey (children : List Tree) (bindings : Bindings) : RunKey :=
  (Tree.textList children, bindings.map fun (name, v) => (name, v.kind))

/-- Runs a computation in a checker of its own. Its findings are added to those of this checker, but
only if it does not fail; `settle` tells what else this checker keeps of it. -/
def inOwnChecker (own : Checker) (settle : Checker → Checker → Checker) (m : Check Unit) :
    Check Unit := fun s =>
  let outer := s.checker
  match m { s with checker := own } with
  | .ok _ s =>
    let checker := settle s.checker outer
    .ok () { s with
      checker := { checker with findings := checker.findings ++ s.checker.findings } }
  | .error e s => .error e { s with checker := settle s.checker outer }

/-- Checks code that was not run. It sees the variables that were kept with it, as its last check
left them, or only the given ones if it is on its own. -/
def checkPending (ask : Ask) (key : CodeKey) (bindings : Bindings) (alone : Bool) : Check Unit := do
  match (← checker).pending.get? key with
  | none => throw .unknownName
  | some pending =>
    let fresh := Checker.ofVariables []
    let own := { fresh with
      spaces := if alone then fresh.spaces else pending.spaces
      doubt := pending.doubt }
    let settle (inner outer : Checker) : Checker :=
      if alone then outer
      else { outer with pending := outer.pending.put key { pending with spaces := inner.spaces } }
    inOwnChecker own settle do
      let id ← stored .fresh
      stored (.setPlace id pending.position)
      discard (ask (.code ⟨id, pending.children, true⟩ bindings pending.space true))

/-- What is left over at the end of a file: code that was not run, declared variables that are not
texts, helpers, and, at the end of the script itself, variables that are not used. -/
def finishFile (ask : Ask) (inDoubt : Bool) : Check Unit := do
  for (key, _) in (← checker).pending do
    checkPending ask key [] false
  for v in (← checker).privates do
    reportWarning (← placeOf v) "private argument must be a string."
  for v in (← checker).helpers do
    reportWarning (← placeOf v) ("helper type \"" ++ v.kind.name ++ "\" not evaluated")
  if !inDoubt then
    for (_, usage) in (← get).uses do
      if usage.count == 0 then
        let name := match ← contentOf usage.declared with
          | .text name => name
          | _ => ""
        reportWarning (← placeOf usage.declared) ("Variable \"" ++ name ++ "\" not used")

/-- Runs code, unless it was run before on variables of the same kinds. -/
def runCode (ask : Ask) (body : Body) (bindings : Bindings) (space : Space) (inDoubt : Bool) :
    Check Value := do
  let key ← codeKey body.id body.children
  modifyChecker fun c => { c with pending := c.pending.remove key }
  let run := runKey body.children bindings
  let outcome ← match (← checker).outcomes.get? run with
    | some v => pure v
    | none => do
      if inDoubt then modifyChecker fun c => { c with doubt := c.doubt + 1 }
      let v ← runStatements ask body bindings space
      if inDoubt then modifyChecker fun c => { c with doubt := c.doubt - 1 }
      modifyChecker fun c => { c with outcomes := c.outcomes.put run v }
      pure v
  if body.isFile then finishFile ask inDoubt
  return outcome

end ArmaScript.Check
