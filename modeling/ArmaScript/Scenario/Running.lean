import ArmaScript.Run.Network
import ArmaScript.Scenario.Basic
import ArmaScript.Scenario.Scripts

/-!
# Scenarios of running

Running short scripts, loops of a given length, scripts that fail, and a network of machines.
-/

namespace ArmaScript.Scenario

/-- Takes the result of a computation on machines, whatever their state is afterwards. -/
def evaluate {α : Type} (start : World) (m : Run α) : Except Fault α :=
  match m start with
  | .ok a _ => .ok a
  | .error f _ => .error f

def alone : World :=
  .single .empty []

def shown (v : Value) : Run Datum := do
  return .text ((← get).store.text v)

def runScripts (size : Int) : Except Fault Outcome := do
  let results ← (cycle computable size).mapM fun text => evaluate alone do
    shown (← Run.interpret text)
  return .ofResult (.list results)

/-- Scripts with a loop of a given length, each with the variable that it counts in. -/
def loops (size : Int) : List (String × String) :=
  let n := toString size
  let items := ",".intercalate ((below size).map fun i => toString (i + 1))
  [("_s = 0; \x7b_s = _s + _x;\x7d forEach [" ++ items ++ "]", "_s"),
    ("_s = 0; for \"_i\" from 0 to " ++ n ++ " - 1 do \x7b_s = _s + _i;\x7d", "_s"),
    ("_a = 0; while \x7b_a < " ++ n ++ "\x7d do \x7b_a = _a + 1\x7d", "_a"),
    ("_s = 0; for [\x7b_i = 0\x7d,\x7b_i < " ++ n ++ "\x7d,\x7b_i = _i + 1\x7d] do " ++
      "\x7b_s = _s + _i;\x7d", "_s")]

/-- Runs loops: what was counted in each, and whether the loop itself gives nothing. -/
def runLoops (size : Int) : Except Fault Outcome := do
  let results ← (loops size).mapM fun (text, name) => evaluate alone do
    let outcome ← Run.interpret text
    return [← shown (← Run.lookup name), .bool outcome.isNothing]
  return .ofResult (.list results.flatten)

/-- Sends a variable through a network: what the clients got that were there, and what one got that
joined later; then a variable to the server, and whether a client knows that it is none. -/
def sendVariables (size : Int) : Except Fault Outcome :=
  evaluate (.server true) do
    let listen := "\"x\" addPublicVariableEventHandler \x7by = _this select 1\x7d;"
    let client (i : Nat) : Party := .client i
    let lookupOn (i : Nat) (name : String) : Run Datum := do
      shown (← Run.on (client i) (Run.lookup name))
    for _ in below size do
      let i ← Run.join
      discard (Run.on (client i) (Run.interpret listen))
    discard (Run.on .server (Run.interpret "x = 123; publicVariable \"x\";"))
    let early ← (below size).mapM fun i => return [← lookupOn i "x", ← lookupOn i "y"]
    let late ← Run.join
    discard (Run.on (client late) (Run.interpret listen))
    let joined := [← lookupOn late "x", ← lookupOn late "y"]
    discard (Run.on (client 0) (Run.interpret "z = 5; publicVariableServer \"z\";"))
    let sent ← shown (← Run.on .server (Run.lookup "z"))
    let isServer ← Run.on .server (Run.interpret "isServer")
    let truth := match ← Run.contentOf isServer with
      | .bool b => b
      | _ => false
    return .ofResult (.list (early.flatten ++ joined ++ [sent, .bool truth]))

/-- A finding as data; anything else that goes wrong stays wrong. -/
def finding {α : Type} : Except Fault α → Except Fault Datum
  | .ok _ => .ok .null
  | .error (.reported d) => .ok (.list [place d.position, .text d.message])
  | .error f => .error f

/-- Reads and runs scripts that fail, one half each: where and why. There is at least one to read. -/
def runFailing (size : Int) : Except Fault Outcome := do
  let half := max 1 (size.fdiv 2)
  let rest := if size - half = 0 then 1 else size - half
  let read ← (slice (repeated unreadable size) 0 half).mapM fun text =>
    finding (Script.read text 0)
  let run ← (slice (repeated failing size) 0 rest).mapM fun text =>
    finding (evaluate alone (Run.interpret text))
  return .ofResult (.list (read ++ run))

end ArmaScript.Scenario
