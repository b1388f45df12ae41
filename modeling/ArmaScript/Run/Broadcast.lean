import ArmaScript.Run.World

/-!
# Public variables

A public variable is sent to all machines, to the server or to one client. The machine that gets it
sets it in its mission, and runs the code that listens to it.
-/

namespace ArmaScript.Run

def onMachine {α : Type} (machine : Nat) (m : Run α) : Run α := do
  let previous := (← get).active
  modify ({ · with active := machine })
  let a ← m
  modify ({ · with active := previous })
  return a

/-- Sets a variable of the mission on the machine on which the script runs. A word of the language is
no value. -/
def setGlobal (name : String) (v : Value) : Run Unit := do
  if !v.kind.isValue then throw .violation
  modifyStack .mission fun s => return s.assignAt 0 name v

/-- Sets a variable on the machine on which the script runs, and runs the code that listens to it.
Names of public variables are told apart by case. -/
def receive (answer : Answer) (name : String) (v : Value) : Run Unit := do
  setGlobal name v
  if let some body := (← machine).listeners.get? name then
    let text ← stored (.string '"' name)
    let this ← stored (.array [text, v])
    discard (code answer body [("_this", this)] .mission)

inductive Audience where
  | all
  | server
  | client (i : Content)

/-- The audience that a number stands for: `-1` is the server, and no number is everyone. -/
def Audience.ofContent : Content → Audience
  | .none => .all
  | c => if c.same (.num (.int (-1))) then .server else .client c

/-- Sends a public variable. What is sent to everyone is kept for those that join later; the clients
get it before the server. -/
def broadcast (answer : Answer) (name : String) (v : Value) (audience : Audience) : Run Unit := do
  let clients := (← get).machines.size - 1
  match audience with
  | .all =>
    modify fun w => { w with
      network := w.network.map fun n => { n with broadcasts := n.broadcasts.put name v } }
    for i in List.range clients do
      onMachine (i + 1) (receive answer name v)
    onMachine 0 (receive answer name v)
  | .server => onMachine 0 (receive answer name v)
  | .client i =>
    match index? clients (← lift i.whole) with
    | some k => onMachine (k + 1) (receive answer name v)
    | none => throw .outOfRange

end ArmaScript.Run
