import ArmaScript.Run.Statement

/-!
# Networks of machines

A server and the clients that join it. Only a dedicated server takes clients. A client that joins
gets the public variables that were sent to everyone before.
-/

namespace ArmaScript

def World.single (store : Store) (vars : List (String × Value)) : World :=
  ⟨store, #[.ofVariables vars], 0, none⟩

/-- A network of a server without clients. -/
def World.server (dedicated : Bool) : World :=
  ⟨.empty, #[.ofVariables []], 0, some ⟨dedicated, []⟩⟩

/-- One machine of a network: the server, or a client by its number, where a negative one counts from
the last that joined. -/
inductive Party where
  | server
  | client (i : Int)

namespace Run

def on {α : Type} (party : Party) (m : Run α) : Run α := do
  match party with
  | .server => onMachine 0 m
  | .client i =>
    match index? ((← get).machines.size - 1) i with
    | some k => onMachine (k + 1) m
    | none => throw .outOfRange

/-- Lets a client join. The result is its number. -/
def join : Run Nat := do
  match (← get).network with
  | none => throw .missingPart
  | some network =>
    if !network.dedicated then throw .violation
    let number := (← get).machines.size
    modify fun w => { w with machines := w.machines.push (.ofVariables []) }
    for (name, v) in network.broadcasts do
      onMachine number (setGlobal name v)
    return number - 1

/-- The value of a name where the script would look for it. -/
def lookup (name : String) : Run Value := do
  valueOfName (← current) name

def has (name : String) : Run Bool := do
  return (← find? (← current) name).isSome

/-- Sets a variable of the mission. If it was sent, the code that listens to it is run. -/
def setVariableOf (name : String) (v : Value) (sent : Bool) : Run Unit :=
  if sent then receive answer name v else setGlobal name v

def send (name : String) (v : Value) (audience : Audience) : Run Unit :=
  broadcast answer name v audience

end Run

end ArmaScript
