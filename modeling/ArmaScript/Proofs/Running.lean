import ArmaScript.Proofs.Computation
import ArmaScript.Run.Network

/-!
# Taking runs apart

What the smallest steps of a run do to the world: reading the machine on which the script runs,
changing it, and working on the store. A statement is taken apart into the evaluation of its parts,
the command that fits them, and the check of the outcome.
-/

namespace ArmaScript

lemma Namespaces.stack_setStack (n : Namespaces Value) (space other : Space) (s : Stack Value) :
    (n.setStack space s).stack other = if other = space then s else n.stack other := by
  cases space <;> cases other <;> rfl

namespace Run

variable {α : Type} {w w' : World} {m : Machine} {f : Stack Value → Except Fault (Stack Value)}

variable {a : α} {space : Space}

lemma lift_eq_ok {x : Except Fault α} : lift x w = .ok a w' ↔ x = .ok a ∧ w' = w := by
  cases x with
  | ok b =>
    rw [lift, pure_eq_ok]
    simp [eq_comm]
  | error e =>
    constructor
    · intro h
      cases h
    · rintro ⟨h, -⟩
      cases h

lemma stored_eq_ok {m : Stored α} :
    stored m w = .ok a w' ↔ ∃ s, m w.store = .ok a s ∧ w' = { w with store := s } := by
  unfold stored
  dsimp only
  cases m w.store with
  | ok b s =>
    constructor
    · intro h
      cases h
      exact ⟨s, rfl, rfl⟩
    · rintro ⟨s', h, rfl⟩
      cases h
      rfl
  | error e s =>
    constructor
    · intro h
      cases h
    · rintro ⟨s', h, -⟩
      cases h

lemma machine_eq_ok : machine w = .ok m w' ↔ w.machines[w.active]? = some m ∧ w' = w := by
  unfold machine
  constructor
  · intro h
    obtain ⟨v, w1, hget, hmatch⟩ := bind_eq_ok.mp h
    obtain ⟨rfl, rfl⟩ := get_eq_ok.mp hget
    cases hm : w1.machines[w1.active]? with
    | none =>
      rw [hm] at hmatch
      cases hmatch
    | some m' =>
      rw [hm] at hmatch
      obtain ⟨rfl, rfl⟩ := pure_eq_ok.mp hmatch
      exact ⟨rfl, rfl⟩
  · rintro ⟨hm, rfl⟩
    refine bind_eq (get_eq_ok.mpr ⟨rfl, rfl⟩) ?_
    rw [hm]
    rfl

lemma current_eq_ok :
    current w = .ok space w' ↔ ∃ m, w.machines[w.active]? = some m ∧ m.current = space ∧ w' = w := by
  constructor
  · intro h
    obtain ⟨m, w1, hm, hpure⟩ := bind_eq_ok.mp h
    obtain ⟨hm, rfl⟩ := machine_eq_ok.mp hm
    obtain ⟨rfl, rfl⟩ := pure_eq_ok.mp hpure
    exact ⟨m, hm, rfl, rfl⟩
  · rintro ⟨m, hm, rfl, rfl⟩
    exact bind_eq (machine_eq_ok.mpr ⟨hm, rfl⟩) rfl

lemma modifyMachine_eq_ok {f : Machine → Machine} {u : Unit} :
    modifyMachine f w = .ok u w' ↔ w' = { w with machines := w.machines.modify w.active f } := by
  constructor
  · intro h
    cases h
    rfl
  · rintro rfl
    rfl

lemma modifyStack_eq_ok {u : Unit} :
    modifyStack space f w = .ok u w' ↔ ∃ m s, w.machines[w.active]? = some m ∧
      f (m.spaces.stack space) = .ok s ∧ w' = { w with
        machines := w.machines.modify w.active fun m =>
          { m with spaces := m.spaces.setStack space s } } := by
  constructor
  · intro h
    obtain ⟨m, w1, hmachine, hrest⟩ := bind_eq_ok.mp h
    obtain ⟨hm, rfl⟩ := machine_eq_ok.mp hmachine
    obtain ⟨s, w2, hlift, hmodify⟩ := bind_eq_ok.mp hrest
    obtain ⟨hs, rfl⟩ := lift_eq_ok.mp hlift
    exact ⟨m, s, hm, hs, modifyMachine_eq_ok.mp hmodify⟩
  · rintro ⟨m, s, hm, hs, rfl⟩
    refine bind_eq (machine_eq_ok.mpr ⟨hm, rfl⟩) ?_
    exact bind_eq (lift_eq_ok.mpr ⟨hs, rfl⟩) (modifyMachine_eq_ok.mpr rfl)

lemma exists_modifyStack (hm : w.machines[w.active]? = some m) (space : Space) {s : Stack Value}
    (hf : f (m.spaces.stack space) = .ok s) :
    ∃ w', modifyStack space f w = .ok () w' ∧ w'.store = w.store ∧
      w'.machines[w'.active]? = some { m with spaces := m.spaces.setStack space s } := by
  refine ⟨_, modifyStack_eq_ok.mpr ⟨m, s, hm, hf, rfl⟩, rfl, ?_⟩
  rw [Array.getElem?_modify, if_pos rfl, hm]
  rfl

lemma exists_setCurrent (hm : w.machines[w.active]? = some m) (space : Space) :
    ∃ w', setCurrent space w = .ok () w' ∧ w'.store = w.store ∧
      w'.machines[w'.active]? = some { m with current := space } := by
  refine ⟨_, rfl, rfl, ?_⟩
  rw [Array.getElem?_modify, if_pos rfl, hm]
  rfl

/-! ### Looking variables up -/

lemma find?_eq_ok {name : String} {o : Option Value} :
    find? space name w = .ok o w' ↔ ∃ m, w.machines[w.active]? = some m ∧
      (m.spaces.stack space).find? name = .ok o ∧ w' = w := by
  constructor
  · intro h
    obtain ⟨m, w1, hmachine, hlift⟩ := bind_eq_ok.mp h
    obtain ⟨hm, rfl⟩ := machine_eq_ok.mp hmachine
    obtain ⟨ho, rfl⟩ := lift_eq_ok.mp hlift
    exact ⟨m, hm, ho, rfl⟩
  · rintro ⟨m, hm, ho, rfl⟩
    exact bind_eq (machine_eq_ok.mpr ⟨hm, rfl⟩) (lift_eq_ok.mpr ⟨ho, rfl⟩)

/-- A computation on another machine comes back to the one it was started on. -/
lemma onMachine_eq_ok {k : Nat} {m : Run α} : onMachine k m w = .ok a w' ↔
      ∃ w1, m { w with active := k } = .ok a w1 ∧ w' = { w1 with active := w.active } := by
  constructor
  · intro h
    obtain ⟨w0, w1, hget, hrest⟩ := bind_eq_ok.mp h
    cases hget
    obtain ⟨⟨⟩, w2, hthere, hrest⟩ := bind_eq_ok.mp hrest
    cases hthere
    obtain ⟨b, w3, hm, hrest⟩ := bind_eq_ok.mp hrest
    cases hrest
    exact ⟨w3, hm, rfl⟩
  · rintro ⟨w1, hm, rfl⟩
    exact bind_eq rfl (bind_eq rfl (bind_eq hm rfl))

lemma lookup_onMachine_iff {k : Nat} {name : String} {v : Value} :
    onMachine k (lookup name) w = .ok v w ↔
      ∃ m, w.machines[k]? = some m ∧ (m.spaces.stack m.current).find? name = .ok (some v) := by
  constructor
  · intro h
    obtain ⟨w1, hlookup, hw⟩ := onMachine_eq_ok.mp h
    obtain ⟨space, w5, hcurrent, hvalue⟩ := bind_eq_ok.mp hlookup
    obtain ⟨m, hm, rfl, rfl⟩ := current_eq_ok.mp hcurrent
    obtain ⟨o, w6, hfind, hvalue⟩ := bind_eq_ok.mp hvalue
    obtain ⟨m', hm', ho, rfl⟩ := find?_eq_ok.mp hfind
    cases hm.symm.trans hm'
    cases o with
    | some u' =>
      obtain ⟨rfl, -⟩ := pure_eq_ok.mp hvalue
      exact ⟨m, hm, ho⟩
    | none =>
      -- a name without a value would be given one that was not there before
      cases hvalue
      exact absurd (congrArg (fun w : World => w.store.nextId) hw) (Nat.succ_ne_self _).symm
  · rintro ⟨m, hm, hv⟩
    have hthere : { w with active := k }.machines[k]? = some m := hm
    have hlookup : lookup name { w with active := k } = .ok v { w with active := k } :=
      bind_eq (current_eq_ok.mpr ⟨m, hthere, rfl, rfl⟩) (bind_eq (find?_eq_ok.mpr ⟨m, hthere, hv, rfl⟩) rfl)
    exact onMachine_eq_ok.mpr ⟨_, hlookup, rfl⟩

/-! ### The parts of a statement -/

/-- A part of a statement: what it is evaluated to, and the value that this stands for. -/
def part (answer : Answer) (t : Tree) : Run (Value × Value) := do
  let token ← answer (.node t)
  return (token, ← valueOf token)

/-- What the parts of a statement give: the outcome of the command that fits them, if one does. -/
def outcomeOf (answer : Answer) (statement : Tree) (tokens values : List Value) (unknown : Value) :
    Run (Option Value) :=
  match (Index.interpreted.lookup (values.map Value.operand)).find?
      (·.signature.accepts (values.map Value.operand)) with
  | some entry => match values with
    | [_, right] => some <$> unary answer entry.command right
    | [left, _, right] => binary answer entry.command left right
    | _ => throw .violation
  | none => some <$> runOther answer statement statement.base tokens values unknown

/-- The outcome of a statement is looked at once more: it must be defined. -/
def checkOutcome (statement : Tree) (unknown : Value) (outcome : Option Value) : Run Value := do
  match if isEnded statement then some unknown else outcome with
  | none => throw .missingPart
  | some v =>
    if v.kind != .nothing && v.kind != .keyword then
      if ← lift ((← get).store.isUndefined v) then throw .violation
    return v

lemma runStatement_eq (answer : Answer) (statement : Tree) :
    runStatement answer statement = (do
      let unknown ← nothing
      let parts ← statement.base.mapM (part answer)
      let outcome ← outcomeOf answer statement (parts.map Prod.fst) (parts.map Prod.snd) unknown
      checkOutcome statement unknown outcome) := by
  unfold runStatement
  refine bind_congr fun unknown => bind_congr fun parts => ?_
  dsimp only [outcomeOf]
  generalize parts.map Prod.snd = values
  cases (Index.interpreted.lookup (values.map Value.operand)).find?
      (·.signature.accepts (values.map Value.operand)) with
  | none => rfl
  | some entry => rcases values with _ | ⟨a, _ | ⟨b, _ | ⟨c, _ | ⟨d, vs⟩⟩⟩⟩ <;> rfl

end Run

end ArmaScript
