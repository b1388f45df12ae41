import ArmaScript.Proofs.Arrays
import ArmaScript.Proofs.Hygiene
import ArmaScript.Proofs.Isolation
import ArmaScript.Proofs.PublicVariables

/-!
# Variables that are sent to one machine

A variable that is sent to one machine is set in the base scope of its mission, and nothing else
changes. The machine looks it up there, unless a local name of its own hides it. Only what is sent to
everyone is kept for those that join later.
-/

namespace ArmaScript

open Text World

/-- The later world differs only in that a machine was given a variable of the mission. -/
structure World.Given (k : Nat) (m : Machine) (name : String) (v : Value) (w w' : World) : Prop where
  target : w'.machines[k]? = some { m with
    spaces := m.spaces.setStack .mission ((m.spaces.stack .mission).assignAt 0 name v) }
  others : ∀ j, j ≠ k → w'.machines[j]? = w.machines[j]?
  store : w'.store = w.store
  network : w'.network = w.network

namespace Run

variable {w w' : World} {k : Nat} {m : Machine} {name : String} {v : Value}

lemma exists_onMachine_receive (answer : Answer) (hm : w.machines[k]? = some m)
    (hlisten : m.listeners.get? name = none) (hv : v.kind.isValue = true) :
    ∃ w', onMachine k (receive answer name v) w = .ok () w' ∧ Given k m name v w w' := by
  let give (m' : Machine) : Machine := { m' with
    spaces := m'.spaces.setStack .mission ((m.spaces.stack .mission).assignAt 0 name v) }
  let w1 : World := { w with active := k, machines := w.machines.modify k give }
  have hset : setGlobal name v { w with active := k } = .ok () w1 := by
    unfold setGlobal
    rw [hv]
    change modifyStack .mission (fun s => return s.assignAt 0 name v) _ = _
    exact modifyStack_eq_ok.mpr ⟨m, _, hm, rfl, rfl⟩
  have htarget : w1.machines[k]? = some (give m) := by
    rw [Array.getElem?_modify, if_pos rfl, hm]
    rfl
  have hreceive : receive answer name v { w with active := k } = .ok () w1 := by
    refine bind_eq hset (bind_eq (machine_eq_ok.mpr ⟨htarget, rfl⟩) ?_)
    rw [show (give m).listeners.get? name = none from hlisten]
    rfl
  refine ⟨{ w1 with active := w.active }, onMachine_eq_ok.mpr ⟨w1, hreceive, rfl⟩, htarget,
    fun j hj => ?_, rfl, rfl⟩
  exact (Array.getElem?_modify ..).trans (by rw [if_neg hj.symm])

/-- A target is the server or a client by its number. -/
lemma send_target (hm : w.machines[k]? = some m) :
    send name v (.ofContent (.num (.int (k - 1)))) w = onMachine k (receive answer name v) w := by
  have hk : k < w.machines.size := (Array.getElem?_eq_some_iff.mp hm).1
  cases k with
  | zero => rfl
  | succ k =>
    have hne : ((k + 1 : Nat) - 1 : Int) = k := by omega
    have haudience : Audience.ofContent (.num (.int k)) = .client (.num (.int k)) := by
      have hsame : ¬(Content.num (.int k)).same (.num (.int (-1))) = true := by
        change ¬(Num.int k).same (.int (-1)) = true
        rw [Num.same_int, decide_eq_true_eq]
        omega
      rw [Audience.ofContent, if_neg hsame]
      intro h
      cases h
    rw [hne, haudience]
    refine (bind_of_eq_ok (x := get) (a := w) rfl).trans ?_
    refine (bind_of_eq_ok (x := lift _) (a := (k : Int)) rfl).trans ?_
    rw [index?_natCast (Nat.lt_sub_of_add_lt hk)]

/-! ### What is kept for those that join -/

variable {P : String → Value → Prop} {α : Type} {p : α → Prop}

/-- No machine listens, and of what is kept for those that join later the property holds. -/
def Unheard (P : String → Value → Prop) (w : World) : Prop :=
  (∀ (i : Nat) m, w.machines[i]? = some m → m.listeners = []) ∧
    ∀ n, w.network = some n → ∀ x ∈ n.broadcasts, P x.1 x.2

lemma maintains_lift (x : Except Fault α) : Maintains (Unheard P) (lift x) fun _ => True := by
  cases x with
  | ok a => exact .pure trivial
  | error e => exact .throw id

lemma maintains_stored (m : Stored α) : Maintains (Unheard P) (stored m) fun _ => True := by
  intro w hw
  cases hm : m w.store with
  | ok a s =>
    simp only [stored, hm]
    exact ⟨hw, trivial⟩
  | error e s =>
    simp only [stored, hm]
    exact hw

lemma maintains_machine : Maintains (Unheard P) machine fun m : Machine => m.listeners = [] := by
  refine Ensures.get.bind fun w hw => ?_
  cases hm : w.machines[w.active]? with
  | none => exact .throw id
  | some m => exact .pure (hw.1 _ m hm)

lemma maintains_setGlobal (name : String) (v : Value) :
    Maintains (Unheard P) (setGlobal name v) fun _ => True := by
  unfold setGlobal
  refine .guard (.throw id) fun _ => maintains_machine.bind fun _ _ => ?_
  refine (maintains_lift _).bind fun s _ => .modify fun w hw => ⟨fun i m hm => ?_, hw.2⟩
  rw [Array.getElem?_modify] at hm
  split_ifs at hm with hi
  · obtain ⟨m', hm', rfl⟩ := Option.map_eq_some_iff.mp hm
    exact hw.1 i m' hm'
  · exact hw.1 i m hm

lemma maintains_onMachine {x : Run α} (hx : Maintains (Unheard P) x p) (k : Nat) :
    Maintains (Unheard P) (onMachine k x) p := by
  have hactive (j : Nat) : Maintains (Unheard P) (modify ({ · with active := j }) : Run Unit)
      fun _ => True := .modify fun _ hw => hw
  refine Ensures.get.bind fun w _ => (hactive k).bind fun _ _ => hx.bind fun a ha => ?_
  exact (hactive _).bind fun _ _ => .pure ha

lemma maintains_receive (answer : Answer) (name : String) (v : Value) :
    Maintains (Unheard P) (receive answer name v) fun _ => True := by
  refine (maintains_setGlobal name v).bind fun _ _ => maintains_machine.bind fun m hm => ?_
  rw [hm]
  exact .pure trivial

lemma maintains_on {x : Run α} (hx : Maintains (Unheard P) x p) (party : Party) :
    Maintains (Unheard P) (on party x) p := by
  cases party with
  | server => exact maintains_onMachine hx 0
  | client i =>
    refine Ensures.get.bind fun w _ => ?_
    split
    · exact maintains_onMachine hx _
    · exact .throw id

lemma maintains_send {audience : Audience} (h : audience = .all → P name v) :
    Maintains (Unheard P) (send name v audience) fun _ => True := by
  have hone (k : Nat) := maintains_onMachine (P := P) (maintains_receive answer name v) k
  refine Ensures.get.bind fun w _ => ?_
  cases audience with
  | all =>
    refine (Ensures.modify fun w hw => ⟨hw.1, fun n hn x hx => ?_⟩).bind fun _ _ => ?_
    · refine (Judgement.Holds.forIn (J := .maintaining _) fun i _ => ?_).bind fun _ _ => hone 0
      exact (hone _).seq_pure
    · obtain ⟨n', hn', rfl⟩ := Option.map_eq_some_iff.mp hn
      obtain rfl | hx := mem_put hx
      · exact h rfl
      · exact hw.2 n' hn' x hx
  | server => exact hone 0
  | client i =>
    refine (maintains_lift _).bind fun n _ => ?_
    split
    · exact hone _
    · exact .throw id

lemma maintains_join : Maintains (Unheard P) join fun _ => True := by
  refine Ensures.get.bind fun w _ => ?_
  split
  · exact .throw id
  · refine .guard (.throw id) fun _ => Ensures.get.bind fun w _ => ?_
    refine (Ensures.modify fun w hw => ⟨fun i m hm => ?_, hw.2⟩).bind fun _ _ => ?_
    · refine (Judgement.Holds.forIn (J := .maintaining _) fun x _ => ?_).seq_pure
      exact (maintains_onMachine (maintains_setGlobal _ _) _).seq_pure
    · rw [Array.getElem?_push] at hm
      split_ifs at hm
      · cases hm
        rfl
      · exact hw.1 i m hm

/-- Scripts apart, whatever is done, only what is sent to everyone is kept. -/
lemma maintains_operation {operation : Operation}
    (hscript : ∀ party text, operation ≠ .execute party text)
    (hsend : ∀ name v, operation = .send name v .all → P name v) :
    Maintains (Unheard P) operation.run fun _ => True := by
  have hfind (space : Space) (name : String) :
      Maintains (Unheard P) (find? space name) fun _ => True :=
    maintains_machine.bind fun _ _ => maintains_lift _
  have hcurrent : Maintains (Unheard P) current fun _ => True :=
    maintains_machine.seq_pure
  cases operation with
  | join => exact maintains_join.discard
  | execute party text => exact absurd rfl (hscript party text)
  | lookup party name =>
    have hlookup : Maintains (Unheard P) (Run.lookup name) fun _ => True := by
      refine hcurrent.bind fun space _ => (hfind space name).bind fun o _ => ?_
      cases o with
      | some v => exact .pure trivial
      | none => exact maintains_stored _
    exact (maintains_on hlookup party).discard
  | has party name =>
    have hhas := hcurrent.bind fun space _ => (hfind space name).bind fun o _ =>
      Ensures.pure (a := o.isSome) (p := fun _ => True) trivial
    exact (maintains_on hhas party).discard
  | set party name v sent =>
    refine maintains_on (.ite (fun _ => ?_) fun _ => ?_) party
    · exact maintains_receive answer name v
    · exact maintains_setGlobal name v
  | send name v audience => exact maintains_send fun h => hsend name v (by rw [h])
  | atom a => exact (maintains_stored _).discard
  | array elements => exact (maintains_stored _).discard

lemma unheard_reached {history : List Operation}
    (hscript : ∀ party text, .execute party text ∉ history) :
    Unheard (fun name v => .send name v .all ∈ history) (reached true history) := by
  suffices h : ∀ (done : List Operation) w, (∀ o ∈ done, o ∈ history) →
      Unheard (fun name v => .send name v .all ∈ history) w →
      Unheard (fun name v => .send name v .all ∈ history)
        (done.foldl (fun w operation => w.after operation.run) w) by
    refine h history _ (fun _ h => h) ⟨fun i m hm => ?_, fun n hn x hx => ?_⟩
    · obtain ⟨hi, rfl⟩ := Array.getElem?_eq_some_iff.mp hm
      obtain rfl : i = 0 := Nat.lt_one_iff.mp hi
      rfl
    · cases hn
      cases hx
  intro done
  induction done with
  | nil => exact fun w _ hw => hw
  | cons o done ih =>
    intro w hmem hw
    obtain ⟨ho, hdone⟩ := List.forall_mem_cons.mp hmem
    refine ih _ hdone ((maintains_operation ?_ ?_).after hw)
    · rintro party text rfl
      exact hscript party text ho
    · rintro name v rfl
      exact ho

/-- A machine whose mission has one scope, with variables of which the property holds. -/
def Learnt (P : String → Value → Prop) (k : Nat) (w : World) : Prop :=
  ∃ m s, w.machines[k]? = some m ∧ m.current = .mission ∧ m.spaces.stack .mission = ⟨[s]⟩ ∧
    ∀ name v, s.find? name = some v → ∃ name', lower name' = lower name ∧ P name' v

lemma learnt_setGlobal (h : P name v) :
    Ensures (Learnt P k) (fun _ _ => True) (onMachine k (setGlobal name v)) fun _ => True := by
  rintro w ⟨m, s, hm, hcurrent, hs, hlearnt⟩
  cases hx : onMachine k (setGlobal name v) w with
  | error e w' => trivial
  | ok u w' =>
    obtain ⟨w1, hset, rfl⟩ := onMachine_eq_ok.mp hx
    unfold setGlobal at hset
    split at hset
    · cases hset
    · obtain ⟨m', s', hm', hs', rfl⟩ := modifyStack_eq_ok.mp hset
      cases hm.symm.trans hm'
      cases hs'
      refine ⟨⟨{ m with spaces := m.spaces.setStack .mission ⟨[s.assign name v]⟩ }, s.assign name v, ?_,
        hcurrent, ?_, fun name' v' hfind => ?_⟩, trivial⟩
      · dsimp only
        rw [Array.getElem?_modify, if_pos rfl, hm, hs]
        rfl
      · rw [Namespaces.stack_setStack, if_pos rfl]
      · rw [Scope.find?_assign] at hfind
        split_ifs at hfind with hname
        · cases hfind
          exact ⟨name, hname, h⟩
        · exact hlearnt name' v' hfind

/-- A client that joins has what is kept, and nothing else. -/
lemma learnt_join {j : Nat} (h : join w = .ok j w')
    (hkept : ∀ n, w.network = some n → ∀ x ∈ n.broadcasts, P x.1 x.2) :
    Learnt P w.machines.size w' := by
  obtain ⟨w1, w2, hget, h⟩ := bind_eq_ok.mp h
  cases hget
  cases hn : w.network with
  | none =>
    rw [hn] at h
    cases h
  | some n =>
    rw [hn] at h
    dsimp only at h
    split at h
    · cases h
    · obtain ⟨w3, w4, hget, h⟩ := bind_eq_ok.mp h
      cases hget
      obtain ⟨⟨⟩, w5, hpush, h⟩ := bind_eq_ok.mp h
      cases hpush
      obtain ⟨⟨⟩, w6, hset, h⟩ := bind_eq_ok.mp h
      obtain ⟨-, rfl⟩ := pure_eq_ok.mp h
      refine (Ensures.of_ok (Judgement.Holds.forIn (J := ⟨Ensures (Learnt P w.machines.size)
        fun _ _ => True, .pure, fun _ => .throw fun _ => trivial, .bind⟩) fun x hx => ?_) ?_ hset).1
      · exact (learnt_setGlobal (hkept n hn x hx)).seq_pure
      · refine ⟨.ofVariables [], [], Array.getElem?_push_size, rfl, rfl, fun name v hfind => ?_⟩
        cases hfind

lemma find?_eq_of_base {s : Stack Value} {b : Scope Value} {rest : List (Scope Value)}
    (hs : s.scopes = b :: rest) (hfree : isLocalName name = false ∨ ∀ r ∈ rest, r.find? name = none) :
    s.find? name = .ok (b.find? name) := by
  obtain ⟨scopes⟩ := s
  obtain rfl : scopes = b :: rest := hs
  rw [Stack.find?_eq]
  obtain hglobal | hrest := hfree
  · rw [hglobal]
    rfl
  · have hnone : Scope.lookup name rest = none := by
      induction rest with
      | nil => rfl
      | cons r rest ih =>
        obtain ⟨hr, hrest⟩ := List.forall_mem_cons.mp hrest
        rw [Scope.lookup, ih hrest, hr]
        rfl
    rw [hnone, Option.none_or, ite_self]

end Run

open Run

end ArmaScript
