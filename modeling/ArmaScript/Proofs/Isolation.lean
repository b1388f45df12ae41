import ArmaScript.Proofs.Confinement

/-!
# Isolated machines

What a machine can get at are the values of its variables, the code it listens with, and what arrays
and helpers among these hold. A script that sends no public variables, on a machine that holds no
code which does, changes no other machine and no array that its machine cannot get at. Machines that
were sent the same array share it, so a change of it is seen on both.

The statement is about every state of a network that can be reached from outside: clients join,
scripts are run, variables are looked up, set and sent, and any of it may fail.
-/

namespace ArmaScript

open World

/-! ### Reached states -/

/-- The world after a computation, whether it ended well or failed. -/
def World.after {α : Type} (w : World) (m : Run α) : World :=
  match m w with
  | .ok _ w' => w'
  | .error _ w' => w'

variable {w : World} {k : Nat}

lemma Maintains.after {α : Type} {I : World → Prop} {m : Run α} {post : α → Prop}
    (h : Maintains I m post) (hw : I w) : I (w.after m) := by
  have hm := h hw
  unfold World.after
  cases hresult : m w with
  | ok a w' =>
    rw [hresult] at hm
    exact hm.1
  | error e w' =>
    rw [hresult] at hm
    exact hm

/-- What is done to a network from outside. -/
inductive Operation where
  | join
  | execute (party : Party) (text : String)
  | lookup (party : Party) (name : String)
  | has (party : Party) (name : String)
  | set (party : Party) (name : String) (v : Value) (sent : Bool)
  | send (name : String) (v : Value) (audience : Run.Audience)
  /-- A new value without parts. -/
  | atom (a : Atom)
  /-- A new array. -/
  | array (elements : List Value)

def Operation.run : Operation → Run Unit
  | .join => discard Run.join
  | .execute party text => discard (Run.on party (Run.interpret text))
  | .lookup party name => discard (Run.on party (Run.lookup name))
  | .has party name => discard (Run.on party (Run.has name))
  | .set party name v sent => Run.on party (Run.setVariableOf name v sent)
  | .send name v audience => Run.send name v audience
  | .atom a => discard (Run.stored (.atom a))
  | .array elements => discard (Run.stored (.array elements))

/-- The network after some operations, of which some may have failed. -/
def World.reached (dedicated : Bool) (history : List Operation) : World :=
  history.foldl (fun w operation => w.after operation.run) (.server dedicated)

namespace Region

/-- With everything in reach, all that is kept is that the store is sound. -/
lemma holds_everything {w0 w : World} (h : w.store.Sound) : everything.Holds w0 w where
  store := ⟨h, fun _ _ => ⟨trivial, trivial⟩, fun _ hi => absurd trivial hi,
    fun _ hb => absurd trivial hb, fun _ _ _ => trivial, fun _ _ v _ => owns_everything v⟩
  active := trivial
  others _ hi := absurd trivial hi
  network h := absurd trivial h
  own _ _ := within_everything _

end Region

namespace Run

open Region

variable {α : Type} {w0 : World}

lemma confined_on {m : Run α} {post : α → Prop} (party : Party)
    (hm : Confined everything w0 m post) : Confined everything w0 (on party m) post := by
  unfold on
  split
  · exact confined_onMachine trivial hm
  · refine Ensures.get.bind fun w _ => ?_
    split
    · exact confined_onMachine trivial hm
    · exact .throw id

lemma confined_join : Confined everything w0 join fun _ => True := by
  refine Ensures.get.bind fun w _ => ?_
  split
  · exact .throw id
  · refine .guard (.throw id) fun _ => Ensures.get.bind fun w _ => ?_
    dsimp only
    refine (Ensures.modify fun w hw => ?_).bind fun _ _ => ?_
    · exact holds_everything hw.store.sound
    refine (Judgement.Holds.forIn (J := .maintaining _) fun x _ => ?_).seq_pure
    have hset : Confined everything w0 (setGlobal x.1 x.2) fun _ => True :=
      confined_setGlobal _ (owns_everything _)
    exact (confined_onMachine trivial hset).seq_pure

lemma confined_operation (operation : Operation) :
    Confined everything w0 operation.run fun _ => True := by
  have hanswer : answer.Follows (confinement everything w0) := follows_answerWithin _ _
  cases operation with
  | join => exact confined_join.discard
  | execute party text =>
    exact (confined_on party (confined_interpretWithin _ fun _ _ _ _ => .inl trivial)).discard
  | lookup party name =>
    have hlookup : Confined everything w0 (lookup name) everything.Owns :=
      confined_current.bind fun space _ => follows_valueOfName (D := confinement _ _) space name
    exact (confined_on party hlookup).discard
  | has party name =>
    have hhas : Confined everything w0 (has name) fun _ => True :=
      confined_current.bind fun space _ =>
        (follows_find? (D := confinement _ _) space name).seq_pure
    exact (confined_on party hhas).discard
  | set party name v sent =>
    refine confined_on party (.ite (fun _ => ?_) fun _ => ?_)
    · exact follows_receive hanswer trivial (owns_everything v)
    · exact confined_setGlobal name (owns_everything v)
  | send name v audience =>
    exact follows_broadcast hanswer trivial trivial (owns_everything v) audience
  | atom a =>
    have hatom : Stored.Confined everything w0.store (Stored.atom a) fun _ => True :=
      Stored.confined_fresh.seq_pure
    exact (confined_stored hatom).discard
  | array elements =>
    exact (confined_stored (Stored.confined_array fun v _ => owns_everything v)).discard

end Run

/-- In every reached state the identities in use are below the next one, and no two arrays have the
same buffer. -/
lemma World.sound_reached (dedicated : Bool) (history : List Operation) :
    (reached dedicated history).store.Sound := by
  have hstep (w : World) (hw : w.store.Sound) :
      (history.foldl (fun w operation => w.after operation.run) w).store.Sound := by
    induction history generalizing w with
    | nil => exact hw
    | cons operation history ih =>
      refine ih _ ?_
      have hholds : Region.everything.Holds w w := Region.holds_everything hw
      exact ((Run.confined_operation operation).after hholds).store.sound
  exact hstep _ Store.sound_empty

/-! ### What a machine can get at -/

namespace Value

def parts : Value → List Value
  | .privateOf _ v => [v]
  | .whileOf _ v => [v]
  | .forOf _ name first last step => name :: step :: (first.toList ++ last.toList)
  | .forSpecOf _ v => [v]
  | .switchOf _ _ v => [v]
  | .ifOf _ v => [v]
  | .elseOf _ v w => [v, w]
  | .tryOf _ v => [v]
  | .withOf _ v => [v]
  | _ => []

/-- Whether a value is neither a word that sends a public variable nor code with one. -/
def IsQuiet : Value → Prop
  | .atom _ a => a.isPublic = false
  | .code _ _ cs => Tree.QuietList False cs
  | .node t => t.Quiet False
  | _ => True

end Value

/-- The values that a machine can get at. -/
inductive World.Held (w : World) (k : Nat) : Value → Prop
  | named {m : Machine} {space : Space} {scope : Scope Value} {x : String × Value}
      (hm : w.machines[k]? = some m) (hscope : scope ∈ (m.spaces.stack space).scopes)
      (hx : x ∈ scope) : Held w k x.2
  | listener {m : Machine} {x : String × Value} (hm : w.machines[k]? = some m)
      (hx : x ∈ m.listeners) : Held w k x.2
  | element {i : NodeId} {vs : List Value} {v : Value} (h : Held w k (.array i))
      (hvs : w.store.elements? i = some vs) (hv : v ∈ vs) : Held w k v
  | part {v u : Value} (h : Held w k v) (hu : u ∈ v.parts) : Held w k u

section

variable {arrays : NodeId → Prop} (harrays : ∀ i, w.Held k (.array i) → arrays i)
  (hquiet : ∀ v, w.Held k v → v.IsQuiet)
include harrays hquiet

/-- Values that a machine can get at belong to every region with the arrays it can get at. -/
lemma World.Held.within : ∀ v, w.Held k v → v.Within arrays False
  | .atom _ _, h => .atom (.inr (hquiet _ h))
  | .code _ _ _, h => .code (hquiet _ h)
  | .array i, h => .array (harrays i h)
  | .privateOf _ v, h => .privateOf (within v (.part h (.head _)))
  | .whileOf _ v, h => .whileOf (within v (.part h (.head _)))
  | .forOf _ name first last step, h => by
    have hpart (u : Value) (hu : u ∈ name :: step :: (first.toList ++ last.toList)) : w.Held k u :=
      .part h hu
    refine .forOf (within name (hpart _ (by simp))) ?_ ?_
      (within step (hpart _ (by simp)))
    · cases first with
      | none => exact nofun
      | some v => exact (within v (hpart _ (by simp))).some
    · cases last with
      | none => exact nofun
      | some v => exact (within v (hpart _ (by simp))).some
  | .forSpecOf _ v, h => .forSpecOf (within v (.part h (.head _)))
  | .switchOf _ _ v, h => .switchOf (within v (.part h (.head _)))
  | .ifOf _ v, h => .ifOf (within v (.part h (.head _)))
  | .elseOf _ v u, h => .elseOf (within v (.part h (.head _))) (within u (.part h (.tail _ (.head _))))
  | .tryOf _ v, h => .tryOf (within v (.part h (.head _)))
  | .withOf _ v, h => .withOf (within v (.part h (.head _)))
  | .node _, h => .node (hquiet _ h)

end

/-- What a machine can get at in a world, and all that is new. -/
def World.regionOf (w : World) (k : Nat) : Region where
  machines i := i = k
  arrays i := w.Held k (.array i) ∨ w.store.nextId ≤ i
  buffers b := (∃ i cell, w.Held k (.array i) ∧ w.store.arrays[i]? = some cell ∧
    cell.buffer = some b) ∨ w.store.nextId ≤ b
  loud := False
  machines_of_loud := False.elim

lemma Store.elements?_eq_some {s : Store} {i : NodeId} {cell : ArrayCell} {b : Nat}
    {vs : List Value} (hcell : s.arrays[i]? = some cell) (hb : cell.buffer = some b)
    (hvs : s.buffers[b]? = some vs) : s.elements? i = some vs :=
  Option.bind_eq_some_iff.mpr ⟨cell, hcell, Option.bind_eq_some_iff.mpr ⟨b, hb, hvs⟩⟩

lemma World.holds_regionOf (hsound : w.store.Sound) (hquiet : ∀ v, w.Held k v → v.IsQuiet) :
    (w.regionOf k).Holds w { w with active := k } := by
  have howns (v : Value) (hv : w.Held k v) : (w.regionOf k).Owns v :=
    hv.within (fun _ => .inl) hquiet v
  refine ⟨⟨hsound, fun i hi => ⟨.inr hi, .inr hi⟩, fun _ _ => rfl, fun _ _ => rfl, ?_, ?_⟩, rfl,
    fun _ _ => rfl, fun _ => rfl, ?_⟩
  · rintro i cell b (hi | hi) hcell hb
    · exact .inl ⟨i, cell, hi, hcell, hb⟩
    · exact absurd (hsound.array_lt hcell) (Nat.not_lt.mpr hi)
  · rintro b vs (⟨i, cell, hi, hcell, hb⟩ | hb) hvs v hv
    · exact howns v (.element hi (Store.elements?_eq_some hcell hb hvs) hv)
    · exact absurd (hsound.stored_lt hvs) (Nat.not_lt.mpr hb)
  · rintro i m rfl hm
    exact ⟨fun space scope hscope x hx => howns _ (.named hm hscope hx),
      fun x hx => howns _ (.listener hm hx)⟩

lemma Region.Guards.elements?_eq {s : Store} (hsound : w.store.Sound)
    (h : (w.regionOf k).Guards w.store s) {i : NodeId} {cell : ArrayCell}
    (hcell : w.store.arrays[i]? = some cell) (hi : ¬w.Held k (.array i)) :
    s.arrays[i]? = some cell ∧ s.elements? i = w.store.elements? i := by
  have hkept : s.arrays[i]? = some cell := by
    rw [← hcell]
    refine h.arrays i ?_
    rintro (hheld | hle)
    · exact hi hheld
    · exact Nat.not_lt.mpr hle (hsound.array_lt hcell)
  refine ⟨hkept, ?_⟩
  unfold Store.elements?
  rw [hkept, hcell]
  dsimp only [Option.bind_eq_bind, Option.bind_some]
  cases hb : cell.buffer with
  | none => rfl
  | some b =>
    refine h.buffers b ?_
    rintro (⟨j, cell', hj, hcell', hb'⟩ | hle)
    · exact hi (hsound.unshared hcell' hcell hb' hb ▸ hj)
    · exact Nat.not_lt.mpr hle (hsound.buffer_lt hcell hb)

/-! ### Isolation -/

def World.machineOf? (w : World) : Party → Option Nat
  | .server => some 0
  | .client i => (index? (w.machines.size - 1) i).map (· + 1)

namespace Run

variable {α : Type} {w : World} {k : Nat} {m : Run α}

lemma on_eq_onMachine {party : Party} (h : w.machineOf? party = some k) :
    on party m w = onMachine k m w := by
  cases party with
  | server =>
    cases h
    rfl
  | client i =>
    obtain ⟨k, hk, rfl⟩ := Option.map_eq_some_iff.mp h
    refine (bind_of_eq_ok (x := get) (a := w) rfl).trans ?_
    rw [hk]

lemma after_discard (w : World) (m : Run α) : w.after (discard m) = w.after m := by
  have hdiscard : discard m w = EStateM.map (fun _ => ()) m w := rfl
  unfold after
  rw [hdiscard]
  unfold EStateM.map
  cases m w <;> rfl

/-- After a script has run on a machine, only the active machine may be another one than at its end.
-/
lemma after_execute {party : Party} {text : String} (h : w.machineOf? party = some k) :
    ∃ active, w.after (Operation.execute party text).run =
      { after { w with active := k } (interpret text) with active } := by
  have hon : on party (interpret text) w = (do
      let v ← interpret text
      modify ({ · with active := w.active })
      return v : Run Value) { w with active := k } := on_eq_onMachine h
  refine (?_ : ∃ active, w.after (discard (on party (interpret text))) = _)
  rw [after_discard]
  unfold after
  rw [hon]
  cases hm : interpret text { w with active := k } with
  | ok v w' =>
    rw [bind_of_eq_ok hm]
    exact ⟨w.active, rfl⟩
  | error e w' =>
    rw [bind_of_eq_error hm]
    exact ⟨w'.active, rfl⟩

end Run

/-- Machines are isolated, up to arrays that they share. In every reached state of a network, a
script without a word that sends public variables, on a machine that can get at no such word, leaves
the other machines, what their variables are looked up to and the contents of each array that its
machine cannot get at as they are, also if it fails. -/
theorem isolated_of_quiet (dedicated : Bool) (history : List Operation) (party : Party) (k : Nat)
    (text : String) (hparty : (reached dedicated history).machineOf? party = some k)
    (htext : ∀ tokens, Atom.lex text = .ok tokens → ∀ a ∈ tokens, a.isPublic = false)
    (hheld : ∀ v, (reached dedicated history).Held k v → v.IsQuiet) :
    let w := reached dedicated history
    let w' := w.after (Operation.execute party text).run
    (∀ j, j ≠ k → w'.machines[j]? = w.machines[j]? ∧ ∀ name v,
        Run.onMachine j (Run.lookup name) w' = .ok v w' ↔
          Run.onMachine j (Run.lookup name) w = .ok v w) ∧
      w'.network = w.network ∧
      ∀ i cell, w.store.arrays[i]? = some cell → ¬w.Held k (.array i) →
        w'.store.arrays[i]? = some cell ∧ w'.store.elements? i = w.store.elements? i := by
  intro w w'
  have hsound : w.store.Sound := sound_reached dedicated history
  have hrun : Run.Confined (w.regionOf k) w (Run.interpret text) (w.regionOf k).Owns :=
    Run.confined_interpretWithin _ fun tokens hlex a ha => .inr (htext tokens hlex a ha)
  have hholds := hrun.after (holds_regionOf hsound hheld)
  obtain ⟨active, hafter⟩ : ∃ active,
      w' = { after { w with active := k } (Run.interpret text) with active } :=
    Run.after_execute hparty
  have hmachine (j : Nat) (hj : j ≠ k) : w'.machines[j]? = w.machines[j]? := by
    rw [hafter]
    exact hholds.others j hj
  refine ⟨fun j hj => ⟨hmachine j hj, fun name v => ?_⟩, ?_, fun i cell hcell hi => ?_⟩
  · rw [Run.lookup_onMachine_iff, Run.lookup_onMachine_iff, hmachine j hj]
  · rw [hafter]
    exact hholds.network id
  · rw [hafter]
    exact hholds.store.elements?_eq hsound hcell hi

/-- Each machine of a network has an array of its own, under the same name. -/
def Operation.ownArrays : List Operation :=
  [.join,
    .atom (.boolean true), .array [.atom 0 (.boolean true)], .set .server "x" (.array 1) false,
    .atom (.boolean true), .array [.atom 3 (.boolean true)], .set (.client 0) "x" (.array 4) false]

lemma World.arrays_ownArrays : (reached true Operation.ownArrays).store.arrays =
    .insert (.insert ∅ 1 ⟨some 2, [.atom 0 (.boolean true)]⟩) 4
      ⟨some 5, [.atom 3 (.boolean true)]⟩ :=
  rfl

lemma World.buffers_ownArrays : (reached true Operation.ownArrays).store.buffers =
    .insert (.insert ∅ 2 [.atom 0 (.boolean true)]) 5 [.atom 3 (.boolean true)] :=
  rfl

/-- The client can get at its array and the element of it. -/
lemma World.held_ownArrays {v : Value} (h : (reached true Operation.ownArrays).Held 1 v) :
    v = .array 4 ∨ v = .atom 3 (.boolean true) := by
  induction h with
  | @named m space scope x hm hscope hx =>
    cases hm
    have hscope : scope = [("x", .array 4)] ∨ scope = [] := by
      cases space with
      | mission => exact .inl (List.mem_singleton.mp hscope)
      | _ => exact .inr (List.mem_singleton.mp hscope)
    obtain rfl | rfl := hscope
    · cases List.mem_singleton.mp hx
      exact .inl rfl
    · cases hx
  | listener hm hx =>
    cases hm
    cases hx
  | element h hvs hv ih =>
    obtain h | h := ih
    · cases h
      have hcell : (reached true Operation.ownArrays).store.arrays[4]? =
          some ⟨some 5, [.atom 3 (.boolean true)]⟩ := by grind [arrays_ownArrays]
      have hbuffer : (reached true Operation.ownArrays).store.buffers[5]? =
          some [.atom 3 (.boolean true)] := by grind [buffers_ownArrays]
      cases (Store.elements?_eq_some hcell rfl hbuffer).symm.trans hvs
      exact .inr (List.mem_singleton.mp hv)
    · cases h
  | part h hu ih => obtain rfl | rfl := ih <;> cases hu


lemma Atom.quiet_set :
    ∀ tokens, lex "x set [0, 5]" = .ok tokens → ∀ a ∈ tokens, a.isPublic = false := by
  have hgroup : Lexeme.group (Lexeme.split "x set [0, 5]") =
      .ok (["x", " ", "set", " ", "[", "0", ",", " ", "5", "]"].map .word) := rfl
  exact quiet_of_group hgroup (by decide +kernel)

/-- The client changes its array, and the server keeps its own. -/
theorem isolated_of_quiet_ownArrays :
    let w := reached true Operation.ownArrays
    let w' := w.after (Operation.execute (.client 0) "x set [0, 5]").run
    (∀ v, w.Held 1 v → v.IsQuiet) ∧ w'.machines[0]? = w.machines[0]? ∧
      w'.store.elements? 1 = some [.atom 0 (.boolean true)] := by
  have hquiet (v : Value) (hv : (reached true Operation.ownArrays).Held 1 v) : v.IsQuiet := by
    obtain rfl | rfl := held_ownArrays hv
    · trivial
    · rfl
  have hheld : ¬(reached true Operation.ownArrays).Held 1 (.array 1) := by
    intro hv
    obtain h | h := held_ownArrays hv <;> cases h
  have hcell : (reached true Operation.ownArrays).store.arrays[1]? =
      some ⟨some 2, [.atom 0 (.boolean true)]⟩ := by grind [arrays_ownArrays]
  have hbuffer : (reached true Operation.ownArrays).store.buffers[2]? =
      some [.atom 0 (.boolean true)] := by grind [buffers_ownArrays]
  have helements := Store.elements?_eq_some hcell rfl hbuffer
  obtain ⟨hmachines, -, harrays⟩ := isolated_of_quiet true Operation.ownArrays (.client 0) 1
    "x set [0, 5]" rfl Atom.quiet_set hquiet
  exact ⟨hquiet, (hmachines 0 (by decide)).1, (harrays 1 _ hcell hheld).2.trans helements⟩
end ArmaScript
