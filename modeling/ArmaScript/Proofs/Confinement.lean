import ArmaScript.Proofs.Discipline

/-!
# Confined runs

A run that starts with values of a region and may run only what is allowed there stays in the
region: it gives values of the region, it changes neither machines nor arrays outside, and without
words that send public variables it leaves the network as it is. This holds whether the run ends
well or fails.
-/

namespace ArmaScript

variable {arrays : NodeId → Prop} {loud : Prop}

namespace Stack.Within

variable {s s' : Stack Value} {name : String} {v : Value}

lemma assignAt (h : s.Within arrays loud) (level : Nat) (name : String)
    (hv : v.Within arrays loud) : (s.assignAt level name v).Within arrays loud := by
  intro scope hscope x hx
  obtain ⟨j, hj⟩ := List.mem_iff_getElem?.mp hscope
  rw [Stack.assignAt, List.getElem?_modify] at hj
  obtain ⟨old, hold, rfl⟩ := Option.map_eq_some_iff.mp hj
  have hold := h old (List.mem_of_getElem? hold)
  split at hx
  · obtain hx | hx := Table.value_of_mem_put hx
    · rwa [hx]
    · exact hold x hx
  · exact hold x hx

lemma assign (h : s.Within arrays loud) (hv : v.Within arrays loud)
    (hs' : s.assign name v = .ok s') : s'.Within arrays loud := by
  obtain ⟨level, -, hs'⟩ := except_bind_eq_ok.mp hs'
  cases hs'
  exact h.assignAt level name hv

lemma push (h : s.Within arrays loud) {vars : List (String × Value)}
    (hvars : ∀ x ∈ vars, x.2.Within arrays loud) : (s.push vars).Within arrays loud := by
  have hscope {scope : Scope Value} (hscope : ∀ x ∈ scope, x.2.Within arrays loud) :
      ∀ x ∈ vars.foldl (fun s x => s.assign x.1 x.2) scope, x.2.Within arrays loud := by
    induction vars generalizing scope with
    | nil => exact hscope
    | cons y ys ih =>
      obtain ⟨hy, hys⟩ := List.forall_mem_cons.mp hvars
      refine ih hys fun x hx => ?_
      obtain hx | hx := Table.value_of_mem_put hx
      · rwa [hx]
      · exact hscope x hx
  exact List.forall_mem_append.mpr ⟨h, List.forall_mem_singleton.mpr (hscope nofun)⟩

lemma pop (h : s.Within arrays loud) (hs' : s.pop = .ok s') : s'.Within arrays loud := by
  unfold Stack.pop at hs'
  split at hs'
  · cases hs'
  · cases hs'
    exact fun scope hscope => h scope ((List.dropLast_sublist _).subset hscope)

end Stack.Within

/-- What a run keeps of the world `w0` that it starts in. -/
structure Region.Holds (R : Region) (w0 w : World) : Prop where
  store : R.Guards w0.store w.store
  active : R.machines w.active
  others : ∀ i, ¬R.machines i → w.machines[i]? = w0.machines[i]?
  network : ¬R.loud → w.network = w0.network
  own : ∀ {i : Nat} {m : Machine}, R.machines i → w.machines[i]? = some m →
    m.Within R.arrays R.loud

namespace Run

variable {α : Type} {R : Region} {w0 : World} {post : α → Prop}

abbrev Confined (R : Region) (w0 : World) (m : Run α) (post : α → Prop) : Prop :=
  Maintains (R.Holds w0) m post

/-! ### Single steps -/

lemma confined_stored {m : Stored α} (h : Stored.Confined R w0.store m post) :
    Confined R w0 (stored m) post := by
  intro w hw
  have hm := h hw.store
  unfold stored
  dsimp only
  cases hresult : m w.store with
  | ok a s =>
    rw [hresult] at hm
    exact ⟨⟨hm.1, hw.active, hw.others, hw.network, hw.own⟩, hm.2⟩
  | error e s =>
    rw [hresult] at hm
    exact ⟨hm, hw.active, hw.others, hw.network, hw.own⟩

lemma confined_machine : Confined R w0 machine fun m => m.Within R.arrays R.loud := by
  refine Ensures.get.bind fun w hw => ?_
  split
  · exact .pure (hw.own hw.active ‹_›)
  · exact .throw id

lemma confined_modifyMachine {f : Machine → Machine}
    (hf : ∀ m, m.Within R.arrays R.loud → (f m).Within R.arrays R.loud) :
    Confined R w0 (modifyMachine f) fun _ => True := by
  refine .modify fun w hw =>
    ⟨hw.store, hw.active, fun i hi => ?_, hw.network, fun {i m} hi hm => ?_⟩
  · dsimp only
    rw [Array.getElem?_modify, if_neg (by rintro rfl; exact hi hw.active)]
    exact hw.others i hi
  · dsimp only at hm
    rw [Array.getElem?_modify] at hm
    split at hm
    · obtain ⟨old, hold, rfl⟩ := Option.map_eq_some_iff.mp hm
      exact hf old (hw.own hi hold)
    · exact hw.own hi hm

lemma confined_setCurrent (space : Space) : Confined R w0 (setCurrent space) fun _ => True :=
  confined_modifyMachine fun _ hm => ⟨hm.stack, hm.listeners⟩

lemma confined_modifyStack (space : Space) {f : Stack Value → Except Fault (Stack Value)}
    (hf : ∀ s s', s.Within R.arrays R.loud → f s = .ok s' → s'.Within R.arrays R.loud) :
    Confined R w0 (modifyStack space f) fun _ => True := by
  refine confined_machine.bind fun m hm => ?_
  have hlift : Confined R w0 (lift (f (m.spaces.stack space))) fun s => s.Within R.arrays R.loud := by
    cases hs : f (m.spaces.stack space) with
    | ok s => exact .pure (hf _ s (hm.stack space) hs)
    | error e => exact .throw id
  refine hlift.bind fun s hs => ?_
  refine confined_modifyMachine fun m hm => ⟨fun other => ?_, hm.listeners⟩
  dsimp only
  rw [Namespaces.stack_setStack]
  split
  · exact hs
  · exact hm.stack other

lemma confined_current : Confined R w0 current fun _ => True :=
  confined_machine.seq_pure

lemma confined_setGlobal (name : String) {v : Value} (hv : R.Owns v) :
    Confined R w0 (setGlobal name v) fun _ => True := by
  unfold setGlobal
  refine .guard (.throw id) fun _ => confined_modifyStack _ fun s s' hs hs' => ?_
  cases hs'
  exact hs.assignAt 0 name hv

variable {m : Run α}

/-- A computation on another machine of the region comes back to the one it was started on. -/
lemma confined_onMachine {k : Nat} (hk : R.machines k) (hm : Confined R w0 m post) :
    Confined R w0 (onMachine k m) post := by
  have hactive {j : Nat} (hj : R.machines j) :
      Confined R w0 (modify ({ · with active := j })) fun _ => True :=
    .modify fun w hw => ⟨hw.store, hj, hw.others, hw.network, hw.own⟩
  refine Ensures.get.bind fun w hw => (hactive hk).bind fun _ _ => hm.bind fun a ha => ?_
  exact (hactive hw.active).bind fun _ _ => .pure ha

/-- What is done in a scope of its own stays in the region, also if the scope stays. -/
lemma confined_scoped (isFile : Bool) {vars : List (String × Value)}
    (hvars : ∀ x ∈ vars, R.Owns x.2) (space : Space) (hm : Confined R w0 m post) :
    Confined R w0 (do
      let previous ← current
      setCurrent space
      modifyStack space fun s => return s.push vars
      let a ← m
      unless isFile do modifyStack space (·.pop)
      setCurrent previous
      return a) post := by
  refine confined_current.bind fun previous _ => (confined_setCurrent space).bind fun _ _ => ?_
  refine (confined_modifyStack space fun s s' hs hs' => ?_).bind fun _ _ => hm.bind fun a ha => ?_
  · cases hs'
    exact hs.push hvars
  · have hback : Confined R w0 (do
        setCurrent previous
        return a) post :=
      (confined_setCurrent previous).bind fun _ _ => .pure ha
    refine .ite (fun _ => hback) fun _ => ?_
    exact (confined_modifyStack space fun _ _ hs hs' => hs.pop hs').bind fun _ _ => hback

def confinement (R : Region) (w0 : World) : Discipline R where
  toJudgement := .maintaining (R.Holds w0)
  get := fun _ hw => ⟨hw, hw.store.own_values⟩
  stored hm _ := confined_stored (hm _)
  machine := confined_machine
  assign space _ _ hv := confined_modifyStack space fun _ _ hs hs' => hs.assign hv hs'
  assignTop name _ hv := by
    refine confined_current.bind fun space _ => confined_modifyStack space fun s s' hs hs' => ?_
    obtain ⟨level, -, hs'⟩ := except_bind_eq_ok.mp hs'
    cases hs'
    exact hs.assignAt level name hv
  Public _ := True
  public_of_not_local _ := trivial
  setGlobal _ _ hv := confined_setGlobal _ hv
  listen name v hv := by
    refine confined_modifyMachine fun m hm => ⟨hm.stack, fun x hx => ?_⟩
    obtain hx | hx := Table.value_of_mem_put hx
    · rwa [hx]
    · exact hm.listeners x hx
  network hloud _ := fun _ hw =>
    ⟨⟨hw.store, hw.active, hw.others, fun h => absurd hloud h, hw.own⟩, trivial⟩
  onMachine hk _ _ hm := confined_onMachine hk hm
  inScope space _ hvars _ _ hm := confined_scoped false hvars space hm

lemma confined_of_follows (h : (confinement R w0).Follows m post) : Confined R w0 m post :=
  h

/-! ### Scripts -/

/-- A file stays in the region at every depth of nesting. -/
lemma confined_file (depth : Nat) (id : NodeId) {children : List Tree}
    (hchildren : Tree.QuietList R.loud children) {vars : List (String × Value)}
    (hvars : ∀ x ∈ vars, R.Owns x.2) (space : Space) :
    Confined R w0 (answerWithin depth (.code ⟨id, children, true⟩ vars space)) R.Owns := by
  cases depth with
  | zero => exact .throw fun h => h
  | succ depth =>
    have hanswer := follows_answerWithin (confinement R w0) depth
    have hbody := confined_of_follows (follows_body hanswer id hchildren)
    have hscoped := confined_scoped true hvars space hbody
    simp only [bind_assoc] at hscoped
    exact hscoped

/-- A script without words that send public variables is read into nodes without them, and the
identities it takes are new. -/
lemma confined_readScript {text : String} (htext : ∀ tokens, Atom.lex text = .ok tokens →
      ∀ a ∈ tokens, R.loud ∨ a.isPublic = false) :
    Confined R w0 (readScript text) fun script => script.tree.Quiet R.loud := by
  intro w hw
  have hscript {script : Script} (hread : Script.read text w.store.nextId = .ok script) :
      script.tree.Quiet R.loud ∧ w.store.nextId ≤ script.nextId := by
    obtain ⟨tokens, hlex, -⟩ := except_bind_eq_ok.mp hread
    exact Script.quiet_of_read hlex (htext tokens hlex) hread
  have hget : readScript text w = (lift (Script.read text w.store.nextId) >>= fun script => do
      stored (modify fun s => { s with nextId := script.nextId }.setPlaces script.places)
      return script) w := rfl
  rw [hget]
  cases hread : Script.read text w.store.nextId with
  | error e => exact hw
  | ok script =>
    obtain ⟨hquiet, hle⟩ := hscript hread
    exact ⟨⟨hw.store.mono hle rfl rfl, hw.active, hw.others, hw.network, hw.own⟩, hquiet⟩

/-- A script stays in the region, if it has no words that send public variables or they are allowed.
-/
lemma confined_interpretWithin (depth : Nat) {text : String}
    (htext : ∀ tokens, Atom.lex text = .ok tokens → ∀ a ∈ tokens, R.loud ∨ a.isPublic = false) :
    Confined R w0 (interpretWithin depth text) R.Owns := by
  refine (confined_readScript htext).bind fun script hscript => ?_
  refine (confined_stored Stored.confined_fresh).bind fun id _ => ?_
  refine (confined_stored (Stored.confined_setPlace id .start)).bind fun _ _ => ?_
  refine (confined_stored (Stored.confined_atom rfl)).bind fun this hthis => ?_
  exact confined_file depth id hscript.children (List.forall_mem_singleton.mpr hthis) _

end Run

end ArmaScript
