import ArmaScript.Proofs.ScopeCorrespondence
import ArmaScript.Proofs.Running

/-!
# Public variables and those that join late

In a network in which variables are only sent to everyone and clients only join, a machine has
nothing but the variables of its mission. A client that joins gets what was sent before in the order
in which the spellings of the names came up, and not in the order in which the values were sent. All
machines agree on a variable exactly if for none of them this makes a difference, and they do if
every variable is always spelled in the same way.
-/

namespace ArmaScript

open Text List

/-! ### What was sent last -/

/-- The value that was sent last under a name, without regard to case. -/
def latest (name : String) (sends : List (String × Value)) : Option Value :=
  (sends.reverse.find? fun s => lower s.1 == lower name).map Prod.snd

/-- The table of what was sent, by the spelling of the name. -/
def tableOf (sends : List (String × Value)) : Table String Value :=
  sends.foldl (fun t s => t.put s.1 s.2) []

lemma latest_append (name : String) (sends sends' : List (String × Value)) :
    latest name (sends ++ sends') = (latest name sends').or (latest name sends) := by
  unfold latest
  rw [reverse_append, find?_append]
  cases find? (fun s => lower s.1 == lower name) sends'.reverse <;> rfl

lemma latest_singleton (name name' : String) (v : Value) :
    latest name' [(name, v)] = if lower name = lower name' then some v else none := by
  unfold latest
  rw [reverse_singleton, find?_singleton]
  simp only [beq_iff_eq]
  split_ifs <;> rfl

/-- Variables that are given values in turn have the last of them. -/
lemma Scope.find?_foldl_assign (sends : List (String × Value)) (s : Scope Value) (name : String) :
    Scope.find? (sends.foldl (fun s x => s.assign x.1 x.2) s) name =
      (latest name sends).or (s.find? name) := by
  induction sends using reverseRecOn with
  | nil => rfl
  | append_singleton sends x ih =>
    rw [foldl_append, foldl_cons, foldl_nil, Scope.find?_assign, latest_append, latest_singleton]
    split_ifs
    · rfl
    · rw [ih, Option.none_or]

lemma Scope.find?_ofVariables_eq (sends : List (String × Value)) (name : String) :
    (Scope.ofVariables sends).find? name = latest name sends :=
  (Scope.find?_foldl_assign sends [] name).trans Option.or_none

lemma latest_cons (name : String) (x : String × Value) (sends : List (String × Value)) :
    latest name (x :: sends) =
      (latest name sends).or (if lower x.1 = lower name then some x.2 else none) := by
  rw [← singleton_append, latest_append, latest_singleton]

variable {name : String}

lemma latest_eq_none {sends : List (String × Value)} (h : ∀ x ∈ sends, lower x.1 ≠ lower name) :
    latest name sends = none := by
  rw [latest, Option.map_eq_none_iff, find?_eq_none]
  intro x hx
  rw [beq_iff_eq]
  exact h x (mem_reverse.mp hx)

/-- No variable is there in two spellings. -/
def Unmixed (t : List (String × Value)) : Prop :=
  t.Pairwise fun x y => lower x.1 ≠ lower y.1

lemma mem_put {t : Table String Value} {v : Value} {x : String × Value} (hx : x ∈ t.put name v) :
    x = (name, v) ∨ x ∈ t := by
  induction t with
  | nil => exact .inl (mem_singleton.mp hx)
  | cons y t ih =>
    rw [Table.put] at hx
    split_ifs at hx with hy
    · obtain rfl | hx := mem_cons.mp hx
      · exact .inl (by rw [eq_of_beq hy])
      · exact .inr (mem_cons_of_mem y hx)
    · obtain rfl | hx := mem_cons.mp hx
      · exact .inr mem_cons_self
      · exact (ih hx).imp_right (mem_cons_of_mem y)

/-- A variable that is always spelled in the same way has one entry in the table. -/
lemma unmixed_put {t : Table String Value}
    (hspelled : ∀ x ∈ t, lower x.1 = lower name → x.1 = name) (h : Unmixed t) (v : Value) :
    Unmixed (t.put name v) ∧ ∀ name', latest name' (t.put name v) =
      if lower name = lower name' then some v else latest name' t := by
  induction t with
  | nil => exact ⟨pairwise_singleton _ _, fun name' => latest_singleton name name' v⟩
  | cons y t ih =>
    obtain ⟨hy, ht⟩ := pairwise_cons.mp h
    rw [Table.put]
    split_ifs with hname
    · obtain rfl := eq_of_beq hname
      refine ⟨pairwise_cons.mpr ⟨hy, ht⟩, fun name' => ?_⟩
      rw [latest_cons, latest_cons]
      split_ifs with hlower
      · rw [latest_eq_none fun x hx => hlower ▸ (hy x hx).symm, Option.none_or]
      · rfl
    · obtain ⟨hput, hlatest⟩ := ih (fun x hx => hspelled x (mem_cons_of_mem y hx)) ht
      have hne : lower y.1 ≠ lower name := fun hlower =>
        hname (beq_iff_eq.mpr (hspelled y mem_cons_self hlower))
      refine ⟨pairwise_cons.mpr ⟨fun x hx => ?_, hput⟩, fun name' => ?_⟩
      · obtain rfl | hx := mem_put hx
        · exact hne
        · exact hy x hx
      · rw [latest_cons, latest_cons, hlatest]
        split_ifs <;> rfl

/-- If every variable is always spelled in the same way, the table keeps what was sent last. -/
lemma latest_tableOf {sends : List (String × Value)}
    (h : ∀ x ∈ sends, ∀ y ∈ sends, lower x.1 = lower y.1 → x.1 = y.1) (name : String) :
    latest name (tableOf sends) = latest name sends := by
  suffices hsuffices : Unmixed (tableOf sends) ∧ (∀ x ∈ tableOf sends, ∃ y ∈ sends, y.1 = x.1) ∧
      ∀ name, latest name (tableOf sends) = latest name sends from hsuffices.2.2 name
  induction sends using reverseRecOn with
  | nil => exact ⟨.nil, nofun, fun _ => rfl⟩
  | append_singleton sends x ih =>
    obtain ⟨hunmixed, hkeys, hlatest⟩ := ih fun y hy z hz =>
      h y (mem_append_left _ hy) z (mem_append_left _ hz)
    have htable : tableOf (sends ++ [x]) = (tableOf sends).put x.1 x.2 := by
      rw [tableOf, foldl_append]
      rfl
    have hx : x ∈ sends ++ [x] := mem_append_right _ (mem_singleton_self x)
    have hspelled : ∀ y ∈ tableOf sends, lower y.1 = lower x.1 → y.1 = x.1 := by
      intro y hy
      obtain ⟨z, hz, hzy⟩ := hkeys y hy
      rw [← hzy]
      exact h z (mem_append_left _ hz) x hx
    obtain ⟨hput, hputLatest⟩ := unmixed_put hspelled hunmixed x.2
    rw [htable]
    refine ⟨hput, fun y hy => ?_, fun name => ?_⟩
    · obtain rfl | hy := mem_put hy
      · exact ⟨x, hx, rfl⟩
      · obtain ⟨z, hz, hzy⟩ := hkeys y hy
        exact ⟨z, mem_append_left _ hz, hzy⟩
    · rw [hputLatest, hlatest, latest_append, latest_singleton]
      split_ifs <;> rfl

/-! ### Machines that only have variables -/

/-- A machine with variables of the mission, and nothing else. -/
def Machine.ofScope (s : Scope Value) : Machine :=
  ⟨⟨.ofVariables [], .ofVariables [], ⟨[s]⟩, .ofVariables []⟩, .mission, []⟩

/-- A network of a dedicated server and its clients, by the variables of each machine and what is
kept for those that join later. -/
def World.ofScopes (store : Store) (active : Nat) (scopes : List (Scope Value))
    (kept : Table String Value) : World :=
  ⟨store, (scopes.map Machine.ofScope).toArray, active, some ⟨true, kept⟩⟩

namespace Run

variable {store : Store} {active i : Nat} {scopes : List (Scope Value)} {kept : Table String Value}
  {name : String} {v : Value}

lemma machine_ofScopes (hi : i < scopes.length) :
    (World.ofScopes store active scopes kept).machines[i]? = some (.ofScope scopes[i]) := by
  change (scopes.map Machine.ofScope).toArray[i]? = _
  rw [getElem?_toArray, getElem?_map, getElem?_eq_getElem hi, Option.map_some]

lemma setGlobal_ofScopes (hv : v.kind.isValue = true) (hi : i < scopes.length) :
    setGlobal name v (.ofScopes store i scopes kept) =
      .ok () (.ofScopes store i (scopes.modify i (·.assign name v)) kept) := by
  unfold setGlobal
  rw [hv]
  change modifyStack .mission (fun s => return s.assignAt 0 name v) _ = _
  refine modifyStack_eq_ok.mpr ⟨_, _, machine_ofScopes hi, rfl, ?_⟩
  unfold World.ofScopes
  congr 1
  apply Array.ext_getElem?
  intro j
  rw [Array.getElem?_modify, getElem?_toArray, getElem?_toArray, getElem?_map,
    getElem?_map, getElem?_modify]
  split_ifs with hij
  · subst hij
    rw [getElem?_eq_getElem hi]
    rfl
  · rw [Option.map_eq_map, Option.map_id']

lemma receive_ofScopes (answer : Answer) (hv : v.kind.isValue = true) (hi : i < scopes.length) :
    receive answer name v (.ofScopes store i scopes kept) =
      .ok () (.ofScopes store i (scopes.modify i (·.assign name v)) kept) := by
  have hi' : i < (scopes.modify i (·.assign name v)).length := by rwa [length_modify]
  refine bind_eq (setGlobal_ofScopes hv hi) ?_
  exact bind_eq (machine_eq_ok.mpr ⟨machine_ofScopes hi', rfl⟩) rfl

lemma onMachine_ofScopes {m : Run Unit} (h : m (.ofScopes store i scopes kept) =
      .ok () (.ofScopes store i (scopes.modify i (·.assign name v)) kept)) :
    onMachine i m (.ofScopes store active scopes kept) =
      .ok () (.ofScopes store active (scopes.modify i (·.assign name v)) kept) := by
  refine bind_eq rfl (bind_eq rfl (bind_eq h rfl))

/-- Variables are set on several machines in turn. -/
lemma forIn_ofScopes {γ : Type} {f : γ → Run Unit} {g : List (Scope Value) → γ → List (Scope Value)}
    {P : List (Scope Value) → Prop} {items : List γ}
    (hf : ∀ c ∈ items, ∀ scopes, P scopes → f c (.ofScopes store active scopes kept) =
      .ok () (.ofScopes store active (g scopes c) kept) ∧ P (g scopes c)) (hP : P scopes) :
    (forIn items PUnit.unit fun c _ => do f c; return .yield PUnit.unit : Run PUnit)
      (.ofScopes store active scopes kept) =
      .ok ⟨⟩ (.ofScopes store active (items.foldl g scopes) kept) := by
  induction items generalizing scopes with
  | nil => rfl
  | cons c items ih =>
    obtain ⟨hc, hP'⟩ := hf c mem_cons_self scopes hP
    rw [forIn_cons]
    refine bind_eq (bind_eq hc rfl) ?_
    exact ih (fun d hd => hf d (mem_cons_of_mem c hd)) hP'

lemma modify_length_append (f : Scope Value → Scope Value) (ss ts : List (Scope Value))
    (s : Scope Value) : (ss ++ s :: ts).modify ss.length f = ss ++ f s :: ts := by
  induction ss with
  | nil => rfl
  | cons _ ss ih =>
    rw [cons_append, length_cons, modify_succ_cons, ih, cons_append]

lemma foldl_modify_range' (f : Scope Value → Scope Value) (ss ts : List (Scope Value)) :
    (range' ss.length ts.length).foldl (fun us i => us.modify i f) (ss ++ ts) = ss ++ ts.map f := by
  induction ts generalizing ss with
  | nil => rfl
  | cons t ts ih =>
    have h := ih (ss ++ [f t])
    rw [length_append, length_singleton, append_assoc, append_assoc,
      singleton_append, singleton_append] at h
    rw [length_cons, range'_succ, foldl_cons, modify_length_append, h, map_cons]

/-- What is sent to everyone is set on all machines, and kept. -/
lemma send_ofScopes (hv : v.kind.isValue = true) (s : Scope Value) :
    send name v .all (.ofScopes store active (s :: scopes) kept) =
      .ok () (.ofScopes store active ((s :: scopes).map (·.assign name v)) (kept.put name v)) := by
  have hreceive (i : Nat) (ss : List (Scope Value)) (hi : i < ss.length) :
      onMachine i (receive answer name v) (.ofScopes store active ss (kept.put name v)) =
        .ok () (.ofScopes store active (ss.modify i (·.assign name v)) (kept.put name v)) :=
    onMachine_ofScopes (receive_ofScopes answer hv hi)
  have hclients : (World.ofScopes store active (s :: scopes) kept).machines.size - 1 =
      scopes.length := by
    change (((s :: scopes).map Machine.ofScope).toArray).size - 1 = _
    rw [size_toArray, length_map, length_cons, Nat.add_sub_cancel]
  have hfold : (range scopes.length).foldl (fun ss i => ss.modify (i + 1) (·.assign name v))
      (s :: scopes) = s :: scopes.map (·.assign name v) := by
    have h := foldl_modify_range' (·.assign name v) [s] scopes
    rw [length_singleton, range'_eq_map_range, foldl_map] at h
    simp only [Nat.add_comm 1] at h
    exact h
  refine bind_eq rfl (bind_eq rfl ?_)
  rw [hclients]
  refine bind_eq (forIn_ofScopes (P := fun ss => ss.length = scopes.length + 1)
    (fun i hi ss hss => ⟨hreceive (i + 1) ss ?_, ?_⟩) (length_cons)) ?_
  · rw [hss]
    exact Nat.succ_lt_succ (mem_range.mp hi)
  · rw [length_modify, hss]
  · rw [hfold]
    exact hreceive 0 _ (Nat.zero_lt_succ _)

lemma join_ofScopes (hkept : ∀ x ∈ kept, x.2.kind.isValue = true) :
    join (.ofScopes store active scopes kept) =
      .ok (scopes.length - 1) (.ofScopes store active (scopes ++ [.ofVariables kept]) kept) := by
  have hsize : (World.ofScopes store active scopes kept).machines.size = scopes.length := by
    change ((scopes.map Machine.ofScope).toArray).size = _
    rw [size_toArray, length_map]
  have hpush : (modify fun w => { w with machines := w.machines.push (.ofVariables []) } : Run Unit)
      (.ofScopes store active scopes kept) = .ok () (.ofScopes store active (scopes ++ [[]]) kept) := by
    refine congrArg (EStateM.Result.ok ()) ?_
    unfold World.ofScopes
    dsimp only
    rw [push_toArray, map_append]
    rfl
  have hfold (sends : List (String × Value)) (s : Scope Value) :
      sends.foldl (fun ss x => ss.modify scopes.length (·.assign x.1 x.2)) (scopes ++ [s]) =
        scopes ++ [sends.foldl (fun s x => s.assign x.1 x.2) s] := by
    induction sends generalizing s with
    | nil => rfl
    | cons x sends ih => rw [foldl_cons, modify_length_append, ih, foldl_cons]
  have hset : (forIn kept PUnit.unit fun x _ => do
      onMachine scopes.length (setGlobal x.1 x.2)
      return .yield PUnit.unit : Run PUnit) (.ofScopes store active (scopes ++ [[]]) kept) =
        .ok ⟨⟩ (.ofScopes store active (kept.foldl
          (fun ss x => ss.modify scopes.length (·.assign x.1 x.2)) (scopes ++ [[]])) kept) :=
    forIn_ofScopes (P := fun ss => ss.length = scopes.length + 1)
      (fun x hx ss hss => ⟨onMachine_ofScopes (setGlobal_ofScopes (hkept x hx)
        (hss ▸ Nat.lt_succ_self _)), (length_modify ..).trans hss⟩)
      (length_append.trans rfl)
  rw [hfold] at hset
  refine bind_eq rfl (bind_eq rfl (bind_eq hpush ?_))
  rw [hsize]
  exact bind_eq hset rfl

/-- A machine gives the value of a variable of its mission. -/
lemma lookup_ofScopes_iff (hi : i < scopes.length) :
    onMachine i (lookup name) (.ofScopes store active scopes kept) =
      .ok v (.ofScopes store active scopes kept) ↔ Scope.find? scopes[i] name = some v := by
  have hm : (World.ofScopes store active scopes kept).machines[i]? = some (.ofScope scopes[i]) :=
    machine_ofScopes hi
  have hfind : ((Machine.ofScope scopes[i]).spaces.stack .mission).find? name =
      .ok (Scope.find? scopes[i] name) := by
    refine (Stack.find?_eq _ _ _).trans ?_
    rw [Scope.lookup, Option.none_or, ite_self]
  rw [lookup_onMachine_iff]
  constructor
  · rintro ⟨m, hm', hv⟩
    cases hm.symm.trans hm'
    exact Except.ok.inj (hfind.symm.trans hv)
  · intro hv
    exact ⟨_, hm, hfind.trans (congrArg Except.ok hv)⟩

lemma index?_natCast {n k : Nat} (hk : k < n) : index? n k = some k := by
  rw [index?, if_pos (Int.natCast_nonneg k), if_pos (Int.ofNat_lt.mpr hk), Int.toNat_natCast]

lemma on_client {α : Type} {m : Run α} {w : World} {k : Nat} (hk : k + 1 < w.machines.size) :
    on (.client k) m w = onMachine (k + 1) m w := by
  refine (bind_of_eq_ok (x := get) (a := w) rfl).trans ?_
  rw [index?_natCast (Nat.lt_sub_of_add_lt hk)]

end Run

/-! ### Runs of a network -/

/-- What happens in a network: a variable is sent to everyone, or a client joins. -/
inductive PublicEvent where
  | send (name : String) (v : Value)
  | join

namespace PublicEvent

def run : PublicEvent → Run Unit
  | .send name v => Run.send name v .all
  | .join => discard Run.join

def sent (events : List PublicEvent) : List (String × Value) :=
  events.filterMap fun
    | .send name v => some (name, v)
    | .join => none

def joins (events : List PublicEvent) : Nat :=
  events.countP fun
    | .send .. => false
    | .join => true

@[simp]
lemma sent_append (events events' : List PublicEvent) :
    sent (events ++ events') = sent events ++ sent events' :=
  filterMap_append

@[simp]
lemma sent_join (events : List PublicEvent) : sent (.join :: events) = sent events :=
  rfl

@[simp]
lemma joins_append (events events' : List PublicEvent) :
    joins (events ++ events') = joins events + joins events' :=
  countP_append

@[simp]
lemma joins_send (name : String) (v : Value) (events : List PublicEvent) :
    joins (.send name v :: events) = joins events :=
  rfl

@[simp]
lemma joins_join (events : List PublicEvent) : joins (.join :: events) = joins events + 1 := by
  unfold joins
  rw [countP_cons_of_pos rfl]

variable {events : List PublicEvent}

lemma exists_join {k : Nat} (hk : k < joins events) :
    ∃ before after, events = before ++ .join :: after ∧ joins before = k := by
  induction events generalizing k with
  | nil => cases hk
  | cons e events ih =>
    cases e with
    | send name v =>
      obtain ⟨before, after, rfl, rfl⟩ := ih hk
      exact ⟨.send name v :: before, after, rfl, rfl⟩
    | join =>
      rw [joins_join] at hk
      cases k with
      | zero => exact ⟨[], events, rfl, rfl⟩
      | succ k =>
        obtain ⟨before, after, rfl, rfl⟩ := ih (Nat.lt_of_succ_lt_succ hk)
        exact ⟨.join :: before, after, rfl, joins_join before⟩

/-- The variables of each machine, and what is kept, when an event has happened. -/
def step (state : List (Scope Value) × Table String Value) :
    PublicEvent → List (Scope Value) × Table String Value
  | .send name v => (state.1.map (·.assign name v), state.2.put name v)
  | .join => (state.1 ++ [.ofVariables state.2], state.2)

variable {store : Store} {scopes : List (Scope Value)} {kept : Table String Value}

lemma run_ofScopes {e : PublicEvent} (hscopes : scopes ≠ [])
    (hkept : ∀ x ∈ kept, x.2.kind.isValue = true) (he : ∀ x ∈ sent [e], x.2.kind.isValue = true) :
    e.run (.ofScopes store 0 scopes kept) =
      .ok () (.ofScopes store 0 (step (scopes, kept) e).1 (step (scopes, kept) e).2) := by
  cases e with
  | send name v =>
    obtain ⟨s, rest, rfl⟩ := exists_cons_of_ne_nil hscopes
    exact Run.send_ofScopes (he (name, v) mem_cons_self) s
  | join => exact bind_eq (Run.join_ofScopes hkept) rfl

lemma step_ne_nil (hscopes : scopes ≠ []) (e : PublicEvent) : (step (scopes, kept) e).1 ≠ [] := by
  cases e with
  | send name v => exact mt map_eq_nil_iff.mp hscopes
  | join => exact append_ne_nil_of_left_ne_nil hscopes _

lemma isValue_step {e : PublicEvent} (hkept : ∀ x ∈ kept, x.2.kind.isValue = true)
    (he : ∀ x ∈ sent [e], x.2.kind.isValue = true) :
    ∀ x ∈ (step (scopes, kept) e).2, x.2.kind.isValue = true := by
  intro x hx
  cases e with
  | send name v =>
    obtain hv | hx := Table.value_of_mem_put hx
    · exact hv ▸ he (name, v) mem_cons_self
    · exact hkept x hx
  | join => exact hkept x hx

lemma forM_ofScopes (hscopes : scopes ≠ []) (hkept : ∀ x ∈ kept, x.2.kind.isValue = true)
    (hevents : ∀ x ∈ sent events, x.2.kind.isValue = true) :
    (events.forM run : Run PUnit) (.ofScopes store 0 scopes kept) =
      .ok ⟨⟩ (.ofScopes store 0 (events.foldl step (scopes, kept)).1
        (events.foldl step (scopes, kept)).2) := by
  induction events generalizing scopes kept with
  | nil => rfl
  | cons e events ih =>
    rw [← singleton_append, sent_append, forall_mem_append] at hevents
    refine bind_eq (run_ofScopes hscopes hkept hevents.1) ?_
    exact ih (step_ne_nil hscopes e) (isValue_step hkept hevents.1) hevents.2

/-- What is kept is what was sent, by the spelling of the name. -/
lemma foldl_step_kept (events : List PublicEvent) :
    (events.foldl step (scopes, kept)).2 = (sent events).foldl (fun t x => t.put x.1 x.2) kept := by
  induction events generalizing scopes kept with
  | nil => rfl
  | cons e events ih => cases e <;> exact ih

lemma length_foldl_step (events : List PublicEvent) :
    (events.foldl step (scopes, kept)).1.length = scopes.length + joins events := by
  induction events generalizing scopes kept with
  | nil => rfl
  | cons e events ih =>
    cases e with
    | send name v => rw [foldl_cons, step, ih, length_map, joins_send]
    | join =>
      rw [foldl_cons, step, ih, length_append, length_singleton, joins_join,
        Nat.add_assoc, Nat.add_comm 1]

lemma getElem?_foldl_step {i : Nat} {s : Scope Value} (hs : scopes[i]? = some s)
    (events : List PublicEvent) : (events.foldl step (scopes, kept)).1[i]? =
      some ((sent events).foldl (fun s x => s.assign x.1 x.2) s) := by
  induction events generalizing scopes kept s with
  | nil => exact hs
  | cons e events ih =>
    cases e with
    | send name v =>
      refine ih ?_
      rw [getElem?_map, hs, Option.map_some]
    | join =>
      refine ih ?_
      rw [List.getElem?_append_left (List.getElem?_eq_some_iff.mp hs).1, hs]

lemma length_reached (events : List PublicEvent) :
    (events.foldl step ([[]], [])).1.length = joins events + 1 := by
  rw [length_foldl_step, length_singleton, Nat.add_comm]

/-- The variables of a client: what is sent after it joined, and before that what was kept. -/
lemma find?_client {before after : List PublicEvent} {s : Scope Value}
    (hs : ((before ++ .join :: after).foldl step ([[]], [])).1[joins before + 1]? = some s)
    (name : String) :
    s.find? name = (latest name (sent after)).or (latest name (tableOf (sent before))) := by
  rw [foldl_append, foldl_cons] at hs
  have hclient : (step (before.foldl step ([[]], [])) .join).1[joins before + 1]? =
      some (.ofVariables (tableOf (sent before))) := by
    change ((before.foldl step ([[]], [])).1 ++ [_])[joins before + 1]? = _
    rw [getElem?_append_right (Nat.le_of_eq (length_reached before)), length_reached,
      foldl_step_kept, Nat.sub_self]
    rfl
  rw [getElem?_foldl_step hclient] at hs
  cases hs
  rw [Scope.find?_foldl_assign, Scope.find?_ofVariables_eq]

def reached (store : Store) (events : List PublicEvent) : World :=
  .ofScopes store 0 (events.foldl step ([[]], [])).1 (events.foldl step ([[]], [])).2

lemma forM_eq_reached (store : Store) (hvalues : ∀ x ∈ sent events, x.2.kind.isValue = true) :
    (events.forM run : Run PUnit) { World.server true with store := store } =
      .ok ⟨⟩ (reached store events) := by
  change (events.forM run : Run PUnit) (.ofScopes store 0 [[]] []) = _
  exact forM_ofScopes (cons_ne_nil _ _) (fun _ hx => nomatch hx) hvalues

lemma size_reached (events : List PublicEvent) :
    (reached store events).machines.size = joins events + 1 := by
  change (((events.foldl step ([[]], [])).1.map Machine.ofScope).toArray).size = _
  rw [size_toArray, length_map, length_reached]

lemma lookup_server_iff (events : List PublicEvent) (name : String) (v : Value) :
    Run.on .server (Run.lookup name) (reached store events) = .ok v (reached store events) ↔
      latest name (sent events) = some v := by
  have hi : 0 < (events.foldl step ([[]], [])).1.length := by
    rw [length_reached]
    exact Nat.zero_lt_succ _
  have hserver : (events.foldl step ([[]], [])).1[0]? = _ := getElem?_foldl_step rfl events
  rw [getElem?_eq_getElem hi] at hserver
  refine (Run.lookup_ofScopes_iff hi).trans ?_
  rw [Option.some.inj hserver]
  exact Eq.congr_left (Scope.find?_ofVariables_eq _ _)

/-- A client gives what was sent last since it joined, or else the last of what was kept for it. -/
lemma lookup_client_iff (before after : List PublicEvent) (name : String) (v : Value) :
    Run.on (.client (joins before)) (Run.lookup name) (reached store (before ++ .join :: after)) =
        .ok v (reached store (before ++ .join :: after)) ↔
      (latest name (sent after)).or (latest name (tableOf (sent before))) = some v := by
  have hsize : (reached store (before ++ .join :: after)).machines.size = _ := size_reached _
  have hlength := length_reached (before ++ .join :: after)
  rw [joins_append, joins_join] at hsize hlength
  have hi : joins before + 1 < ((before ++ .join :: after).foldl step ([[]], [])).1.length := by omega
  rw [Run.on_client (by omega), ← find?_client (getElem?_eq_getElem hi) name]
  exact Run.lookup_ofScopes_iff hi

/-- A dedicated server and its clients, when variables were sent to everyone and clients joined. The
server knows what was sent last. All clients agree with it on a variable exactly if each of them
that got nothing under its name since it joined had been given what was sent last; this is so if
every variable is always spelled in the same way. -/
theorem public_variables_agree_iff (store : Store) (events : List PublicEvent)
    (hvalues : ∀ x ∈ sent events, x.2.kind.isValue = true) :
    ∃ w, (events.forM run : Run PUnit) { World.server true with store := store } = .ok ⟨⟩ w ∧
      w.machines.size = joins events + 1 ∧
      ∀ name v, latest name (sent events) = some v →
        Run.on .server (Run.lookup name) w = .ok v w ∧
        ((∀ k < joins events, Run.on (.client k) (Run.lookup name) w = .ok v w) ↔
          ∀ before after, events = before ++ .join :: after → latest name (sent after) = none →
            latest name (tableOf (sent before)) = some v) ∧
        ((∀ x ∈ sent events, ∀ y ∈ sent events, lower x.1 = lower y.1 → x.1 = y.1) →
          ∀ k < joins events, Run.on (.client k) (Run.lookup name) w = .ok v w) := by
  refine ⟨reached store events, forM_eq_reached store hvalues, size_reached events,
    fun name v hlatest => ?_⟩
  have hiff : (∀ k < joins events, Run.on (.client k) (Run.lookup name) (reached store events) =
        .ok v (reached store events)) ↔
      ∀ before after, events = before ++ .join :: after → latest name (sent after) = none →
        latest name (tableOf (sent before)) = some v := by
    constructor
    · rintro h before after rfl hnone
      have hor := (lookup_client_iff before after name v).mp (h _ ?_)
      · rwa [hnone, Option.none_or] at hor
      · rw [joins_append, joins_join]
        omega
    · intro h k hk
      obtain ⟨before, after, rfl, rfl⟩ := exists_join hk
      refine (lookup_client_iff before after name v).mpr ?_
      cases hafter : latest name (sent after) with
      | none => exact h before after rfl hafter
      | some u => rwa [sent_append, sent_join, latest_append, hafter] at hlatest
  refine ⟨(lookup_server_iff events name v).mpr hlatest, hiff, fun hspelled => hiff.mpr ?_⟩
  rintro before after rfl hnone
  rw [sent_append, sent_join] at hspelled hlatest
  rw [latest_append, hnone, Option.none_or] at hlatest
  rw [latest_tableOf (fun x hx y hy => hspelled x (mem_append_left _ hx) y
    (mem_append_left _ hy)), hlatest]

/-- A client that joins between two variables. -/
theorem public_variables_agree_two :
    ∃ w, ([.send "A" (.atom 0 (.number (some (.int 1)))), .join,
        .send "B" (.atom 1 (.number (some (.int 2))))].forM run : Run PUnit) (.server true) =
          .ok ⟨⟩ w ∧
      Run.on .server (Run.lookup "a") w = .ok (.atom 0 (.number (some (.int 1)))) w ∧
      Run.on (.client 0) (Run.lookup "a") w = .ok (.atom 0 (.number (some (.int 1)))) w := by
  obtain ⟨w, hrun, -, h⟩ := public_variables_agree_iff .empty
    [.send "A" (.atom 0 (.number (some (.int 1)))), .join,
      .send "B" (.atom 1 (.number (some (.int 2))))] (by decide)
  obtain ⟨hserver, -, hclients⟩ := h "a" (.atom 0 (.number (some (.int 1)))) rfl
  exact ⟨w, hrun, hserver, hclients (by decide +kernel) 0 (by decide)⟩

/-- A variable that is sent in two spellings: what a client gets when it joins is not what was sent
last. -/
theorem public_variables_disagree :
    ∃ w, ([.send "A" (.atom 0 (.number (some (.int 1)))),
        .send "a" (.atom 1 (.number (some (.int 2)))), .send "A" (.atom 2 (.number (some (.int 3)))),
        .join].forM run : Run PUnit) (.server true) = .ok ⟨⟩ w ∧
      Run.on .server (Run.lookup "a") w = .ok (.atom 2 (.number (some (.int 3)))) w ∧
      Run.on (.client 0) (Run.lookup "a") w = .ok (.atom 1 (.number (some (.int 2)))) w := by
  let before : List PublicEvent := [.send "A" (.atom 0 (.number (some (.int 1)))),
    .send "a" (.atom 1 (.number (some (.int 2)))), .send "A" (.atom 2 (.number (some (.int 3))))]
  have hvalues : ∀ x ∈ sent (before ++ [.join]), x.2.kind.isValue = true := by decide
  exact ⟨_, forM_eq_reached .empty hvalues, (lookup_server_iff _ _ _).mpr rfl,
    (lookup_client_iff before [] _ _).mpr rfl⟩

end PublicEvent

end ArmaScript
