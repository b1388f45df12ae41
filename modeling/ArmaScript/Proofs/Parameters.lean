import ArmaScript.Proofs.Declarations

/-!
# Parameters by position

An array of parameters lists names, names with a default, and empty texts for arguments that are
skipped. The parameters are put into the top scope one after the other, each with the argument at its
own place in the row. A default is written first and the argument over it, which changes nothing
else: a name that the top scope has just been given belongs to the top scope.
-/

namespace ArmaScript

open List

/-- What an array of parameters can list. -/
inductive Parameter where
  | skipped
  | plain (name : String)
  | optional (name : String) (default : Value)

namespace Parameter

def name? : Parameter → Option String
  | .skipped => none
  | .plain name => some name
  | .optional name _ => some name

/-- The names that are given values, in small letters. -/
def names (ps : List Parameter) : List String :=
  (ps.filterMap name?).map Text.lower

lemma names_cons (p : Parameter) (ps : List Parameter) :
    names (p :: ps) = (p.name?.map Text.lower).toList ++ names ps := by
  cases p <;> rfl

/-- The value that the name is given: the argument, or in the place of a missing argument and of
nothing the default. -/
def value? : Parameter → Option Value → Option Value
  | .skipped, _ => none
  | .plain _, argument => argument
  | .optional _ default, none => some default
  | .optional _ default, some v => some (if v.isNothing then default else v)

/-- Whether a name has neither an argument nor a default. -/
def lacks : Parameter → Option Value → Bool
  | .plain _, none => true
  | _, _ => false

/-- The stack in which the parameter has its value in the top scope. -/
def put (p : Parameter) (argument : Option Value) (s : Stack Value) : Stack Value :=
  match p.name?, p.value? argument with
  | some name, some v => Run.assigned s name v
  | _, _ => s

/-- Whether some name has neither an argument at its own place nor a default. -/
def Lacking (ps : List Parameter) (arguments : List Value) : Prop :=
  ∃ (i : Nat) (p : Parameter), ps[i]? = some p ∧ p.lacks arguments[i]? = true

/-- The stack in which all parameters have their values, each with the first argument that is
left. -/
def putAll : List Parameter → List Value → Stack Value → Stack Value
  | [], _, s => s
  | p :: ps, arguments, s => putAll ps arguments.tail (p.put arguments.head? s)

lemma lacking_cons {p : Parameter} {ps : List Parameter} {arguments : List Value} :
    Lacking (p :: ps) arguments ↔ p.lacks arguments.head? = true ∨ Lacking ps arguments.tail := by
  constructor
  · rintro ⟨i | i, p', hp, hlacks⟩
    · cases hp
      rw [head?_eq_getElem?]
      exact .inl hlacks
    · exact .inr ⟨i, p', hp, by rwa [getElem?_tail]⟩
  · rintro (hlacks | ⟨i, p', hp, hlacks⟩)
    · exact ⟨0, p, rfl, by rwa [← head?_eq_getElem?]⟩
    · exact ⟨i + 1, p', hp, by rwa [← getElem?_tail]⟩

lemma Lacking.length_le {ps : List Parameter} {arguments : List Value}
    (h : Lacking ps arguments) : arguments.length ≤ ps.length := by
  obtain ⟨i, p, hp, hlacks⟩ := h
  have hi : i < ps.length := (List.getElem?_eq_some_iff.mp hp).1
  by_contra hlong
  rw [getElem?_eq_getElem (by omega)] at hlacks
  cases p <;> cases hlacks

/-- How parameters are written: an empty text, a local name, or an array of two to four elements of
which the first is a local name and the second its default. -/
inductive Written (store : Store) : Value → Parameter → Prop
  | skipped (i : NodeId) {q : Quoted} (hempty : q.body = "") :
      Written store (.atom i (.string (some q))) .skipped
  | plain (i : NodeId) {q : Quoted} (hlocal : isLocalName q.body = true) :
      Written store (.atom i (.string (some q))) (.plain q.body)
  | optional {id i : NodeId} {q : Quoted} {default : Value} {rest : List Value}
      (hlocal : isLocalName q.body = true)
      (hparts : store.elements? id = some (.atom i (.string (some q)) :: default :: rest))
      (hrest : rest.length ≤ 2) : Written store (.array id) (.optional q.body default)

/-- The stack `s'` has the parameters in its top scope, each with the value for the argument at its
own place. All other variables of all scopes are as in the stack `s`. -/
structure Bound (ps : List Parameter) (arguments : List Value) (s s' : Stack Value) : Prop where
  length : s'.scopes.length = s.scopes.length
  named : ∀ {i : Nat} {p : Parameter} {name : String} {v : Value}, ps[i]? = some p →
    p.name? = some name → p.value? arguments[i]? = some v →
    s'.valueAt? (s.scopes.length - 1) name = some v
  others : ∀ (level : Nat) (x : String),
    (level + 1 = s.scopes.length → Text.lower x ∉ names ps) →
    s'.valueAt? level x = s.valueAt? level x

end Parameter

/-- The arguments that a value holds: the elements of an array are one argument each. -/
def Store.argumentsIn (store : Store) (source : Value) : List Value :=
  match store.content source with
  | .list vs => vs
  | _ => [source]

lemma Store.argumentsIn_array {store : Store} {a : NodeId} {vs : List Value}
    (h : store.elements? a = some vs) : store.argumentsIn (.array a) = vs := by
  rw [argumentsIn, content, h]

namespace Run

open Parameter (Written Lacking lacking_cons putAll)

variable {w0 w w' : World} {m : Machine} {s s' : Stack Value} {name : String} {v : Value}

lemma assigned_assigned (s : Stack Value) (name : String) (u v : Value) :
    assigned (assigned s name u) name v = assigned s name v := by
  have hput (t : Scope Value) : (t.assign name u).assign name v = t.assign name v :=
    Table.put_put t _ u v
  have hlength : (assigned s name u).scopes.length = s.scopes.length := length_modify ..
  rw [assigned, hlength]
  simp only [assigned, Stack.assignAt, modify_modify_eq]
  exact congrArg (fun f => Stack.mk (s.scopes.modify _ f)) (funext hput)

lemma assigned_ne_nil : (assigned s name v).scopes ≠ [] ↔ s.scopes ≠ [] := by
  simp [assigned, Stack.assignAt]

lemma setStack_stack (m : Machine) : m.spaces.setStack m.current m.stack = m.spaces := by
  obtain ⟨spaces, current, listeners⟩ := m
  cases current <;> rfl

/-- The world `w0` with another stack in the place of the one in which names are looked up, and
possibly with more values and places. -/
structure Restacked (w0 w : World) (m : Machine) (s : Stack Value) : Prop where
  start : w0.machines[w0.active]? = some m
  scopes : s.scopes ≠ []
  grows : Grows (restack w0 m.current s) w

namespace Restacked

lemma refl (hm : w0.machines[w0.active]? = some m) (hscopes : m.stack.scopes ≠ []) :
    Restacked w0 w0 m m.stack := by
  have hmachines : (restack w0 m.current m.stack).machines = w0.machines := by
    refine Array.ext_getElem? fun i => ?_
    rw [restack, Array.getElem?_modify]
    split_ifs with hi
    · subst hi
      rw [hm, Option.map_some, setStack_stack]
    · rfl
  exact ⟨hm, hscopes, hmachines.symm, rfl, rfl, fun _ h => h⟩

lemma mono (h : Restacked w0 w m s) (hgrows : Grows w w') : Restacked w0 w' m s :=
  ⟨h.start, h.scopes, h.grows.trans hgrows⟩

lemma machine (h : Restacked w0 w m s) :
    w.machines[w.active]? = some { m with spaces := m.spaces.setStack m.current s } :=
  machine_restack h.start h.grows

lemma stack (m : Machine) (s : Stack Value) :
    Machine.stack { m with spaces := m.spaces.setStack m.current s } = s := by
  rw [Machine.stack, Namespaces.stack_setStack, if_pos rfl]

/-- Another stack in the place of the one that was put there. -/
lemma again (h : Restacked w0 w m s) (hscopes : s'.scopes ≠ [])
    (hgrows : Grows (restack w m.current s') w') : Restacked w0 w' m s' := by
  refine ⟨h.start, hscopes, Grows.trans ?_ hgrows⟩
  rw [← restack_restack]
  exact grows_restack h.grows

lemma assignTop (h : Restacked w0 w m s) (name : String) (v : Value) :
    ∃ w', assignTop name v w = .ok () w' ∧ Restacked w0 w' m (assigned s name v) := by
  have hstack := stack m s
  refine ⟨_, assignTop_eq h.machine (hstack.symm ▸ h.scopes) name v, ?_⟩
  rw [hstack]
  exact h.again (assigned_ne_nil.mpr h.scopes) (.refl _)

lemma addPrivates (h : Restacked w0 w m s) (i : NodeId) {q : Quoted}
    (hlocal : isLocalName q.body = true) :
    ∃ j w', addPrivates [.atom i (.string (some q))] w = .ok () w' ∧
      Restacked w0 w' m (assigned s q.body (.atom j .nothing)) := by
  have hstack := stack m s
  obtain ⟨j, w', hadd, hgrows⟩ := exists_addPrivates h.machine (hstack.symm ▸ h.scopes) i hlocal
  rw [hstack] at hgrows
  exact ⟨j, w', hadd, h.again (assigned_ne_nil.mpr h.scopes) hgrows⟩

/-- A name that the top scope has just been given is assigned there. -/
lemma assign {u : Value} (h : Restacked w0 w m (assigned s name u))
    (hlocal : isLocalName name = true) (v : Value) : ∃ w', assign m.current name v w = .ok () w' ∧
      Restacked w0 w' m (assigned (assigned s name u) name v) := by
  have hassign := assign_assigned hlocal (assigned_ne_nil.mp h.scopes) u v
  rw [← stack m (assigned s name u)] at hassign
  refine ⟨_, modifyStack_eq_ok.mpr ⟨_, _, h.machine, hassign, rfl⟩, ?_⟩
  rw [stack]
  exact h.again (assigned_ne_nil.mpr h.scopes) (.refl _)

end Restacked

/-! ### One parameter -/

/-- Giving the default first is undone by giving the argument. -/
lemma exists_addDefault (h : Restacked w0 w m s) (i : NodeId) {q : Quoted}
    (hlocal : isLocalName q.body = true) (parameters default : Value) (rest : List Value)
    (argument : Option Value) :
    ∃ w', addDefault argument parameters (.atom i (.string (some q)) :: default :: rest) w =
      .ok () w' ∧ Restacked w0 w' m (assigned s q.body (argumentOr default argument)) := by
  obtain ⟨j, w1, hprivate, h1⟩ := h.addPrivates i hlocal
  obtain ⟨w2, hdefault, h2⟩ := h1.assign hlocal default
  obtain ⟨w3, htop, h3⟩ := h2.assignTop q.body (argumentOr default argument)
  rw [assigned_assigned, assigned_assigned] at h3
  refine ⟨w3, bind_eq hprivate ?_, h3⟩
  have hcurrent : current w1 = .ok m.current w1 :=
    current_eq_ok.mpr ⟨_, h1.machine, rfl, rfl⟩
  have hcontent : contentOf (.atom i (.string (some q))) w1 = .ok (.text q.body) w1 := rfl
  exact bind_eq hcontent (bind_eq hcurrent (bind_eq hdefault htop))

lemma stored_elements {id : NodeId} {vs : List Value} (h : w.store.elements? id = some vs) :
    stored (.elements id) w = .ok vs w := by
  refine stored_eq_ok.mpr ⟨w.store, ?_, rfl⟩
  refine bind_eq rfl ?_
  rw [h]
  rfl

lemma exists_placeOf (h : w.store.places.contains v.id = true) : ∃ p, placeOf v w = .ok p w := by
  rw [Std.HashMap.contains_eq_isSome_getElem?] at h
  obtain ⟨p, hp⟩ := Option.isSome_iff_exists.mp h
  refine ⟨p, stored_eq_ok.mpr ⟨w.store, bind_eq rfl ?_, rfl⟩⟩
  rw [hp]
  rfl

variable {p : Parameter} {argument : Option Value}

lemma addParam_plain {i : NodeId} {q : Quoted} (hlocal : isLocalName q.body = true)
    (parameters : Value) (argument : Option Value) :
    addParam parameters (.atom i (.string (some q))) argument = (do
      addPrivates [.atom i (.string (some q))]
      match argument with
      | some v => assignTop q.body v
      | none =>
        throw (.warning (← placeOf (.atom i (.string (some q))))
          (Parameter.missing ((← get).store.text (.atom i (.string (some q))))))) := by
  have hne : ((some q).map Quoted.body != some "") = true := by
    rw [Option.map_some, bne_iff_ne, Ne, Option.some_inj]
    rintro h
    rw [h] at hlocal
    exact absurd hlocal (by decide)
  exact if_pos hne

/-- A parameter is put into the top scope, unless it is a plain name without an argument. -/
lemma exists_addParam (h : Restacked w0 w m s) (hv : p.Written w0.store v) (parameters : Value)
    (hargument : p.lacks argument = false) :
    ∃ w', addParam parameters v argument w = .ok () w' ∧ Restacked w0 w' m (p.put argument s) := by
  cases hv with
  | skipped i hempty => exact ⟨w, congrFun (if_neg (by simp [hempty])) w, h⟩
  | @plain i q hlocal =>
    obtain _ | u := argument
    · cases hargument
    obtain ⟨j, w1, hprivate, h1⟩ := h.addPrivates i hlocal
    obtain ⟨w2, htop, h2⟩ := h1.assignTop q.body u
    rw [assigned_assigned] at h2
    refine ⟨w2, ?_, h2⟩
    rw [addParam_plain hlocal]
    exact bind_eq hprivate htop
  | @optional id i q default rest hlocal hparts hrest =>
    have helements : w.store.elements? id = _ := (congrFun h.grows.elements id).trans hparts
    have hlength : (2 ≤ rest.length + 1 + 1 && rest.length + 1 + 1 ≤ 4) = true := by
      simp only [Bool.and_eq_true, decide_eq_true_eq]
      omega
    obtain ⟨w', hdefault, h'⟩ := exists_addDefault h i hlocal parameters default rest argument
    refine ⟨w', bind_eq (stored_elements helements) ?_, ?_⟩
    · rw [length_cons, length_cons, hlength]
      exact hdefault
    · cases argument <;> exact h'

/-- A plain name without an argument is reported. -/
lemma exists_addParam_error (h : Restacked w0 w m s) (hv : p.Written w0.store v)
    (parameters : Value) (hplace : w0.store.places.contains v.id = true)
    (hargument : p.lacks argument = true) : ∃ place text w', addParam parameters v argument w =
      .error (.warning place (Parameter.missing text)) w' := by
  cases hv with
  | skipped | optional => cases hargument
  | @plain i q hlocal =>
    obtain _ | u := argument
    · obtain ⟨j, w1, hprivate, h1⟩ := h.addPrivates i hlocal
      obtain ⟨place, hp⟩ := exists_placeOf (h1.grows.places _ hplace)
      refine ⟨place, w1.store.text (.atom i (.string (some q))), w1, ?_⟩
      rw [addParam_plain hlocal]
      exact bind_eq hprivate (bind_of_eq_ok hp)
    · cases hargument

/-! ### All parameters -/

/-- The parameters in a row, each with the first argument that is left. -/
def addEach (parameters : Value) : List Value → List Value → Run Unit
  | [], _ => pure ()
  | v :: vs, arguments => do
    addParam parameters v arguments.head?
    addEach parameters vs arguments.tail

lemma forIn_zipIdx_eq_addEach (parameters : Value) (arguments listed : List Value) (k : Nat) :
    (do
      for x in listed.zipIdx k do
        addParam parameters x.1 arguments[x.2]? : Run Unit) =
      addEach parameters listed (arguments.drop k) := by
  induction listed generalizing k with
  | nil => rfl
  | cons v vs ih =>
    rw [addEach, head?_drop, tail_drop, ← ih (k + 1)]
    simp

lemma argumentsOf_eq {given : Option Value} {source : Value}
    (h : givenOrCalled given w = .ok source w) :
    argumentsOf given w = .ok (w.store.argumentsIn source) w := by
  refine bind_eq h ?_
  have hcontent : contentOf source w = .ok (w.store.content source) w := rfl
  refine bind_eq hcontent ?_
  rw [Store.argumentsIn]
  cases w.store.content source <;> rfl

lemma addParams_eq {n : NodeId} {given : Option Value} {arguments listed : List Value}
    (harguments : argumentsOf given w = .ok arguments w)
    (hlisted : w.store.elements? n = some listed) :
    addParams (.array n) given w =
      if arguments.length > listed.length then
        (do throw (.warning (← placeOf (.array n))
          (Parameter.tooMany arguments.length listed.length)) : Run Unit) w
      else addEach (.array n) listed arguments w := by
  refine bind_eq harguments (bind_eq (stored_elements hlisted) ?_)
  have heach := forIn_zipIdx_eq_addEach (.array n) arguments listed 0
  rw [drop_zero] at heach
  rw [← heach]
  split_ifs
  · rfl
  · rfl

variable {ps : List Parameter} {arguments listed : List Value}

lemma exists_addEach (hlisted : Forall₂ (Written w0.store) listed ps)
    (parameters : Value) (h : Restacked w0 w m s) (hlacks : ¬ Lacking ps arguments) :
    ∃ w', addEach parameters listed arguments w = .ok () w' ∧
      Restacked w0 w' m (putAll ps arguments s) := by
  induction hlisted generalizing w s arguments with
  | nil => exact ⟨w, rfl, h⟩
  | cons hv _ ih =>
    rw [lacking_cons, not_or, Bool.not_eq_true] at hlacks
    obtain ⟨w1, hadd, h1⟩ := exists_addParam h hv parameters hlacks.1
    obtain ⟨w2, heach, h2⟩ := ih h1 hlacks.2
    exact ⟨w2, bind_eq hadd heach, h2⟩

lemma exists_addEach_error (hlisted : Forall₂ (Written w0.store) listed ps)
    (parameters : Value) (hplaces : ∀ v ∈ listed, w0.store.places.contains v.id = true)
    (h : Restacked w0 w m s) (hlacks : Lacking ps arguments) :
    ∃ place text w', addEach parameters listed arguments w =
      .error (.warning place (Parameter.missing text)) w' := by
  induction hlisted generalizing w s arguments with
  | nil =>
    obtain ⟨i, p, hp, -⟩ := hlacks
    cases hp
  | @cons v p vs ps hv _ ih =>
    obtain ⟨hplace, hplaces⟩ := forall_mem_cons.mp hplaces
    by_cases hhead : p.lacks arguments.head? = true
    · obtain ⟨place, text, w', hadd⟩ := exists_addParam_error h hv parameters hplace hhead
      exact ⟨place, text, w', bind_of_eq_error hadd⟩
    · obtain ⟨w1, hadd, h1⟩ := exists_addParam h hv parameters (Bool.not_eq_true _ ▸ hhead)
      obtain ⟨place, text, w', heach⟩ := ih hplaces h1 ((lacking_cons.mp hlacks).resolve_left hhead)
      exact ⟨place, text, w', bind_eq hadd heach⟩

end Run

namespace Parameter

open Run

variable {w : World} {m : Machine} {ps : List Parameter} {arguments listed : List Value}

lemma length_put (p : Parameter) (argument : Option Value) (s : Stack Value) :
    (p.put argument s).scopes.length = s.scopes.length := by
  unfold put
  split
  · exact length_modify ..
  · rfl

variable {s : Stack Value}

lemma valueAt?_put {p : Parameter} {argument : Option Value} {level : Nat} {x : String}
    (hscopes : s.scopes ≠ []) (hx : level + 1 = s.scopes.length →
      ∀ name, p.name? = some name → Text.lower x ≠ Text.lower name) :
    (p.put argument s).valueAt? level x = s.valueAt? level x := by
  unfold put
  split
  · next name v hname _ =>
    rw [valueAt?_assigned hscopes, if_neg]
    rintro ⟨hlevel, heq⟩
    exact hx hlevel name hname heq
  · rfl

lemma bound_putAll (hscopes : s.scopes ≠ []) (hdistinct : (names ps).Nodup) :
    Bound ps arguments s (putAll ps arguments s) := by
  induction ps generalizing s arguments with
  | nil => exact ⟨rfl, fun h => absurd h (by simp), fun _ _ _ => rfl⟩
  | cons p ps ih =>
    rw [names_cons, nodup_append] at hdistinct
    obtain ⟨-, hdistinct', hfresh⟩ := hdistinct
    have hlength : (p.put arguments.head? s).scopes.length = s.scopes.length := length_put ..
    have hput : (p.put arguments.head? s).scopes ≠ [] := by
      rwa [← length_pos_iff, hlength, length_pos_iff]
    have hrest : Bound ps arguments.tail (p.put arguments.head? s) _ := ih hput hdistinct'
    obtain ⟨hscopes', hnamed, hothers⟩ := hrest
    rw [hlength] at hscopes' hnamed hothers
    refine ⟨hscopes', ?_, ?_⟩
    · rintro (_ | i) p' name v hp hname hv
      · cases hp
        rw [← head?_eq_getElem?] at hv
        have hname' : Text.lower name ∉ names ps := fun hmem =>
          hfresh _ (by simp [hname]) _ hmem rfl
        rw [putAll, hothers _ _ fun _ => hname', put, hname, hv]
        exact (valueAt?_assigned hscopes name name _).trans
          (if_pos ⟨Nat.sub_add_cancel (length_pos_iff.mpr hscopes), rfl⟩)
      · exact hnamed hp hname (by rwa [getElem?_tail])
    · intro level x hx
      rw [names_cons] at hx
      rw [putAll, hothers level x fun hlevel hmem => hx hlevel (mem_append_right _ hmem),
        valueAt?_put hscopes]
      exact fun hlevel name hname heq => hx hlevel (by simp [hname, heq])

section

variable {n : NodeId} {given : Option Value} (hgiven : argumentsOf given w = .ok arguments w)
  (helements : w.store.elements? n = some listed)

include hgiven helements

lemma exists_addParams_tooMany (hplace : w.store.places.contains n = true)
    (hlong : listed.length < arguments.length) : ∃ place, addParams (.array n) given w =
      .error (.warning place (tooMany arguments.length listed.length)) w := by
  obtain ⟨place, hp⟩ := exists_placeOf (v := .array n) hplace
  rw [addParams_eq hgiven helements, if_pos hlong]
  exact ⟨place, bind_of_eq_ok hp⟩

variable (hlisted : Forall₂ (Written w.store) listed ps)
  (hm : w.machines[w.active]? = some m) (hscopes : m.stack.scopes ≠ [])

include hlisted hm hscopes

lemma exists_addParams_missing (hplaces : ∀ v ∈ listed, w.store.places.contains v.id = true)
    (hlacks : Lacking ps arguments) :
    ∃ place text w', addParams (.array n) given w = .error (.warning place (missing text)) w' := by
  have hshort : arguments.length ≤ listed.length := hlisted.length_eq ▸ hlacks.length_le
  rw [addParams_eq hgiven helements, if_neg (Nat.not_lt.mpr hshort)]
  exact exists_addEach_error hlisted (.array n) hplaces (.refl hm hscopes) hlacks

lemma exists_addParams (hdistinct : (names ps).Nodup) (hshort : arguments.length ≤ listed.length)
    (hlacks : ¬ Lacking ps arguments) :
    ∃ w' s, addParams (.array n) given w = .ok () w' ∧ Restacked w w' m s ∧
      Bound ps arguments m.stack s := by
  obtain ⟨w', heach, h'⟩ := exists_addEach hlisted (.array n) (.refl hm hscopes) hlacks
  rw [addParams_eq hgiven helements, if_neg (Nat.not_lt.mpr hshort)]
  exact ⟨w', _, heach, h', bound_putAll hscopes hdistinct⟩

end

/-- Parameters are bound by position. Too many arguments are reported and change nothing, and so is a
plain name without an argument. Otherwise every name has in the top scope the argument at its own
place or its default, and nothing else changes. -/
theorem addParams_by_position {a n : NodeId} (hm : w.machines[w.active]? = some m)
    (hscopes : m.stack.scopes ≠ []) (harguments : w.store.elements? a = some arguments)
    (helements : w.store.elements? n = some listed)
    (hlisted : Forall₂ (Written w.store) listed ps) (hdistinct : (names ps).Nodup)
    (hplaces : ∀ v ∈ .array n :: listed, w.store.places.contains v.id = true) :
    (listed.length < arguments.length → ∃ place,
      addParams (.array n) (some (.array a)) w =
        .error (.warning place (tooMany arguments.length listed.length)) w) ∧
    (arguments.length ≤ listed.length → ¬ Lacking ps arguments → ∃ w' s,
      addParams (.array n) (some (.array a)) w = .ok () w' ∧ Restacked w w' m s ∧
        Bound ps arguments m.stack s) ∧
    (Lacking ps arguments → ∃ place text w',
      addParams (.array n) (some (.array a)) w = .error (.warning place (missing text)) w') := by
  obtain ⟨hplace, hplaces⟩ := forall_mem_cons.mp hplaces
  have hgiven : argumentsOf (some (.array a)) w = .ok arguments w := by
    rw [argumentsOf_eq (show givenOrCalled (some (.array a)) w = .ok (.array a) w from rfl),
      Store.argumentsIn_array harguments]
  exact ⟨exists_addParams_tooMany hgiven helements hplace,
    exists_addParams hgiven helements hlisted hm hscopes hdistinct,
    exists_addParams_missing hgiven helements hlisted hm hscopes hplaces⟩

/-- The parameters `["", "_a", ["_b", 5]]` and `["_a"]` at `0` and `3`, and the arguments
`[nil, 7, nil]` and `[7]` at `1` and `4`. -/
def sample : Store where
  nextId := 12
  places := Std.HashMap.insert ∅ 0 ⟨1, 1⟩ |>.insert 5 ⟨1, 2⟩ |>.insert 6 ⟨1, 6⟩ |>.insert 2 ⟨1, 12⟩
    |>.insert 3 ⟨2, 1⟩
  arrays := Std.HashMap.insert ∅ 0 ⟨some 0, []⟩ |>.insert 1 ⟨some 1, []⟩ |>.insert 2 ⟨some 2, []⟩
    |>.insert 3 ⟨some 3, []⟩ |>.insert 4 ⟨some 4, []⟩
  buffers := Std.HashMap.insert ∅ 0
      [.atom 5 (.string (some ⟨'"', ""⟩)), .atom 6 (.string (some ⟨'"', "_a"⟩)), .array 2]
    |>.insert 1 [.atom 7 .nothing, .atom 8 (.number (some (.int 7))), .atom 9 .nothing]
    |>.insert 2 [.atom 10 (.string (some ⟨'"', "_b"⟩)), .atom 11 (.number (some (.int 5)))]
    |>.insert 3 [.atom 6 (.string (some ⟨'"', "_a"⟩))]
    |>.insert 4 [.atom 8 (.number (some (.int 7)))]

lemma elements?_sample : sample.elements? 0 = some
      [.atom 5 (.string (some ⟨'"', ""⟩)), .atom 6 (.string (some ⟨'"', "_a"⟩)), .array 2] ∧
    sample.elements? 1 =
      some [.atom 7 .nothing, .atom 8 (.number (some (.int 7))), .atom 9 .nothing] ∧
    sample.elements? 2 =
      some [.atom 10 (.string (some ⟨'"', "_b"⟩)), .atom 11 (.number (some (.int 5)))] ∧
    sample.elements? 3 = some [.atom 6 (.string (some ⟨'"', "_a"⟩))] ∧
    sample.elements? 4 = some [.atom 8 (.number (some (.int 7)))] := by
  simp [sample, Store.elements?, Std.HashMap.getElem_insert]

theorem addParams_by_position_sample :
    ∃ w' s, addParams (.array 0) (some (.array 1)) (.single sample []) = .ok () w' ∧
      Restacked (.single sample []) w' (.ofVariables []) s ∧
      s.valueAt? 0 "_a" = some (.atom 8 (.number (some (.int 7)))) ∧
      s.valueAt? 0 "_b" = some (.atom 11 (.number (some (.int 5)))) := by
  obtain ⟨helements, harguments, hparts, -⟩ := elements?_sample
  have hlisted : Forall₂ (Written sample) _
      [.skipped, .plain "_a", .optional "_b" (.atom 11 (.number (some (.int 5))))] :=
    .cons (.skipped 5 (q := ⟨'"', ""⟩) rfl) (.cons (.plain 6 (q := ⟨'"', "_a"⟩) (by decide +kernel))
      (.cons (.optional (q := ⟨'"', "_b"⟩) (by decide +kernel) hparts (by decide)) .nil))
  obtain ⟨-, h, -⟩ := addParams_by_position (w := .single sample []) (m := .ofVariables []) rfl
    (by decide) harguments helements hlisted (by decide +kernel)
    (by simp [sample, World.single, Value.id])
  obtain ⟨w', s, hadd, hworld, hbound⟩ := h (by decide) (by
    rw [lacking_cons, lacking_cons, lacking_cons]
    rintro (h | h | h | ⟨i, p, hp, -⟩)
    · cases h
    · cases h
    · cases h
    · cases hp)
  exact ⟨w', s, hadd, hworld, hbound.named (i := 1) rfl rfl rfl, hbound.named (i := 2) rfl rfl rfl⟩

/-! ### Arguments on the left -/

lemma find?_paramsOf : ((Entry.candidates Entry.interpreted "params" 3).find?
    (·.signature.accepts [.thing .array, .keyword "params", .thing .array])).map (·.command) =
      some .paramsOf := by
  decide +kernel

/-- The command with arguments on its left does not look at them. -/
lemma outcomeOf_paramsOf (answer : Answer) (t : Tree) (tokens : List Value) (a i n : NodeId)
    (unknown : Value) :
    outcomeOf answer t tokens [.array a, .atom i (.keyword "params"), .array n] unknown = (do
      addParams (.array n) none
      some <$> nothing) :=
  outcomeOf_between t tokens i unknown rfl rfl (by decide +kernel) find?_paramsOf

lemma names_plain (words : List String) : names (words.map .plain) = words.map Text.lower := by
  simp [names, filterMap_map, Function.comp_def, name?]

lemma lacking_plain {words : List String} :
    Lacking (words.map .plain) arguments ↔ arguments.length < words.length := by
  constructor
  · rintro ⟨k, p, hp, hlacks⟩
    have hk : k < words.length := by simpa using (List.getElem?_eq_some_iff.mp hp).1
    cases hargument : arguments[k]? with
    | none => exact Nat.lt_of_le_of_lt (getElem?_eq_none_iff.mp hargument) hk
    | some v =>
      rw [hargument] at hlacks
      cases p <;> cases hlacks
  · intro h
    refine ⟨arguments.length, .plain words[arguments.length], by simp [h], ?_⟩
    rw [getElem?_eq_none (Nat.le_refl _)]
    rfl

/-- Names get the same values from two lists of arguments exactly if these are the same. -/
lemma Bound.eq_iff {words : List String} {s' : Stack Value} {called : List Value}
    (h : Bound (words.map .plain) called s s') (hcalled : called.length = words.length)
    (hlength : arguments.length = words.length) :
    (∀ (k : Nat) (word : String) (v : Value), words[k]? = some word → arguments[k]? = some v →
      s'.valueAt? (s.scopes.length - 1) word = some v) ↔ called = arguments := by
  have hnamed {k : Nat} {word : String} {v : Value} (hword : words[k]? = some word)
      (hv : called[k]? = some v) : s'.valueAt? (s.scopes.length - 1) word = some v :=
    h.named (p := .plain word) (by rw [getElem?_map, hword, Option.map_some]) rfl hv
  constructor
  · intro hvalues
    refine ext_getElem (hcalled.trans hlength.symm) fun k hk hk' => ?_
    have hword := getElem?_eq_getElem (hlength ▸ hk')
    exact Option.some_inj.mp ((hnamed hword (getElem?_eq_getElem hk)).symm.trans
      (hvalues k _ _ hword (getElem?_eq_getElem hk')))
  · rintro rfl k word v hword hv
    exact hnamed hword hv

/-- Arguments on the left are bound to the names exactly if they are the arguments of the call. -/
theorem left_arguments_bound_iff {a n : NodeId} {words : List String} {source : Value}
    (hm : w.machines[w.active]? = some m) (hscopes : m.stack.scopes ≠ [])
    (hthis : m.stack.find? "_this" = .ok (some source))
    (harguments : w.store.elements? a = some arguments)
    (helements : w.store.elements? n = some listed)
    (hlisted : Forall₂ (Written w.store) listed (words.map .plain))
    (hdistinct : (words.map Text.lower).Nodup) (hlength : arguments.length = words.length)
    (hplaces : ∀ v ∈ .array n :: listed, w.store.places.contains v.id = true)
    (answer : Answer) (t : Tree) (tokens : List Value) (i : NodeId) (unknown : Value) :
    (∃ o w' m', outcomeOf answer t tokens [.array a, .atom i (.keyword "params"), .array n] unknown w =
        .ok o w' ∧ w'.machines[w'.active]? = some m' ∧
          ∀ (k : Nat) (word : String) (v : Value), words[k]? = some word → arguments[k]? = some v →
            m'.stack.valueAt? (m.stack.scopes.length - 1) word = some v) ↔
      w.store.argumentsIn source = w.store.argumentsIn (.array a) := by
  obtain ⟨hplace, hplaces⟩ := forall_mem_cons.mp hplaces
  have hcalled : givenOrCalled none w = .ok source w :=
    (bind_of_eq_ok (current_eq_ok.mpr ⟨m, hm, rfl, rfl⟩)).trans
      ((bind_of_eq_ok (find?_eq_ok.mpr ⟨m, hm, hthis, rfl⟩)).trans rfl)
  have hgiven := argumentsOf_eq hcalled
  have hwords : listed.length = words.length := hlisted.length_eq.trans (length_map ..)
  rw [outcomeOf_paramsOf, Store.argumentsIn_array harguments]
  generalize w.store.argumentsIn source = called at hgiven
  have hfits (hshort : called.length = words.length) := exists_addParams hgiven helements hlisted hm
    hscopes (names_plain words ▸ hdistinct) (by omega) (by rw [lacking_plain]; omega)
  constructor
  · rintro ⟨o, w', m', houtcome, hm', hvalues⟩
    obtain ⟨⟨⟩, w₁, hadd, hnothing⟩ := bind_eq_ok.mp houtcome
    have hshort : called.length = words.length := by
      rcases Nat.lt_trichotomy called.length words.length with hlt | heq | hlt
      · obtain ⟨place, text, w₂, herror⟩ := exists_addParams_missing hgiven helements hlisted hm
          hscopes hplaces (lacking_plain.mpr hlt)
        cases herror.symm.trans hadd
      · exact heq
      · obtain ⟨place, herror⟩ := exists_addParams_tooMany hgiven helements hplace (by omega)
        cases herror.symm.trans hadd
    obtain ⟨w₂, s, hadd', hworld, hbound⟩ := hfits hshort
    cases hadd'.symm.trans hadd
    cases hnothing
    cases hworld.machine.symm.trans hm'
    rw [Restacked.stack] at hvalues
    exact (hbound.eq_iff hshort hlength).mp hvalues
  · rintro rfl
    obtain ⟨w', s, hadd, hworld, hbound⟩ := hfits hlength
    obtain ⟨j, w₂, hnothing, hgrows⟩ := exists_stored_atom .nothing w'
    refine ⟨_, w₂, _, (bind_of_eq_ok hadd).trans (map_eq_ok.mpr ⟨_, hnothing, rfl⟩),
      (hworld.mono hgrows).machine, ?_⟩
    rw [Restacked.stack]
    exact (hbound.eq_iff hlength hlength).mpr rfl

/-- The arguments `[7]` on the left are not bound if the argument of the call is nothing. -/
theorem left_arguments_bound_iff_nothing :
    ¬ ∃ o w' m', outcomeOf (fun _ => nothing) (.atom 12 .nothing) []
        [.array 4, .atom 12 (.keyword "params"), .array 3] (.atom 13 .nothing)
        (.single sample [("_this", .atom 7 .nothing)]) = .ok o w' ∧
      w'.machines[w'.active]? = some m' ∧
      m'.stack.valueAt? 0 "_a" = some (.atom 8 (.number (some (.int 7)))) := by
  obtain ⟨-, -, -, helements, harguments⟩ := elements?_sample
  have hthis : (Machine.ofVariables [("_this", .atom 7 .nothing)]).stack.find? "_this" =
      .ok (some (.atom 7 .nothing)) := by
    unfold Stack.find? Stack.levelOf
    rw [if_neg (by decide), if_pos (by decide +kernel)]
    exact congrArg Except.ok ((Table.get?_put ..).trans (if_pos rfl))
  have hlisted : Forall₂ (Written sample) [.atom 6 (.string (some ⟨'"', "_a"⟩))]
      (["_a"].map .plain) :=
    .cons (.plain 6 (by decide +kernel)) .nil
  have hiff := left_arguments_bound_iff (w := .single sample [("_this", .atom 7 .nothing)])
    (m := .ofVariables [("_this", .atom 7 .nothing)]) rfl (by decide) hthis harguments helements
    hlisted (by simp) rfl (by simp [sample, World.single, Value.id]) (fun _ => nothing) (.atom 12 .nothing) [] 12
    (.atom 13 .nothing)
  rintro ⟨o, w', m', houtcome, hm', hvalue⟩
  have hequal : sample.argumentsIn (.atom 7 .nothing) = sample.argumentsIn (.array 4) := hiff.mp ⟨o, w', m', houtcome, hm', by
    rintro (_ | k) word v hword hv
    · cases hword
      cases hv
      exact hvalue
    · cases hword⟩
  rw [Store.argumentsIn_array harguments] at hequal
  cases hequal

end Parameter
end ArmaScript
