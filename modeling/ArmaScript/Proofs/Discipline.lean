import ArmaScript.Proofs.Region
import ArmaScript.Proofs.Running

/-!
# Disciplines of evaluation

A script is evaluated in a few kinds of single steps: it reads, it changes the store or the network, it
assigns to a variable, it listens, it works on another machine, and it works in a scope of its own. A
discipline judges runs that use only what belongs to a region. If it allows these single steps, it allows
every evaluation, and what is returned belongs to the region. This is shown once, by the structure of
evaluation; what a discipline asks for in particular is then a matter of the single steps.
-/

namespace ArmaScript

open Stored List Judgement.Holds

/-- A stack whose variables have values of a region. -/
def Stack.Within (arrays : NodeId → Prop) (loud : Prop) (s : Stack Value) : Prop :=
  ∀ scope ∈ s.scopes, ∀ x ∈ scope, x.2.Within arrays loud

lemma Stack.Within.find? {arrays : NodeId → Prop} {loud : Prop} {s : Stack Value} {name : String}
    {v : Value} (h : s.Within arrays loud) (hv : s.find? name = .ok (some v)) :
    v.Within arrays loud := by
  obtain ⟨level, -, hv⟩ := except_bind_eq_ok.mp hv
  obtain ⟨scope, hscope, hget⟩ := Option.bind_eq_some_iff.mp (Except.ok.inj hv)
  obtain ⟨k, hk⟩ := Table.mem_of_get? hget
  exact h scope (mem_of_getElem? hscope) _ hk

/-- A machine whose variables have values of a region and which listens with code of the region. -/
structure Machine.Within (arrays : NodeId → Prop) (loud : Prop) (m : Machine) : Prop where
  stack : ∀ space, (m.spaces.stack space).Within arrays loud
  listeners : ∀ x ∈ m.listeners, x.2.Within arrays loud

lemma Region.within_everything (m : Machine) : m.Within everything.arrays everything.loud :=
  ⟨fun _ _ _ x _ => owns_everything x.2, fun x _ => owns_everything x.2⟩

/-- Whether a request leaves a scope behind: the code of a file does. -/
def Request.leavesScope : Request → Bool
  | .code body .. => body.isFile
  | .node _ => false
  | .statement _ => false

/-- What is asked for is allowed in a region. -/
def Request.Within (arrays : NodeId → Prop) (loud : Prop) : Request → Prop
  | .code body vars _ => Tree.QuietList loud body.children ∧ ∀ x ∈ vars, x.2.Within arrays loud
  | .node t => t.Quiet loud
  | .statement t => t.Quiet loud

namespace Run

/-- Runs a computation in a namespace, in a scope of its own. -/
def inScope {α : Type} (space : Space) (vars : List (String × Value)) (m : Run α) : Run α := do
  let previous ← current
  setCurrent space
  modifyStack space fun s => return s.push vars
  let a ← m
  modifyStack space (·.pop)
  setCurrent previous
  return a

/-- What is done in a scope of its own, step by step. -/
lemma inScope_eq_ok {α : Type} {w w' : World} {space : Space} {vars : List (String × Value)} {m : Run α} {a : α}
    (h : inScope space vars m w = .ok a w') :
    ∃ w1 w2 w3 w4 previous, setCurrent space w = .ok () w1 ∧
      modifyStack space (fun s => return s.push vars) w1 = .ok () w2 ∧ m w2 = .ok a w3 ∧
      modifyStack space (·.pop) w3 = .ok () w4 ∧ setCurrent previous w4 = .ok () w' := by
  obtain ⟨previous, w0, hcurrent, hrest⟩ := bind_eq_ok.mp h
  obtain ⟨-, -, -, rfl⟩ := current_eq_ok.mp hcurrent
  obtain ⟨⟨⟩, w1, hset, hrest⟩ := bind_eq_ok.mp hrest
  obtain ⟨⟨⟩, w2, hpush, hrest⟩ := bind_eq_ok.mp hrest
  obtain ⟨b, w3, hm, hrest⟩ := bind_eq_ok.mp hrest
  obtain ⟨⟨⟩, w4, hpop, hrest⟩ := bind_eq_ok.mp hrest
  obtain ⟨⟨⟩, w5, hback, hrest⟩ := bind_eq_ok.mp hrest
  obtain ⟨rfl, rfl⟩ := pure_eq_ok.mp hrest
  exact ⟨w1, w2, w3, w4, previous, hset, hpush, hm, hpop, hback⟩

/-- What succeeds in a scope of its own, and leaves a scope to be taken away, succeeds around it. -/
lemma exists_entered {w : World} {m : Machine} (hm : w.machines[w.active]? = some m) (space : Space)
    (vars : List (String × Value)) :
    ∃ w1, w1.store = w.store ∧ w1.machines[w1.active]? = some { m with
        spaces := m.spaces.setStack space ((m.spaces.stack space).push vars), current := space } ∧
      ∀ {α : Type} {x : Run α} {a : α} {w2 : World} {m2 : Machine} {s : Stack Value},
        x w1 = .ok a w2 → w2.machines[w2.active]? = some m2 →
        (m2.spaces.stack space).pop = .ok s →
        ∃ w', inScope space vars x w = .ok a w' ∧ w'.store = w2.store ∧
          w'.machines[w'.active]? = some { m2 with
            spaces := m2.spaces.setStack space s, current := m.current } := by
  obtain ⟨w0, hset, hstore0, hm0⟩ := exists_setCurrent hm space
  obtain ⟨w1, hpush, hstore1, hm1⟩ :=
    exists_modifyStack hm0 space (f := fun s => return s.push vars) rfl
  refine ⟨w1, hstore1.trans hstore0, hm1, fun hx hm2 hs => ?_⟩
  obtain ⟨w3, hpop, hstore3, hm3⟩ := exists_modifyStack hm2 space (f := (·.pop)) hs
  obtain ⟨w4, hback, hstore4, hm4⟩ := exists_setCurrent hm3 m.current
  refine ⟨w4, ?_, hstore4.trans hstore3, hm4⟩
  exact bind_eq (current_eq_ok.mpr ⟨m, hm, rfl, rfl⟩) (bind_eq hset
    (bind_eq hpush (bind_eq hx (bind_eq hpop
      (bind_of_eq_ok hback)))))

/-- Code that is not a file runs its statements in a scope of its own. -/
lemma runCode_eq_inScope (answer : Answer) (id : NodeId) (children : List Tree)
    (vars : List (String × Value)) (space : Space) :
    runCode answer ⟨id, children, false⟩ vars space = inScope space vars (do
      let outcome ← nothing
      stored (.copyPlace id outcome.id)
      (children.filter Tree.isBase).foldlM (fun _ t => do valueOf (← answer (.node t))) outcome) := by
  simp only [runCode, inScope, bind_assoc, Bool.false_eq_true, if_false]

end Run

/-- A way to judge runs that allows the single steps of evaluation, as far as they use what belongs to a
region. -/
structure Discipline (R : Region) extends Judgement Fault World where
  get : Holds get fun w => ∀ {b : Nat} {vs : List Value}, R.buffers b →
    w.store.buffers[b]? = some vs → ∀ v ∈ vs, R.Owns v
  /-- What an operation gives is known because it stays in the region, or because all there is belongs to
  the region. -/
  stored {α : Type} {m : Stored α} {post : α → Prop} (hm : ∀ s, Confined R s m post)
    (hall : (∀ v, R.Owns v) → (∀ b, R.buffers b) → ∀ a, post a) : Holds (Run.stored m) post
  machine : Holds Run.machine (Machine.Within R.arrays R.loud)
  assign (space : Space) (name : String) {v : Value} (hv : R.Owns v) :
    Holds (Run.assign space name v) fun _ => True
  assignTop (name : String) {v : Value} (hv : R.Owns v) :
    Holds (Run.assignTop name v) fun _ => True
  /-- The names of variables that may be sent. -/
  Public : String → Prop
  public_of_not_local {name : String} : isLocalName name = false → Public name
  setGlobal {name : String} (hname : Public name) {v : Value} (hv : R.Owns v) :
    Holds (Run.setGlobal name v) fun _ => True
  listen (name : String) {v : Value} (hv : R.Owns v) :
    Holds (Run.modifyMachine fun m => { m with listeners := m.listeners.put name v }) fun _ => True
  network (hloud : R.loud) (f : World → Option Network) :
    Holds (modify fun w => { w with network := f w }) fun _ => True
  onMachine {α : Type} {k : Nat} (hk : R.machines k) {m : Run α} {post : α → Prop} :
    Holds m post → Holds (Run.onMachine k m) post
  inScope {α : Type} (space : Space) {vars : List (String × Value)} (hvars : ∀ x ∈ vars, R.Owns x.2)
    {m : Run α} {post : α → Prop} : Holds m post → Holds (Run.inScope space vars m) post

/-- A run that follows a discipline and gives only results with a property. -/
abbrev Discipline.Follows {R : Region} (D : Discipline R) {α : Type} (m : Run α) (post : α → Prop) :
    Prop :=
  D.Holds m post

/-- A run that follows a discipline, whatever it gives. -/
abbrev Discipline.Allows {R : Region} (D : Discipline R) {α : Type} (m : Run α) : Prop :=
  D.Holds m fun _ => True

namespace Run

section

variable {α : Type} {R : Region} {D : Discipline R} {v : Value} {i : NodeId} {post : α → Prop}

/-! ### Single steps -/

lemma follows_changed {m : Stored α} (hm : ∀ s, Confined R s m fun _ => True) :
    D.Allows (stored m) :=
  D.stored hm fun _ _ _ => trivial

lemma follows_made {m : Stored Value} (hm : ∀ s, Confined R s m R.Owns) :
    D.Follows (stored m) R.Owns :=
  D.stored hm fun h _ => h

variable {given : Option Value} {left right space name : Value}

lemma follows_lift {x : Except Fault α} (h : ∀ a, x = .ok a → post a) :
    D.Follows (lift x) post := by
  cases x with
  | ok a => exact .pure (h a rfl)
  | error e => exact .throw e

lemma follows_current : D.Allows current :=
  D.machine.seq_pure

lemma follows_find? (space : Space) (name : String) :
    D.Follows (find? space name) fun o => ∀ v, o = some v → R.Owns v := by
  refine D.machine.bind fun m hm => follows_lift fun o ho v hv => ?_
  exact (hm.stack space).find? (hv ▸ ho)

lemma follows_atom {a : Atom} (ha : a.isPublic = false) : D.Follows (stored (.atom a)) R.Owns :=
  follows_made fun _ => confined_atom ha

lemma follows_nothing : D.Follows nothing R.Owns :=
  follows_atom rfl

lemma follows_valueOfName (space : Space) (name : String) :
    D.Follows (valueOfName space name) R.Owns := by
  refine (follows_find? space name).bind fun o ho => ?_
  split
  · exact .pure (ho _ rfl)
  · exact follows_nothing

lemma follows_readVariable (space : Space) (name : String) :
    D.Follows (readVariable space name) R.Owns :=
  (follows_valueOfName space name).bind fun _ hv => .ite (fun _ => .pure hv) fun _ => .throw _

lemma follows_valueOf (hv : R.Owns v) : D.Follows (valueOf v) R.Owns := by
  unfold valueOf
  split
  · exact follows_current.bind fun space _ => follows_readVariable space _
  · exact .pure hv

lemma follows_placeOf (v : Value) : D.Allows (placeOf v) :=
  follows_changed fun _ => confined_placeOf _

lemma follows_contentOf (hv : R.Owns v) :
    D.Follows (contentOf v) fun c => ∀ vs, c = .list vs → ∀ u ∈ vs, R.Owns u :=
  D.stored (fun _ => confined_contentOf hv) fun h _ _ _ _ u _ => h u

lemma follows_elements (hi : R.arrays i) :
    D.Follows (stored (.elements i)) fun vs => ∀ v ∈ vs, R.Owns v :=
  D.stored (fun _ => confined_elements hi) fun h _ _ v _ => h v

lemma follows_element (hi : R.arrays i) (k : Int) : D.Follows (stored (.element i k)) R.Owns :=
  follows_made fun _ => confined_element hi k

lemma follows_array {vs : List Value} (hvs : ∀ v ∈ vs, R.Owns v) :
    D.Follows (stored (.array vs)) R.Owns :=
  follows_made fun _ => confined_array hvs

lemma follows_copyPlace (source target : NodeId) :
    D.Allows (stored (.copyPlace source target)) :=
  follows_changed fun _ => confined_copyPlace source target

lemma follows_failAt (v : Value) (text : String) : D.Follows (failAt v text : Run α) post :=
  (follows_placeOf v).bind fun _ _ => .throw _

lemma follows_meaningless (statement : Tree) : D.Follows (meaningless statement : Run α) post :=
  (follows_changed fun _ => confined_placeOf _).bind fun _ _ => .throw _

/-! ### Parameters and operators -/

lemma follows_privateName (v : Value) : D.Allows (privateName v) := by
  unfold privateName
  split
  · split
    · exact .throw _
    · exact .ite (fun _ => .pure trivial) fun _ => follows_failAt _ _
  · exact follows_failAt _ _

lemma follows_addPrivates (names : List Value) : D.Allows (addPrivates names) := by
  refine (forIn fun v _ => ?_).seq_pure
  refine (follows_privateName v).bind fun name _ => follows_nothing.bind fun this hthis => ?_
  exact (D.assignTop name hthis).seq_pure

lemma owns_argumentOr {default : Value} (hdefault : R.Owns default)
    (hgiven : ∀ v, given = some v → R.Owns v) : R.Owns (argumentOr default given) := by
  unfold argumentOr
  split
  · split
    · exact hdefault
    · exact hgiven _ rfl
  · exact hdefault

lemma follows_addDefault (parameter : Value) {parts : List Value}
    (hgiven : ∀ v, given = some v → R.Owns v) (hparts : ∀ v ∈ parts, R.Owns v) :
    D.Allows (addDefault given parameter parts) := by
  unfold addDefault
  split
  · obtain ⟨hname, hrest⟩ := forall_mem_cons.mp hparts
    have hdefault := hrest _ mem_cons_self
    refine (follows_addPrivates _).bind fun _ _ => (follows_contentOf hname).bind fun c _ => ?_
    split
    · refine follows_current.bind fun space _ => ?_
      refine (D.assign space _ hdefault).bind fun _ _ => ?_
      exact D.assignTop _ (owns_argumentOr hdefault hgiven)
    · exact .throw _
  · exact follows_failAt _ _

lemma follows_argumentsOf (hgiven : ∀ v, given = some v → R.Owns v) :
    D.Follows (argumentsOf given) fun vs => ∀ v ∈ vs, R.Owns v := by
  have hthis : D.Follows callArgument R.Owns :=
    follows_current.bind fun space _ => follows_valueOfName space _
  have hsource : D.Follows (givenOrCalled given) R.Owns := by
    unfold givenOrCalled
    split
    · exact .ite (fun _ => hthis) fun _ => .pure (hgiven _ rfl)
    · exact hthis
  refine hsource.bind fun source hsource => (follows_contentOf hsource).bind fun c hc => ?_
  split
  · exact .pure (hc _ rfl)
  · exact .pure (forall_mem_singleton.mpr hsource)

lemma follows_addParam (parameters : Value) {parameter : Value} (hparameter : R.Owns parameter)
    {argument : Option Value} (hargument : ∀ v, argument = some v → R.Owns v) :
    D.Allows (addParam parameters parameter argument) := by
  unfold addParam
  split
  · refine .ite (fun _ => (follows_addPrivates _).bind fun _ _ => ?_) fun _ => .pure trivial
    split
    · exact D.assignTop _ (hargument _ rfl)
    · exact (follows_placeOf _).bind fun _ _ => D.get.bind fun _ _ => .throw _
  · refine (follows_elements hparameter.of_array).bind fun parts hparts => ?_
    exact .ite (fun _ => follows_addDefault _ hargument hparts) fun _ => follows_failAt _ _
  · exact follows_failAt _ _

lemma follows_addParams {parameters : Value} (hparameters : R.Owns parameters)
    (hgiven : ∀ v, given = some v → R.Owns v) :
    D.Allows (addParams parameters given) := by
  unfold addParams
  split
  · refine (follows_argumentsOf hgiven).bind fun arguments harguments => ?_
    refine (follows_elements hparameters.of_array).bind fun listed hlisted => ?_
    refine .ite (fun _ => (follows_placeOf _).bind fun _ _ => .throw_bind _ _) fun _ => ?_
    refine (forIn fun p hp => ?_).seq_pure
    have hp := hlisted _ (fst_mem_of_mem_zipIdx hp)
    exact (follows_addParam _ hp fun a ha => harguments a (mem_of_getElem? ha)).seq_pure
  · exact .throw _

lemma follows_ofBool (b : Bool) : D.Follows (ofBool b) R.Owns :=
  follows_atom rfl

lemma follows_ofNum (n : Num) : D.Follows (ofNum n) R.Owns :=
  follows_atom rfl

lemma follows_ofInt (n : Int) : D.Follows (ofInt n) R.Owns :=
  follows_ofNum _

lemma follows_numberOf (hv : R.Owns v) : D.Allows (numberOf v) := by
  refine (follows_contentOf hv).bind fun c _ => ?_
  split
  · exact .pure trivial
  · exact .throw _

lemma follows_textOf (hv : R.Owns v) : D.Allows (textOf v) := by
  refine (follows_contentOf hv).bind fun c _ => ?_
  split
  · exact .pure trivial
  · exact .throw _

lemma follows_spaceOf (hv : R.Owns v) : D.Allows (spaceOf v) :=
  (follows_textOf hv).bind fun _ _ => follows_lift fun _ _ => trivial

lemma follows_compare (op : Comparison) (hleft : R.Owns left) (hright : R.Owns right) :
    D.Follows (compare op left right) R.Owns := by
  refine (follows_contentOf hleft).bind fun l _ => (follows_contentOf hright).bind fun r _ => ?_
  split <;> first | exact follows_ofBool _ | exact .throw _

lemma follows_compute (op : Arithmetic) (hleft : R.Owns left) (hright : R.Owns right) :
    D.Follows (compute op left right) R.Owns := by
  refine (follows_numberOf hleft).bind fun m _ => (follows_numberOf hright).bind fun n _ => ?_
  split <;> first
    | exact (follows_lift fun _ _ => trivial).bind fun _ _ => follows_ofNum _
    | exact follows_ofNum _
    | exact .throw _

lemma follows_joinTexts (left : Value) (hright : R.Owns right) :
    D.Follows (joinTexts left right) R.Owns := by
  unfold joinTexts
  split
  · exact (follows_textOf hright).bind fun _ _ => follows_atom rfl
  · exact .throw _

lemma follows_toArray (hv : R.Owns v) : D.Follows (toArray v) R.Owns := by
  refine (follows_textOf hv).bind fun text _ => ?_
  exact (mapM fun _ _ => follows_ofInt _).bind fun _ hvs => follows_array hvs

lemma follows_charOf (c : Content) : D.Allows (charOf c) :=
  (follows_lift fun _ _ => trivial).bind fun _ _ =>
    .guard (.throw _) fun _ => .guard (.throw _) fun _ => .pure trivial

lemma follows_toText (hi : R.arrays i) : D.Follows (toText i) R.Owns := by
  refine (follows_elements hi).bind fun vs hvs => ?_
  have hchars : ∀ v ∈ vs, D.Allows (do charOf (← contentOf v)) :=
    fun v hv => (follows_contentOf (hvs v hv)).bind fun c _ => follows_charOf c
  exact (mapM hchars).bind fun _ _ => follows_atom rfl

lemma follows_select (hi : R.arrays i) (hv : R.Owns v) : D.Follows (select i v) R.Owns := by
  refine (follows_contentOf hv).bind fun c _ => ?_
  split
  · refine (follows_lift fun _ _ => trivial).bind fun k _ => ?_
    refine (follows_elements hi).bind fun vs hvs => ?_
    split
    · rename_i u hu
      obtain ⟨j, -, hj⟩ := Option.bind_eq_some_iff.mp hu
      exact .pure (hvs u (mem_of_getElem? hj))
    · exact follows_failAt _ _
  · exact .throw_bind _ _

lemma follows_comparable (c : Content) : D.Allows (stored (.comparable c)) :=
  follows_changed fun _ => confined_comparable c

lemma follows_selectRange {range : NodeId} (hi : R.arrays i) (hrange : R.arrays range) :
    D.Follows (selectRange i range) R.Owns := by
  refine (follows_element hrange 0).bind fun v hv => (follows_contentOf hv).bind fun start _ => ?_
  refine (follows_element hrange 1).bind fun v hv => (follows_contentOf hv).bind fun count _ => ?_
  refine (follows_elements hi).bind fun vs hvs => (follows_comparable _).bind fun first _ => ?_
  refine .guard (follows_failAt _ _) fun _ => ?_
  refine (follows_comparable _).bind fun n _ => ?_
  refine (follows_lift fun _ _ => trivial).bind fun last _ => ?_
  split
  · refine follows_array fun v hv => hvs v ?_
    exact mem_of_mem_drop (mem_of_mem_take hv)
  · exact .throw _

lemma follows_plainContent (hv : R.Owns v) : D.Allows (plainContent v) := by
  refine (follows_contentOf hv).bind fun c _ => ?_
  split
  · exact .throw _
  · exact .pure trivial

lemma follows_subtractArrays {left right : NodeId} (hleft : R.arrays left)
    (hright : R.arrays right) : D.Follows (subtractArrays left right) R.Owns := by
  refine (follows_elements hright).bind fun removed hremoved => ?_
  have hcontents : ∀ v ∈ removed, D.Allows (do return (v.id, ← plainContent v)) :=
    fun v hv => (follows_plainContent (hremoved v hv)).seq_pure
  refine (mapM hcontents).bind fun removed _ => ?_
  refine (follows_elements hleft).bind fun vs hvs => ?_
  refine (filterM fun v hv => ?_).bind fun kept hkept => ?_
  · exact (follows_plainContent (hvs v hv)).seq_pure
  · exact follows_array fun v hv => hvs v (hkept v hv)

lemma follows_holds (hi : R.arrays i) (v : Value) : D.Allows (holds i v) :=
  D.get.bind fun _ _ => (follows_elements hi).seq_pure

lemma follows_find (hi : R.arrays i) (v : Value) : D.Allows (find i v) := by
  refine D.get.bind fun w _ => (follows_elements hi).bind fun vs _ => ?_
  split <;> exact .pure trivial

lemma follows_length (hi : R.arrays i) : D.Allows (stored (.length i)) :=
  follows_changed fun _ => confined_length hi

lemma follows_pushBack (hi : R.arrays i) (hv : R.Owns v) : D.Allows (pushBack i v) :=
  (follows_changed fun _ => confined_append hi hv).bind fun _ _ =>
    (follows_length hi).seq_pure

lemma follows_nameOf (command : String) (v : Value) : D.Allows (nameOf command v) :=
  .ite (fun _ => follows_failAt _ _) fun _ => .pure trivial

lemma follows_setVariable (hspace : R.Owns space) (hi : R.arrays i) :
    D.Allows (setVariable space i) := by
  refine (follows_elements hi).bind fun vs _ => .guard (follows_failAt _ _) fun _ => ?_
  refine (follows_element hi 0).bind fun name hname => (follows_nameOf _ name).bind fun _ _ => ?_
  refine (follows_element hi 1).bind fun v hv => (follows_spaceOf hspace).bind fun s _ => ?_
  exact (follows_textOf hname).bind fun text _ => D.assign s text hv

lemma follows_getVariable (hspace : R.Owns space) (hname : R.Owns name) :
    D.Follows (getVariable space name) R.Owns := by
  refine (follows_placeOf name).discard.bind fun _ _ => ?_
  refine (follows_spaceOf hspace).bind fun s _ => ?_
  exact (follows_textOf hname).bind fun text _ => follows_readVariable s text

lemma follows_getVariableOr (hspace : R.Owns space) (hi : R.arrays i) :
    D.Follows (getVariableOr space i) R.Owns := by
  refine (follows_elements hi).bind fun vs _ => .guard (follows_failAt _ _) fun _ => ?_
  refine (follows_element hi 0).bind fun name hname => (follows_nameOf _ name).bind fun _ _ => ?_
  refine (follows_getVariable hspace hname).bind fun v hv => ?_
  exact .ite (fun _ => follows_element hi 1) fun _ => .pure hv

lemma follows_listen {code : Value} (hname : R.Owns name) (hcode : R.Owns code) :
    D.Allows (listen name code) := by
  refine D.get.bind fun w _ => .guard (.throw _) fun _ => ?_
  exact (follows_textOf hname).bind fun text _ => D.listen text hcode

end

/-! ### Code, loops and choices -/

end Run

/-- Answers to all requests, those to run a file apart, that follow a discipline if what they are asked
for is allowed. -/
def Answer.Follows {R : Region} (D : Discipline R) (answer : Answer) : Prop :=
  ∀ r : Request, r.leavesScope = false → r.Within R.arrays R.loud → D.Follows (answer r) R.Owns

namespace Run

section

variable {α : Type} {R : Region} {D : Discipline R} {v : Value} {i : NodeId} {answer : Answer}
  (hanswer : answer.Follows D)
include hanswer

lemma follows_code (hv : R.Owns v) {vars : List (String × Value)}
    (hvars : ∀ x ∈ vars, R.Owns x.2) (space : Space) :
    D.Follows (code answer v vars space) R.Owns := by
  unfold code
  split
  · cases hv with
    | code hcs => exact hanswer _ rfl ⟨hcs, hvars⟩
  · exact .throw _

lemma follows_plainCode (hv : R.Owns v) : D.Follows (plainCode answer v) R.Owns :=
  follows_code hanswer hv (forall_mem_nil _) _

omit hanswer in
lemma follows_isFalse (hv : R.Owns v) : D.Allows (isFalse v) := by
  refine (follows_contentOf hv).bind fun c _ => ?_
  split <;> exact .pure trivial

variable {condition body outcome : Value}

lemma follows_whileLoop {next : Option Value} (hcondition : R.Owns condition)
    (hbody : R.Owns body) (hnext : ∀ v, next = some v → R.Owns v) (fuel : Nat)
    (houtcome : R.Owns outcome) :
    D.Follows (whileLoop answer condition body next fuel outcome) R.Owns := by
  induction fuel generalizing outcome with
  | zero => exact .throw _
  | succ fuel ih =>
    refine (follows_plainCode hanswer hcondition).bind fun v hv => ?_
    refine (follows_isFalse hv).bind fun b _ => .ite (fun _ => .pure houtcome) fun _ => ?_
    refine (follows_plainCode hanswer hbody).bind fun outcome houtcome => ?_
    split
    · refine (follows_plainCode hanswer (hnext _ rfl)).discard.bind fun _ _ => ?_
      exact ih houtcome
    · exact ih houtcome

lemma follows_whileDo (hcondition : R.Owns condition) (hbody : R.Owns body) :
    D.Follows (whileDo answer condition body) R.Owns := by
  refine follows_nothing.bind fun outcome houtcome => ?_
  exact follows_whileLoop hanswer hcondition hbody (by nofun) _ houtcome

lemma follows_forSpecDo {parts : NodeId} (hparts : R.arrays parts) (hbody : R.Owns body) :
    D.Follows (forSpecDo answer parts body) R.Owns := by
  refine (follows_element hparts 0).bind fun start hstart => ?_
  refine (follows_element hparts 1).bind fun condition hcondition => ?_
  refine (follows_element hparts 2).bind fun increment hincrement => ?_
  refine follows_nothing.bind fun outcome houtcome => (follows_copyPlace _ _).bind fun _ _ => ?_
  refine (follows_plainCode hanswer hstart).discard.bind fun _ _ => ?_
  exact follows_whileLoop hanswer hcondition hbody hincrement.some _ houtcome

omit hanswer in
lemma follows_required {o : Option α} {post : α → Prop} (h : ∀ a, o = some a → post a) :
    D.Follows (required o) post := by
  cases o with
  | none => exact .throw _
  | some a => exact .pure (h a rfl)

omit hanswer in
lemma follows_bound (c : Content) : D.Allows (bound c) := by
  unfold bound
  split
  · exact .pure trivial
  · exact .throw _

lemma follows_countLoop (name : String) (hbody : R.Owns body) (step : Int) (rounds : Nat)
    (k : Int) (houtcome : R.Owns outcome) :
    D.Follows (countLoop answer name body step rounds k outcome) R.Owns := by
  induction rounds generalizing k outcome with
  | zero => exact .pure houtcome
  | succ rounds ih =>
    refine (follows_atom rfl).bind fun n hn => ?_
    refine (follows_code hanswer hbody (forall_mem_singleton.mpr hn) _).bind ?_
    exact fun outcome houtcome => ih _ houtcome

lemma follows_forDo {name step : Value} {first last : Option Value} (hname : R.Owns name)
    (hfirst : ∀ v, first = some v → R.Owns v) (hlast : ∀ v, last = some v → R.Owns v)
    (hstep : R.Owns step) (hbody : R.Owns body) :
    D.Follows (forDo answer name first last step body) R.Owns := by
  refine (follows_contentOf hname).bind fun counter _ => ?_
  refine (follows_required hfirst).bind fun first hfirst => ?_
  refine (follows_contentOf hfirst).bind fun first _ => ?_
  refine (follows_required hlast).bind fun last hlast => ?_
  refine (follows_contentOf hlast).bind fun last _ => ?_
  refine (follows_contentOf hstep).bind fun step _ => ?_
  refine follows_nothing.bind fun outcome houtcome => (follows_copyPlace _ _).bind fun _ _ => ?_
  refine (follows_bound first).bind fun first _ => (follows_bound last).bind fun last _ => ?_
  refine (follows_bound step).bind fun step _ => .guard (.throw _) fun _ => ?_
  split
  · exact follows_countLoop hanswer _ hbody _ _ _ houtcome
  · exact .throw _

lemma follows_eachLoop (hbody : R.Owns body) {buffer : Nat} (hbuffer : R.buffers buffer)
    (fuel k : Nat) (houtcome : R.Owns outcome) :
    D.Follows (eachLoop answer body buffer fuel k outcome) R.Owns := by
  induction fuel generalizing k outcome with
  | zero => exact .throw _
  | succ fuel ih =>
    refine D.get.bind fun w hw => ?_
    split
    · exact .pure houtcome
    · rename_i v hv
      obtain ⟨vs, hvs, hv⟩ := Option.bind_eq_some_iff.mp hv
      have hv := hw hbuffer hvs v (mem_of_getElem? hv)
      refine (follows_atom rfl).bind fun n hn => ?_
      have hvars : ∀ x ∈ [("_x", v), ("_forEachIndex", n)], R.Owns x.2 :=
        forall_mem_cons.mpr ⟨hv, forall_mem_singleton.mpr hn⟩
      exact (follows_code hanswer hbody hvars _).bind fun outcome houtcome => ih _ houtcome

lemma follows_forEach (hbody : R.Owns body) (hi : R.arrays i) :
    D.Follows (forEach answer body i) R.Owns :=
  follows_nothing.bind fun _ houtcome =>
    (D.stored (fun _ => confined_bufferOf hi) fun _ h => h).bind fun _ hbuffer =>
      follows_eachLoop hanswer hbody hbuffer _ _ houtcome

lemma follows_choose {first : Value} {second : Option Value} (hcondition : R.Owns condition)
    (hfirst : R.Owns first) (hsecond : ∀ v, second = some v → R.Owns v) :
    D.Follows (choose answer condition first second) R.Owns := by
  refine (follows_contentOf hcondition).bind fun c _ => ?_
  split
  · refine .ite (fun _ => follows_plainCode hanswer hfirst) fun _ => ?_
    split
    · exact follows_plainCode hanswer (hsecond _ rfl)
    · exact follows_nothing
  · exact .throw _

end

/-- A line of a switch with code of a region. -/
def Branch.Within (arrays : NodeId → Prop) (loud : Prop) : Branch → Prop
  | .default body => body.Within arrays loud
  | .case condition body =>
    condition.Within arrays loud ∧ ∀ v, body = some v → v.Within arrays loud

section

variable {α : Type} {R : Region} {D : Discipline R} {v : Value} {i : NodeId} {answer : Answer}
  (hanswer : answer.Follows D)
include hanswer

variable {t node statement : Tree} {left right otherwise outcome unknown : Value}
  {tokens values : List Value}

lemma follows_switchValue (ht : t.Quiet R.loud) : D.Follows (switchValue answer t) R.Owns := by
  unfold switchValue
  split
  · exact (hanswer (.statement _) rfl ht).bind fun v hv => follows_valueOf hv
  · exact follows_valueOf ht.ofTree

omit hanswer in
lemma quietList_base {loud : Prop} (ht : t.Quiet loud) : Tree.QuietList loud t.base :=
  fun c hc => ht.children c (mem_filter.mp hc).1

lemma follows_branch (id : NodeId) (hasDefault : Bool) {line : Tree} (hline : line.Quiet R.loud) :
    D.Follows (branch answer id hasDefault line) (Branch.Within R.arrays R.loud) := by
  have hplace {id : NodeId} {text : String} :
      D.Follows (do throw (.error (← stored (.placeOf id)) text))
        (Branch.Within R.arrays R.loud) :=
    (follows_changed fun _ => confined_placeOf id).bind fun _ _ => .throw _
  refine (mapM fun t ht =>
    follows_switchValue hanswer (quietList_base hline t ht)).bind fun values hvalues => ?_
  split
  · exact .throw _
  · obtain ⟨hhead, hrest⟩ := forall_mem_cons.mp hvalues
    cases hhead with
    | switchOf hsubject =>
      refine .ite (fun _ => .ite (fun _ => ?_) fun _ => ?_) fun _ => ?_
      · exact (follows_changed fun _ => confined_placeOf id).bind fun _ _ => .throw_bind _ _
      · split
        · exact .pure hsubject
        · exact .throw _
      · split
        · exact .pure ⟨hsubject, nofun⟩
        · refine .ite (fun _ => .pure ⟨hsubject, Value.Within.some ?_⟩) fun _ => .throw _
          exact hrest _ (mem_cons_of_mem _ mem_cons_self)
        · exact .throw _
  · exact hplace

lemma follows_branches (id : NodeId) {lines : List Tree} (hlines : Tree.QuietList R.loud lines) :
    D.Follows (branches answer id lines) fun bs => ∀ b ∈ bs, b.Within R.arrays R.loud := by
  refine .foldlM (fun done line hline hdone => ?_) nofun
  refine (follows_branch hanswer id _ (hlines line hline)).bind fun b hb => .pure ?_
  exact forall_mem_append.mpr ⟨hdone, forall_mem_singleton.mpr hb⟩

lemma follows_runCases (subject : Value) {cases : List Branch}
    (hcases : ∀ b ∈ cases, b.Within R.arrays R.loud) (falling : Bool) :
    D.Follows (runCases answer subject cases falling) fun o => ∀ v, o = some v → R.Owns v := by
  have hrun {body : Value} (hbody : R.Owns body) :
      D.Follows (do return some (← plainCode answer body))
        fun o => ∀ v, o = some v → R.Owns v :=
    (follows_plainCode hanswer hbody).bind fun v hv => .pure hv.some
  induction cases generalizing falling with
  | nil => exact .pure nofun
  | cons b rest ih =>
    obtain ⟨hb, hrest⟩ := forall_mem_cons.mp hcases
    cases b with
    | default _ => exact ih hrest falling
    | case condition body =>
      unfold runCases
      split
      · exact hrun (hb.2 _ rfl)
      · refine (follows_valueOf hb.1).bind fun v _ => D.get.bind fun w _ => ?_
        refine .ite (fun _ => ?_) fun _ => ih hrest _
        split
        · exact hrun (hb.2 _ rfl)
        · exact ih hrest true

lemma follows_switchDo (subject : Value) (id : NodeId) {lines : List Tree}
    (hlines : Tree.QuietList R.loud lines) :
    D.Follows (switchDo answer subject id lines) R.Owns := by
  refine (follows_branches hanswer id hlines).bind fun branches hbranches => ?_
  refine (follows_runCases hanswer subject hbranches false).bind fun o ho => ?_
  split
  · exact .pure (ho _ rfl)
  · split
    · rename_i body hbody
      obtain ⟨b, hb, hdefault⟩ := exists_of_findSome?_eq_some hbody
      cases b with
      | default body =>
        cases hdefault
        exact follows_plainCode hanswer (hbranches _ hb)
      | case _ _ => cases hdefault
    · exact follows_atom rfl

lemma follows_logic (op : Logic) (hleft : R.Owns left) (hright : R.Owns right) :
    D.Follows (logic answer op left right) R.Owns := by
  have hcombine {outcome : Value} (houtcome : R.Owns outcome) : D.Follows (do
      stored (.boolean (combine op (truth (← contentOf left)) (truth (← contentOf outcome)))))
        R.Owns :=
    (follows_contentOf hleft).bind fun _ _ => (follows_contentOf houtcome).bind fun _ _ =>
      follows_atom rfl
  unfold logic
  split
  · refine (follows_plainCode hanswer hright).bind fun outcome houtcome => ?_
    exact .guard (follows_failAt _ _) fun _ => hcombine houtcome
  · exact hcombine hright

lemma follows_unary (c : Command) (hv : R.Owns v) : D.Follows (unary answer c v) R.Owns := by
  unfold unary
  split
  · exact follows_made fun _ => confined_unaryHelper ‹_› hv
  · split
    · exact (follows_addParams hv (by simp)).bind fun _ _ => follows_nothing
    · exact follows_plainCode hanswer hv
    · exact (follows_numberOf hv).bind fun _ _ => follows_ofNum _
    · refine (follows_numberOf hv).bind fun _ _ => ?_
      exact (follows_lift fun _ _ => trivial).bind fun _ _ => follows_ofInt _
    · refine (follows_changed fun _ => confined_reverse hv.of_array).bind fun _ _ => ?_
      exact follows_nothing
    · exact (follows_length hv.of_array).bind fun _ _ => follows_ofInt _
    · exact follows_toArray hv
    · exact follows_toText hv.of_array
    · exact .throw _

lemma follows_binary (c : Command) (hleft : R.Owns left) (hright : R.Owns right) :
    D.Follows (binary answer c left right) fun o => ∀ v, o = some v → R.Owns v := by
  have hsome {m : Run Value} (hm : D.Follows m R.Owns) :
      D.Follows (do return some (← m)) fun o => ∀ v, o = some v → R.Owns v :=
    hm.bind fun v hv => .pure hv.some
  unfold binary
  split
  · exact hsome (follows_made fun _ => confined_binaryHelper ‹_› hleft hright)
  · split
    · cases hleft with
      | withOf hspace =>
        refine (follows_spaceOf hspace).bind fun space _ => ?_
        exact hsome (follows_code hanswer hright (forall_mem_nil _) space)
    · exact hsome follows_nothing
    · exact hsome (follows_forEach hanswer hleft hright.of_array)
    · cases hleft with
      | whileOf hcondition => exact hsome (follows_whileDo hanswer hcondition hright)
    · cases hleft with
      | forOf hname hfirst hlast hstep =>
        exact hsome (follows_forDo hanswer hname hfirst hlast hstep hright)
    · cases hleft with
      | forSpecOf hparts => exact hsome (follows_forSpecDo hanswer hparts.of_array hright)
    · cases hright with
      | code hlines =>
        refine hsome (follows_switchDo hanswer _ _ fun t ht => ?_)
        exact hlines t (mem_filter.mp ht).1
    · cases hleft with
      | ifOf hcondition =>
        refine (follows_element hright.of_array 0).bind fun first hfirst => ?_
        refine (follows_element hright.of_array 1).bind fun second hsecond => ?_
        exact hsome (follows_choose hanswer hcondition hfirst hsecond.some)
    · cases hleft with
      | ifOf hcondition =>
        cases hright with
        | elseOf hfirst hsecond =>
          exact hsome (follows_choose hanswer hcondition hfirst hsecond.some)
    · cases hleft with
      | ifOf hcondition => exact hsome (follows_choose hanswer hcondition hright (by nofun))
    · exact hsome follows_nothing
    · exact (follows_addParams hright (by simp)).bind fun _ _ => hsome follows_nothing
    · exact hsome (follows_code hanswer hright (forall_mem_singleton.mpr hleft) _)
    · exact hsome (follows_compare _ hleft hright)
    · exact hsome (follows_compute _ hleft hright)
    · exact hsome (follows_logic hanswer _ hleft hright)
    · exact hsome (follows_joinTexts _ hright)
    · refine (follows_textOf hright).bind fun r _ => (follows_textOf hleft).bind fun l _ => ?_
      exact hsome (follows_ofInt _)
    · refine (follows_changed fun _ => confined_setBy hleft.of_array hright.of_array).bind ?_
      exact fun _ _ => hsome follows_nothing
    · refine (follows_contentOf hright).bind fun n _ => ?_
      refine (follows_changed fun _ => confined_resize hleft.of_array n).bind fun _ _ => ?_
      exact hsome follows_nothing
    · exact (follows_holds hright.of_array _).bind fun b _ => hsome (follows_ofBool b)
    · exact hsome (follows_select hleft.of_array hright)
    · exact hsome (follows_selectRange hleft.of_array hright.of_array)
    · exact (follows_find hleft.of_array _).bind fun k _ => hsome (follows_ofInt k)
    · exact (follows_pushBack hleft.of_array hright).bind fun k _ => hsome (follows_ofInt k)
    · refine (follows_holds hleft.of_array _).bind fun b _ => ?_
      refine .ite (fun _ => hsome (follows_ofInt _)) fun _ => ?_
      exact (follows_pushBack hleft.of_array hright).bind fun k _ => hsome (follows_ofInt k)
    · refine (follows_elements hright.of_array).bind fun vs hvs => ?_
      refine (follows_changed fun _ => confined_appendAll hleft.of_array hvs).bind fun _ _ => ?_
      exact hsome follows_nothing
    · refine (follows_elements hleft.of_array).bind fun us hus => ?_
      refine (follows_elements hright.of_array).bind fun vs hvs => ?_
      have hjoined := forall_mem_append.mpr ⟨hus, hvs⟩
      refine D.stored (fun _ => (confined_array hjoined).bind fun v hv => .pure hv.some) ?_
      exact fun h _ _ v _ => h v
    · exact hsome (follows_subtractArrays hleft.of_array hright.of_array)
    · refine (follows_setVariable hleft hright.of_array).bind fun _ _ => ?_
      exact hsome follows_nothing
    · exact hsome (follows_getVariable hleft hright)
    · exact hsome (follows_getVariableOr hleft hright.of_array)
    · exact (follows_listen hleft hright).bind fun _ _ => .pure nofun
    · exact .throw _

/-! ### Public variables -/

variable {name : String}

lemma follows_receive (hname : D.Public name) (hv : R.Owns v) :
    D.Allows (receive answer name v) := by
  refine (D.setGlobal hname hv).bind fun _ _ => D.machine.bind fun m hm => ?_
  split
  · rename_i body hbody
    obtain ⟨k, hk⟩ := Table.mem_of_get? hbody
    refine (follows_atom rfl).bind fun text htext => ?_
    have hpair : ∀ u ∈ [text, v], R.Owns u :=
      forall_mem_cons.mpr ⟨htext, forall_mem_singleton.mpr hv⟩
    refine (follows_array hpair).bind fun this hthis => ?_
    exact (follows_code hanswer (hm.listeners _ hk) (forall_mem_singleton.mpr hthis) _).discard
  · exact .pure trivial

lemma follows_broadcast (hloud : R.loud) (hname : D.Public name) (hv : R.Owns v)
    (audience : Audience) : D.Allows (broadcast answer name v audience) := by
  have hreceive (k : Nat) : D.Allows (onMachine k (receive answer name v)) :=
    D.onMachine (R.machines_of_loud hloud k) (follows_receive hanswer hname hv)
  refine D.get.bind fun w _ => ?_
  split
  · refine (D.network hloud _).bind fun _ _ => ?_
    refine (forIn fun k _ => ?_).bind fun _ _ => hreceive 0
    exact (hreceive (k + 1)).seq_pure
  · exact hreceive 0
  · refine (follows_lift fun _ _ => trivial).bind fun k _ => ?_
    split
    · exact hreceive _
    · exact .throw _

lemma follows_sendVariable (hloud : R.loud) (hname : isLocalName name = false)
    (audience : Audience) : D.Allows (sendVariable answer name audience) := by
  refine D.get.bind fun w _ => .guard (.throw _) fun _ => ?_
  refine (follows_find? _ _).bind fun o ho => ?_
  split
  · exact follows_broadcast hanswer hloud (D.public_of_not_local hname) (ho _ rfl) _
  · exact .throw _

lemma follows_publicVariable (hloud : R.loud) (statement : Tree) (name : Value)
    (audience : Audience) :
    D.Allows (publicVariable answer statement name audience) := by
  unfold publicVariable
  split
  · refine .guard (follows_meaningless _) fun hname => ?_
    exact follows_sendVariable hanswer hloud (Bool.eq_false_iff.mpr hname) _
  · exact follows_meaningless _

lemma follows_publicVariableClient (hloud : R.loud) (statement : Tree) {client name : Value}
    (hclient : R.Owns client) (hname : R.Owns name) (clientKind : Kind) :
    D.Allows (publicVariableClient answer statement client name clientKind) := by
  unfold publicVariableClient
  refine .guard (follows_meaningless _) fun _ => (follows_textOf hname).bind fun text _ => ?_
  refine .guard (follows_meaningless _) fun hname => (follows_contentOf hclient).bind fun c _ => ?_
  exact follows_sendVariable hanswer hloud (Bool.eq_false_iff.mpr hname) _

omit hanswer in
/-- A value of a region is a word that sends a public variable only if the region allows it. -/
lemma loud_of_isPublic {word : Value} (hword : R.Owns word)
    (h : word.isKeyword "publicVariable" = true ∨ word.isKeyword "publicVariableServer" = true ∨
      word.isKeyword "publicVariableClient" = true) : R.loud := by
  cases hword with
  | atom ha =>
    refine ha.resolve_right ?_
    simp only [Value.isKeyword] at h
    simp only [Atom.isPublic, Bool.or_eq_false_iff]
    rintro ⟨⟨hall, hserver⟩, hclient⟩
    obtain h | h | h := h
    · rw [hall] at h
      cases h
    · rw [hserver] at h
      cases h
    · rw [hclient] at h
      cases h
  | _ => simp [Value.isKeyword] at h

/-! ### Statements -/

omit hanswer in
lemma follows_declareVariable (hnode : node.Quiet R.loud) (hotherwise : R.Owns otherwise) :
    D.Follows (declareVariable node otherwise) R.Owns := by
  unfold declareVariable
  split
  · split
    · exact .throw _
    · refine (follows_atom rfl).bind fun text _ => (follows_addPrivates _).bind fun _ _ => ?_
      refine (follows_changed fun _ => confined_fresh).bind fun _ _ => .pure ?_
      exact .privateOf (.atom (.inr rfl))
    · exact .pure hotherwise
  · exact .pure hotherwise

omit hanswer in
lemma follows_declare (hnode : node.Quiet R.loud) (hv : R.Owns v) (hotherwise : R.Owns otherwise) :
    D.Follows (declare node v otherwise) R.Owns := by
  unfold declare
  split
  · exact (follows_addPrivates _).bind fun _ _ => .pure hotherwise
  · refine (follows_elements hv.of_array).bind fun vs _ => ?_
    exact (follows_addPrivates _).bind fun _ _ => .pure hotherwise
  · exact follows_declareVariable hnode hotherwise

omit hanswer in
lemma follows_assignedName (target : Tree) (left : Value) :
    D.Allows (assignedName target left) := by
  unfold assignedName
  split
  · exact .pure trivial
  · split
    · exact .throw _
    · exact .pure trivial
    · exact .pure trivial

omit hanswer in
lemma follows_assignTo (statement target : Tree) (left : Value) {value : Value}
    (hright : R.Owns right) (hvalue : R.Owns value) :
    D.Follows (assignTo statement target left right value) R.Owns := by
  refine (follows_assignedName target left).bind fun name _ => ?_
  split
  · refine .guard (follows_meaningless _) fun _ => follows_current.bind fun space _ => ?_
    exact (D.assign _ _ hvalue).bind fun _ _ => .pure hright
  · exact follows_meaningless _

lemma follows_runOther (statement : Tree) {nodes : List Tree}
    (hnodes : Tree.QuietList R.loud nodes) (htokens : ∀ v ∈ tokens, R.Owns v)
    (hvalues : ∀ v ∈ values, R.Owns v) (houtcome : R.Owns outcome) :
    D.Follows (runOther answer statement nodes tokens values outcome) R.Owns := by
  unfold runOther
  split
  · simp only [forall_mem_cons] at hnodes htokens hvalues
    obtain ⟨hword, htoken, -⟩ := htokens
    refine .ite (fun h => ?_) fun _ => .ite (fun h => ?_) fun _ => .ite (fun _ => ?_) fun _ => ?_
    · have hloud := loud_of_isPublic hword (.inl h)
      exact (follows_publicVariable hanswer hloud _ _ _).bind fun _ _ => .pure houtcome
    · have hloud := loud_of_isPublic hword (.inr (.inl h))
      exact (follows_publicVariable hanswer hloud _ _ _).bind fun _ _ => .pure houtcome
    · exact follows_declare hnodes.2.1 hvalues.2.1 houtcome
    · exact follows_meaningless _
  · simp only [forall_mem_cons] at htokens hvalues
    obtain ⟨hleft, hword, hright, -⟩ := htokens
    refine .ite (fun _ => ?_) fun _ => .ite (fun h => ?_) fun _ => ?_
    · exact follows_assignTo _ _ _ hright hvalues.2.2.1
    · have hloud := loud_of_isPublic hword (.inr (.inr h))
      refine (follows_publicVariableClient hanswer hloud _ hleft hright _).bind fun _ _ => ?_
      exact .pure houtcome
    · exact follows_meaningless _
  · exact .pure (hvalues _ mem_cons_self)
  · exact follows_meaningless _

lemma follows_part (ht : t.Quiet R.loud) :
    D.Follows (part answer t) fun p => R.Owns p.1 ∧ R.Owns p.2 := by
  refine (hanswer (.node t) rfl ht).bind fun token htoken => ?_
  exact (follows_valueOf htoken).bind fun v hv => .pure ⟨htoken, hv⟩

lemma follows_outcomeOf (hstatement : statement.Quiet R.loud) (htokens : ∀ v ∈ tokens, R.Owns v)
    (hvalues : ∀ v ∈ values, R.Owns v) (hunknown : R.Owns unknown) :
    D.Follows (outcomeOf answer statement tokens values unknown)
      fun o => ∀ v, o = some v → R.Owns v := by
  unfold outcomeOf
  split
  · split
    · simp only [forall_mem_cons] at hvalues
      exact (follows_unary hanswer _ hvalues.2.1).map fun v hv => hv.some
    · simp only [forall_mem_cons] at hvalues
      exact follows_binary hanswer _ hvalues.1 hvalues.2.2.1
    · exact .throw _
  · refine map ?_ fun v (hv : R.Owns v) => hv.some
    exact follows_runOther hanswer _ (quietList_base hstatement) htokens hvalues hunknown

omit hanswer in
lemma follows_checkOutcome (statement : Tree) (hunknown : R.Owns unknown) {outcome : Option Value}
    (houtcome : ∀ v, outcome = some v → R.Owns v) :
    D.Follows (checkOutcome statement unknown outcome) R.Owns := by
  unfold checkOutcome
  split
  · exact .throw _
  · rename_i v hv
    have hv : R.Owns v := by
      split at hv
      · exact hunknown.some v hv
      · exact houtcome v hv
    refine .ite (fun _ => D.get.bind fun w _ => ?_) fun _ => .pure hv
    refine (follows_lift fun _ _ => trivial).bind fun b _ => ?_
    exact .guard (.throw _) fun _ => .pure hv

lemma follows_runStatement (hstatement : statement.Quiet R.loud) :
    D.Follows (runStatement answer statement) R.Owns := by
  rw [runStatement_eq]
  refine follows_nothing.bind fun unknown hunknown => ?_
  refine (mapM fun t ht =>
    follows_part hanswer (quietList_base hstatement t ht)).bind fun parts hparts => ?_
  have htokens : ∀ v ∈ parts.map Prod.fst, R.Owns v :=
    forall_mem_map.mpr fun p hp => (hparts p hp).1
  have hvalues : ∀ v ∈ parts.map Prod.snd, R.Owns v :=
    forall_mem_map.mpr fun p hp => (hparts p hp).2
  refine (follows_outcomeOf hanswer hstatement htokens hvalues hunknown).bind fun o ho => ?_
  exact follows_checkOutcome statement hunknown ho

lemma follows_valueOfNode (ht : t.Quiet R.loud) :
    D.Follows (do valueOf (← answer (.node t))) R.Owns :=
  (hanswer (.node t) rfl ht).bind fun _ hv => follows_valueOf hv

lemma follows_runNode (ht : t.Quiet R.loud) : D.Follows (runNode answer t) R.Owns := by
  have hplace {result : Value} (hresult : R.Owns result) : D.Follows (do
      stored (.copyPlace t.id result.id)
      return result) R.Owns :=
    (follows_copyPlace _ _).bind fun _ _ => .pure hresult
  unfold runNode
  dsimp only
  split
  · exact (hanswer (.statement _) rfl ht).bind fun v hv => hplace hv
  · refine (mapM fun s hs => follows_valueOfNode hanswer ?_).bind fun vs hvs => ?_
    · exact ht.children s (mem_filter.mp (mem_filter.mp hs).1).1
    · exact (follows_array hvs).bind fun v hv => hplace hv
  · refine .ite (fun _ => D.get.bind fun w _ => ?_) fun _ => ?_
    · split
      · exact .throw_bind _ _
      · exact (follows_ofBool _).bind fun v hv => hplace hv
    · exact hplace (ht.ofTree)
  · exact hplace ht.ofTree

/-! ### Running code -/

/-- The statements of code are run one after the other. -/
lemma follows_statements {statements : List Tree} (hstatements : Tree.QuietList R.loud statements)
    (houtcome : R.Owns outcome) :
    D.Follows (statements.foldlM (fun _ t => do valueOf (← answer (.node t))) outcome) R.Owns :=
  .foldlM (fun _ t ht _ => follows_valueOfNode hanswer (hstatements t ht)) houtcome

lemma follows_body (id : NodeId) {children : List Tree} (hchildren : Tree.QuietList R.loud children) :
    D.Follows (do
      let outcome ← nothing
      stored (.copyPlace id outcome.id)
      (children.filter Tree.isBase).foldlM (fun _ t => do valueOf (← answer (.node t))) outcome)
      R.Owns :=
  follows_nothing.bind fun _ houtcome => (follows_copyPlace _ _).bind fun _ _ =>
    follows_statements hanswer (fun t ht => hchildren t (mem_filter.mp ht).1) houtcome

end

lemma follows_answerWithin {R : Region} (D : Discipline R) (depth : Nat) :
    (answerWithin depth).Follows D := by
  induction depth with
  | zero => exact fun _ _ _ => .throw _
  | succ depth ih =>
    intro r hscope hr
    cases r with
    | code body vars space =>
      obtain ⟨id, children, isFile⟩ := body
      obtain rfl : isFile = false := hscope
      rw [answerWithin, step, runCode_eq_inScope]
      exact D.inScope space hr.2 (follows_body ih id hr.1)
    | node t => exact follows_runNode ih hr
    | statement t => exact follows_runStatement ih hr

end Run

end ArmaScript
