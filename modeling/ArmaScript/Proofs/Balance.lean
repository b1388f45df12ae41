import ArmaScript.Proofs.Evaluating
import Mathlib.Logic.Function.Basic

/-!
# Balanced scopes

Code that is run puts a scope on the stack of its namespace and takes it away again, and names are
looked up afterwards where they were before. The code inside may run further code in any namespace, on
this machine or on another one, so what is kept is the shape of all machines: how many scopes each
namespace has, and which one is current.
-/

namespace ArmaScript

/-- The number of scopes of each namespace of a machine, and the namespace in which names are looked
up. The scopes of a stack are its levels in order, so their number tells all levels there are. -/
structure Machine.Shape where
  current : Space
  depth : Space → Nat

def Machine.shape (m : Machine) : Machine.Shape :=
  ⟨m.current, fun space => (m.spaces.stack space).scopes.length⟩

/-- A shape with one more scope in a namespace. -/
def Machine.Shape.push (s : Machine.Shape) (space : Space) : Machine.Shape :=
  ⟨s.current, Function.update s.depth space (s.depth space + 1)⟩

/-- A shape with one scope less in a namespace. -/
def Machine.Shape.pop (s : Machine.Shape) (space : Space) : Machine.Shape :=
  ⟨s.current, Function.update s.depth space (s.depth space - 1)⟩

lemma Machine.Shape.pop_push (s : Machine.Shape) (space : Space) :
    (s.push space).pop space = s := by
  unfold pop push
  dsimp only
  rw [Function.update_self, Function.update_idem, Nat.add_sub_cancel, Function.update_eq_self]

def World.shapes (w : World) (i : Nat) : Option Machine.Shape :=
  w.machines[i]?.map Machine.shape

lemma World.shapes_modify (w : World) (f : Machine → Machine) :
    World.shapes { w with machines := w.machines.modify w.active f } =
      Function.update w.shapes w.active (w.machines[w.active]?.map fun m => (f m).shape) := by
  funext i
  by_cases hi : i = w.active
  · subst hi
    simp [shapes, Array.getElem?_modify, Function.comp_def]
  · rw [Function.update_of_ne hi]
    simp [shapes, Array.getElem?_modify, Ne.symm hi]

namespace Machine

lemma shape_setStack (m : Machine) (space : Space) (s : Stack Value) :
    shape { m with spaces := m.spaces.setStack space s } =
      ⟨m.current, Function.update m.shape.depth space s.scopes.length⟩ := by
  simp only [shape, Shape.mk.injEq, true_and]
  funext other
  rw [Namespaces.stack_setStack, Function.update_apply]
  split <;> rfl

end Machine

namespace Run

variable {α β : Type}

/-- A computation that keeps the shapes of all machines. -/
abbrev Balanced (m : Run α) : Prop :=
  Leads (fun w w' => w'.active = w.active ∧ w'.shapes = w.shapes) m

/-- A computation that changes the shape of the machine on which it runs, and no other. -/
def Changes (m : Run α) (f : Machine.Shape → Machine.Shape) : Prop :=
  ∀ w a w', m w = .ok a w' → w'.active = w.active ∧
    w'.shapes = Function.update w.shapes w.active ((w.shapes w.active).map f)

variable {m : Run α} {f g : Machine.Shape → Machine.Shape}

lemma Changes.bind {n : α → Run β} (hm : Changes m f) (hn : ∀ a, Changes (n a) g) :
    Changes (m >>= n) (g ∘ f) := by
  intro w b w' h
  obtain ⟨a, w1, h1, h2⟩ := bind_eq_ok.mp h
  obtain ⟨hactive1, hshapes1⟩ := hm w a w1 h1
  obtain ⟨hactive2, hshapes2⟩ := hn a w1 b w' h2
  refine ⟨hactive2.trans hactive1, ?_⟩
  rw [hshapes2, hshapes1, hactive1, Function.update_self, Function.update_idem, Option.map_map]

lemma Changes.balanced (hm : Changes m f) (hf : ∀ s, f s = s) : Balanced m := by
  intro w a w' h
  obtain ⟨hactive, hshapes⟩ := hm w a w' h
  obtain rfl : f = id := funext hf
  refine ⟨hactive, ?_⟩
  rw [hshapes, Option.map_id, id, Function.update_eq_self]

lemma Balanced.changes (hm : Balanced m) : Changes m id := by
  intro w a w' h
  obtain ⟨hactive, hshapes⟩ := hm w a w' h
  refine ⟨hactive, ?_⟩
  rw [hshapes, Option.map_id, id, Function.update_eq_self]

/-! ### Single steps -/

lemma changes_pure (a : α) : Changes (pure a) id := by
  refine Balanced.changes fun w b w' h => ?_
  obtain ⟨-, rfl⟩ := pure_eq_ok.mp h
  exact ⟨rfl, rfl⟩

lemma changes_modifyMachine {f : Machine → Machine} (hf : ∀ m, (f m).shape = g m.shape) :
    Changes (modifyMachine f) g := by
  intro w u w' h
  obtain rfl := modifyMachine_eq_ok.mp h
  refine ⟨rfl, ?_⟩
  rw [World.shapes_modify, World.shapes, Option.map_map]
  simp only [hf, Function.comp_def]

lemma changes_setCurrent (space : Space) :
    Changes (setCurrent space) fun s => { s with current := space } :=
  changes_modifyMachine fun _ => rfl

lemma changes_modifyStack {space : Space} {f : Stack Value → Except Fault (Stack Value)}
    {g : Nat → Nat} (hf : ∀ s s', f s = .ok s' → s'.scopes.length = g s.scopes.length) :
    Changes (modifyStack space f) fun s =>
      { s with depth := Function.update s.depth space (g (s.depth space)) } := by
  intro w u w' h
  obtain ⟨m, s', hm, hs', rfl⟩ := modifyStack_eq_ok.mp h
  refine ⟨rfl, ?_⟩
  rw [World.shapes_modify, World.shapes, hm, Option.map_some, Machine.shape_setStack, hf _ _ hs']
  rfl

lemma balanced_modifyStack {space : Space} {f : Stack Value → Except Fault (Stack Value)}
    (hf : ∀ s s', f s = .ok s' → s'.scopes.length = s.scopes.length) :
    Balanced (modifyStack space f) := by
  refine (changes_modifyStack (g := id) hf).balanced fun s => ?_
  rw [id, Function.update_eq_self]

lemma length_assignAt (s : Stack Value) (level : Nat) (name : String) (v : Value) :
    (s.assignAt level name v).scopes.length = s.scopes.length :=
  List.length_modify _ _ _

lemma balanced_assign (space : Space) (name : String) (v : Value) :
    Balanced (assign space name v) := by
  refine balanced_modifyStack fun s s' h => ?_
  obtain ⟨level, -, hs'⟩ := except_bind_eq_ok.mp h
  cases hs'
  exact length_assignAt s level name v

lemma balanced_assignTop (name : String) (v : Value) : Balanced (assignTop name v) := by
  intro w u w' h
  obtain ⟨space, w1, hcurrent, hassign⟩ := bind_eq_ok.mp h
  obtain ⟨-, -, -, rfl⟩ := current_eq_ok.mp hcurrent
  refine balanced_modifyStack (fun s s' h => ?_) w1 u w' hassign
  obtain ⟨level, -, hs'⟩ := except_bind_eq_ok.mp h
  cases hs'
  exact length_assignAt s level name v

lemma balanced_setGlobal (name : String) (v : Value) : Balanced (setGlobal name v) := by
  unfold setGlobal
  split
  · intro w u w' h
    cases h
  · refine balanced_modifyStack fun s s' h => ?_
    cases h
    exact length_assignAt s 0 name v

lemma changes_push (space : Space) (vars : List (String × Value)) :
    Changes (modifyStack space fun s => return s.push vars) (·.push space) := by
  refine changes_modifyStack (g := (· + 1)) fun s s' hs' => ?_
  cases hs'
  exact List.length_append

lemma changes_pop (space : Space) : Changes (modifyStack space (·.pop)) (·.pop space) := by
  refine changes_modifyStack (g := (· - 1)) fun s s' hs' => ?_
  unfold Stack.pop at hs'
  split at hs'
  · cases hs'
  · cases hs'
    exact List.length_dropLast

/-- What is done in a scope of its own changes nothing else, and the scope stays if it is a file's. -/
lemma changes_scoped (hm : Balanced m) (isFile : Bool) (vars : List (String × Value))
    (space : Space) :
    Changes (do
      let previous ← current
      setCurrent space
      modifyStack space fun s => return s.push vars
      let a ← m
      unless isFile do modifyStack space (·.pop)
      setCurrent previous
      return a) fun s => if isFile then s.push space else s := by
  intro w a w' h
  obtain ⟨previous, w1, hcurrent, hrest⟩ := bind_eq_ok.mp h
  obtain ⟨machine, hmachine, rfl, rfl⟩ := current_eq_ok.mp hcurrent
  have hleave (a : α) : Changes (do
      unless isFile do modifyStack space (·.pop)
      setCurrent machine.current
      return a) fun s => ⟨machine.current, if isFile then s.depth else (s.pop space).depth⟩ := by
    have hback := (changes_setCurrent machine.current).bind fun _ => changes_pure a
    cases isFile with
    | true => exact hback
    | false => exact (changes_pop space).bind fun _ => hback
  obtain ⟨hactive, hshapes⟩ := ((changes_setCurrent space).bind fun _ =>
    (changes_push space vars).bind fun _ => hm.changes.bind hleave) w1 a w' hrest
  refine ⟨hactive, ?_⟩
  have hshape : w1.shapes w1.active = some machine.shape := by
    rw [World.shapes, hmachine, Option.map_some]
  rw [hshapes, hshape]
  simp only [Option.map_some, Function.comp_apply, id, Machine.Shape.pop_push]
  split <;> rfl

/-- The law of balance: the shapes of all machines stay as they are. -/
def sameShapes : Law where
  Rel w w' := w'.active = w.active ∧ w'.shapes = w.shapes
  refl _ := ⟨rfl, rfl⟩
  trans h1 h2 := ⟨h2.1.trans h1.1, h2.2.trans h1.2⟩
  store _ _ := ⟨rfl, rfl⟩
  network _ _ := ⟨rfl, rfl⟩
  listeners w f := by
    have hlisten : Changes (modifyMachine fun m => { m with listeners := f m }) id :=
      changes_modifyMachine fun _ => rfl
    exact hlisten.balanced (fun _ => rfl) w () _ (modifyMachine_eq_ok.mpr rfl)
  assign := balanced_assign
  assignTop := balanced_assignTop
  setGlobal _ v := balanced_setGlobal _ v
  visit h := ⟨rfl, h.2⟩
  inScope space vars _ hm := (changes_scoped hm false vars space).balanced fun _ => rfl

/-- A file leaves its scope behind at every depth of nesting. -/
lemma changes_file (depth : Nat) (id : NodeId) (children : List Tree)
    (vars : List (String × Value)) (space : Space) :
    Changes (answerWithin depth (.code ⟨id, children, true⟩ vars space)) (·.push space) := by
  cases depth with
  | zero =>
    intro w v w' h
    cases h
  | succ depth =>
    have hstatements : Keeps sameShapes (do
        let outcome ← nothing
        stored (.copyPlace id outcome.id)
        (children.filter Tree.isBase).foldlM
          (fun _ t => do valueOf (← answerWithin depth (.node t))) outcome) :=
      (keeps_stored _).bind fun outcome => (keeps_stored _).bind fun _ =>
        keeps_statements (keeps_answerWithin depth) _ outcome
    have hscoped := changes_scoped hstatements.leads true vars space
    simp only [bind_assoc] at hscoped
    exact hscoped

lemma changes_interpretWithin (depth : Nat) (text : String) :
    Changes (interpretWithin depth text) (·.push .mission) := by
  have hread : Keeps sameShapes (readScript text) :=
    keeps_get.bind fun _ => (keeps_lift _).bind fun _ => (keeps_stored _).bind fun _ => .pure _
  have hstored {α : Type} (m : Stored α) : Changes (stored m) id :=
    Balanced.changes (Keeps.leads (keeps_stored (L := sameShapes) m))
  exact (Balanced.changes (Keeps.leads hread)).bind fun script => (hstored .fresh).bind fun id =>
    (hstored (.setPlace id .start)).bind fun _ => (hstored (.atom .nothing)).bind fun this =>
    changes_file depth id script.tree.children [("_this", this)] .mission

/-- In every state of the machines, code that is not a file keeps the number of scopes of every
namespace and the current namespace, and a script adds one scope to the mission and keeps all else. -/
theorem scopes_balanced (depth : Nat) (w : World) :
    (∀ (body : Body) (vars : List (String × Value)) (space : Space) (v : Value) (w' : World),
      body.isFile = false → answerWithin depth (.code body vars space) w = .ok v w' →
        w'.active = w.active ∧ w'.shapes = w.shapes) ∧
    (∀ (text : String) (v : Value) (w' : World), interpretWithin depth text w = .ok v w' →
        w'.active = w.active ∧ w'.shapes =
          Function.update w.shapes w.active ((w.shapes w.active).map (·.push .mission))) := by
  constructor
  · intro body vars space v w' hbody h
    exact (keeps_answerWithin (L := sameShapes) depth (.code body vars space) hbody).of_ok h
  · intro text v w' h
    exact changes_interpretWithin depth text w v w' h

/-- Code of the statement `1` in the namespace of the user interface, and the script `1`. -/
theorem scopes_balanced_one :
    (∃ v w', answerWithin 4 (.code ⟨0, [.statement 1 false none [.atom 2 (.number (some (.int 1)))]],
        false⟩ [] .ui) (.single (.setPlaces .empty [(0, .start), (1, .start), (2, .start)]) []) =
          .ok v w' ∧ w'.active = 0 ∧ w'.shapes = World.shapes (.single .empty [])) ∧
    ∃ v w', interpretWithin 4 "1" (.single .empty []) = .ok v w' ∧ w'.active = 0 ∧
      w'.shapes = Function.update (World.shapes (.single .empty [])) 0
        ((World.shapes (.single .empty []) 0).map (·.push .mission)) := by
  constructor
  · have hplace (id : Nat) (hid : id < 3) : (World.single (.setPlaces .empty
        [(0, .start), (1, .start), (2, .start)]) []).store.places.contains id = true := by
      refine Formula.contains_foldl_insert (.inr ⟨.start, ?_⟩)
      obtain rfl | rfl | rfl : id = 0 ∨ id = 1 ∨ id = 2 := by omega
      all_goals simp
    have hplaced : Placed (.single (.setPlaces .empty [(0, .start), (1, .start), (2, .start)]) [])
        (.statement 1 false none [.atom 2 (.number (some (.int 1)))]) := by
      refine ⟨.start, ?_⟩
      simp only [Tree.places, Tree.placesList, List.append_nil, List.forall_mem_cons]
      exact ⟨hplace 1 (by decide), hplace 2 (by decide), by simp⟩
    obtain ⟨i, w', hrun⟩ := Formula.exists_runCode (answerWithin 3) (by decide)
      (hplace 0 (by decide)) hplaced rfl (a := .number (some (.int 1))) (by simp)
      (fun w₁ hw₁ => Formula.evaluates_single rfl hw₁ fun hatom =>
        Formula.evaluates_atom hatom rfl rfl 0) [] .ui false
    exact ⟨_, w', hrun, (scopes_balanced 4 _).1 _ _ _ _ _ rfl hrun⟩
  · have hnumber : Num.ofWord? (String.ofList ['1']) = some (.int 1) :=
      Numeral.ofWord?_digits (by simp) (List.forall_mem_singleton.2 rfl) (by decide)
    obtain ⟨i, w', hrun⟩ := Formula.interpretWithin_digits (w := .single .empty []) (by simp)
      (List.forall_mem_singleton.2 rfl) hnumber (by decide) 0
    exact ⟨_, w', hrun, (scopes_balanced 4 _).2 _ _ _ hrun⟩

end Run

end ArmaScript
