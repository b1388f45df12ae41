import ArmaScript.Proofs.Arrays
import ArmaScript.Proofs.Namespaces
import ArmaScript.Proofs.Parameters

/-!
# Global variables as a table

`setVariable` and `getVariable` work on the base scopes of the namespaces, however many scopes are
above. Together these are a table by namespace and by name in lower case. Writing changes one entry
of it, and reading gives what the entry holds.
-/

namespace ArmaScript

/-- The value that a namespace holds for a global name. -/
def World.global? (w : World) (space : Space) (name : String) : Option Value := do
  let m ← w.machines[w.active]?
  let v ← (m.spaces.stack space).valueAt? 0 name
  v.known?

/-- The machine on which the script runs has all its base scopes, and they hold values. -/
structure World.Ready (w : World) : Prop where
  scopes : ∃ m, w.machines[w.active]? = some m ∧ ∀ space, (m.spaces.stack space).scopes ≠ []
  value : ∀ {space name v}, w.global? space name = some v → v.kind.isValue = true

/-- A global name in a namespace, both as they are written. -/
structure GlobalName where
  space : Space
  word : String
  name : Quoted
  named : Space.ofName word = .ok space
  notLocal : isLocalName name.body = false

namespace GlobalName

variable (k : GlobalName)

abbrev home (i : NodeId) : Value :=
  .atom i (.nspace k.word)

abbrev label (i : NodeId) : Value :=
  .atom i (.string (some k.name))

end GlobalName

namespace Run

/-- Runs a computation in blocks within blocks, each in its namespace. -/
def nested {α : Type} (blocks : List (Space × List (String × Value))) (x : Run α) : Run α :=
  blocks.foldr (fun b => inScope b.1 b.2) x

def editBase (n : Namespaces Value) (space : Space) (f : Scope Value → Scope Value) :
    Namespaces Value :=
  n.setStack space ⟨(n.stack space).scopes.modify 0 f⟩

/-- The base scope can be changed while there is a block above. -/
lemma exists_pop_editBase {n : Namespaces Value} {space : Space}
    (hscopes : (n.stack space).scopes ≠ []) (target : Space) (f : Scope Value → Scope Value)
    (vars : List (String × Value)) :
    let n1 := editBase (n.setStack space ((n.stack space).push vars)) target f
    ∃ s, (n1.stack space).pop = .ok s ∧ n1.setStack space s = editBase n target f := by
  by_cases h : space = target
  · subst h
    refine ⟨⟨(n.stack space).scopes.modify 0 f⟩, ?_, by cases space <;> rfl⟩
    simp only [editBase, Namespaces.stack_setStack, if_true]
    exact pop_modify_push hscopes f vars
  · refine ⟨n.stack space, ?_, ?_⟩
    · simp only [editBase, Namespaces.stack_setStack, if_neg h, if_true]
      have hpop := pop_modify_push hscopes id vars
      rwa [List.modify_id, List.modify_id] at hpop
    · cases space <;> cases target <;> first | rfl | exact absurd rfl h

variable {w w' : World} {α : Type} {target : Space} {f : Scope Value → Scope Value}

/-- A base scope of the machine on which the script runs is changed, and nothing else there. -/
def Edits (target : Space) (f : Scope Value → Scope Value) (w w' : World) : Prop :=
  ∃ m, w.machines[w.active]? = some m ∧
    w'.machines[w'.active]? = some { m with spaces := editBase m.spaces target f }

/-- What a computation does from any blocks with the same table, it does from within more blocks. -/
lemma exists_nested {x : Run α} {p : α → Prop} {s : Store} {table : Space → String → Option Value}
    (hx : ∀ w, w.Ready → w.store = s → w.global? = table →
      ∃ a w', x w = .ok a w' ∧ p a ∧ Edits target f w w')
    (blocks : List (Space × List (String × Value))) (hw : w.Ready) (hs : w.store = s)
    (htable : w.global? = table) :
    ∃ a w', nested blocks x w = .ok a w' ∧ p a ∧ Edits target f w w' := by
  induction blocks generalizing w with
  | nil => exact hx w hw hs htable
  | cons b blocks ih =>
    obtain ⟨space, vars⟩ := b
    obtain ⟨m, hm, hscopes⟩ := hw.scopes
    obtain ⟨w1, hstore, hm1, hscope⟩ := exists_entered hm space vars
    have hbase (other : Space) : ∃ rest, ((m.spaces.setStack space
        ((m.spaces.stack space).push vars)).stack other).scopes =
          (m.spaces.stack other).scopes ++ rest := by
      rw [Namespaces.stack_setStack]
      split
      · next h => exact ⟨_, by rw [h]; rfl⟩
      · exact ⟨[], (List.append_nil _).symm⟩
    have hglobal : w1.global? = w.global? := by
      funext other name
      obtain ⟨rest, hrest⟩ := hbase other
      simp only [World.global?, hm1, hm, Option.bind_eq_bind, Option.bind_some, Stack.valueAt?, hrest]
      rw [List.getElem?_append_left (List.length_pos_iff.mpr (hscopes other))]
    have hw1 : w1.Ready := by
      refine ⟨⟨_, hm1, fun other => ?_⟩, fun h => hw.value (hglobal ▸ h)⟩
      obtain ⟨rest, hrest⟩ := hbase other
      rw [hrest]
      exact List.append_ne_nil_of_left_ne_nil (hscopes other) rest
    obtain ⟨a, w2, hrun, ha, m', hm', hm2⟩ := ih hw1 (hstore.trans hs) (hglobal.trans htable)
    cases hm1.symm.trans hm'
    obtain ⟨s, hpop, hsame⟩ := exists_pop_editBase (hscopes space) target f vars
    obtain ⟨w3, hrun3, -, hm3⟩ := hscope hrun hm2 hpop
    refine ⟨a, w3, hrun3, ha, m, hm, hm3.trans ?_⟩
    dsimp only
    rw [hsame]

/-! ### Reading and writing -/

/-- From within any blocks, `getVariable` gives the value, and with a default that for a missing one. -/
def Yields (answer : Answer) (w : World) (k : GlobalName) (o : Option Value) : Prop :=
  ∀ blocks i j, w.store.places.contains j = true →
    (∃ v w', nested blocks (binary answer .getVariable (k.home i) (k.label j)) w = .ok (some v) w' ∧
      v.known? = o) ∧
    ∀ a d, w.store.elements? a = some [k.label j, d] → ∃ w',
      nested blocks (binary answer .getVariableOr (k.home i) (.array a)) w = .ok (some (o.getD d)) w'

variable {k : GlobalName} {a j : NodeId} {v : Value}

lemma spaceOf_home (k : GlobalName) (i : NodeId) (w : World) :
    spaceOf (k.home i) w = .ok k.space w :=
  lift_eq_ok.mpr ⟨k.named, rfl⟩

lemma stored_element {vs : List Value} (h : w.store.elements? a = some vs) {i : Nat}
    (hv : vs[i]? = some v) : stored (.element a i) w = .ok v w := by
  refine stored_eq_ok.mpr ⟨w.store, bind_eq (Store.InStep.elements_eq h) ?_, rfl⟩
  rw [getElem?_index?, if_pos (Int.natCast_nonneg i), Int.toNat_natCast, hv]
  rfl

lemma edits_id (hw : w.Ready) (space : Space) (s : Store) :
    Edits space id w { w with store := s } := by
  obtain ⟨m, hm, -⟩ := hw.scopes
  refine ⟨m, hm, hm.trans ?_⟩
  rw [editBase, List.modify_id]
  cases space <;> rfl

lemma exists_getVariable (hw : w.Ready) (k : GlobalName) (i : NodeId)
    (hplace : w.store.places.contains j = true) :
    ∃ v s, getVariable (k.home i) (k.label j) w = .ok v { w with store := s } ∧
      s.elements? = w.store.elements? ∧ v.known? = w.global? k.space k.name.body := by
  obtain ⟨m, hm, hscopes⟩ := hw.scopes
  obtain ⟨place, hp⟩ := exists_placeOf (v := k.label j) hplace
  obtain ⟨o, ho⟩ : ∃ o, (m.spaces.stack k.space).valueAt? 0 k.name.body = o := ⟨_, rfl⟩
  have hglobal : w.global? k.space k.name.body = o.bind Value.known? := by
    rw [World.global?, hm, ← ho]
    rfl
  have hfind : find? k.space k.name.body w = .ok o w := by
    refine find?_eq_ok.mpr ⟨m, hm, ?_, rfl⟩
    rw [Stack.find?, levelOf_global k.notLocal (hscopes _), ← ho]
    rfl
  have hread {v : Value} {w' : World} (h : readVariable k.space k.name.body w = .ok v w') :
      getVariable (k.home i) (k.label j) w = .ok v w' :=
    bind_eq (map_eq_ok.mpr ⟨place, hp, rfl⟩) (bind_eq (spaceOf_home k i w) (bind_eq rfl h))
  rw [hglobal]
  cases o with
  | none => exact ⟨_, _, hread (bind_eq (bind_eq hfind rfl) rfl), rfl, rfl⟩
  | some v =>
    have hv : v.kind.isValue = true := by
      by_cases h : v.isNothing
      · rw [eq_of_beq h]
        rfl
      · exact hw.value (hglobal.trans (if_neg h))
    refine ⟨v, w.store, hread (bind_eq (bind_eq hfind rfl) ?_), rfl, rfl⟩
    rw [hv]
    rfl

lemma exists_getVariableOr (hw : w.Ready) (i : NodeId) {d : Value}
    (hplace : w.store.places.contains j = true) (ha : w.store.elements? a = some [k.label j, d]) :
    ∃ s, getVariableOr (k.home i) a w =
      .ok ((w.global? k.space k.name.body).getD d) { w with store := s } := by
  obtain ⟨v, s, hget, hs, hv⟩ := exists_getVariable hw k i hplace
  refine ⟨s, bind_eq (stored_elements ha) (bind_eq (stored_element (i := 0) ha rfl) (bind_eq rfl
    (bind_eq hget ?_)))⟩
  rw [← hv, Value.known?]
  split
  · exact stored_element (i := 1) ((congrFun hs a).trans ha) rfl
  · rfl

lemma yields (answer : Answer) (hw : w.Ready) (k : GlobalName) :
    Yields answer w k (w.global? k.space k.name.body) := by
  intro blocks i j hplace
  constructor
  · obtain ⟨_, w', hrun, ⟨v, rfl, hv⟩, -⟩ := exists_nested
      (x := binary answer .getVariable (k.home i) (k.label j))
      (p := fun o => ∃ v, o = some v ∧ v.known? = w.global? k.space k.name.body)
      (fun w1 hw1 hs htable => by
        obtain ⟨v, s, hrun, -, hv⟩ := exists_getVariable hw1 k i (hs ▸ hplace)
        exact ⟨some v, _, bind_eq hrun rfl, ⟨v, rfl, hv.trans (by rw [htable])⟩,
          edits_id hw1 .mission s⟩) blocks hw rfl rfl
    exact ⟨v, w', hrun, hv⟩
  · intro a d ha
    obtain ⟨_, w', hrun, rfl, -⟩ := exists_nested
      (x := binary answer .getVariableOr (k.home i) (.array a))
      (p := (· = some ((w.global? k.space k.name.body).getD d)))
      (fun w1 hw1 hs htable => by
        obtain ⟨s, hrun⟩ := exists_getVariableOr hw1 i (hs ▸ hplace) (hs ▸ ha)
        exact ⟨some _, _, bind_eq hrun rfl, by rw [htable], edits_id hw1 .mission s⟩) blocks hw rfl rfl
    exact ⟨w', hrun⟩

lemma exists_setVariable (hw : w.Ready) (i : NodeId)
    (ha : w.store.elements? a = some [k.label j, v]) :
    ∃ w', setVariable (k.home i) a w = .ok () w' ∧ Edits k.space (·.assign k.name.body v) w w' := by
  obtain ⟨m, hm, hscopes⟩ := hw.scopes
  obtain ⟨w', hmodify, -, hm'⟩ := exists_modifyStack hm k.space (f := (·.assign k.name.body v))
    (s := (m.spaces.stack k.space).assignAt 0 k.name.body v)
    (by rw [Stack.assign, levelOf_global k.notLocal (hscopes _)]; rfl)
  refine ⟨w', ?_, m, hm, hm'⟩
  exact bind_eq (stored_elements ha) (bind_eq (stored_element (i := 0) ha rfl) (bind_eq rfl
    (bind_eq (stored_element (i := 1) ha rfl) (bind_eq (spaceOf_home k i w) (bind_eq rfl hmodify)))))

/-- Writing changes one entry of the table. -/
lemma Edits.global? (hw : w.Ready) (h : Edits k.space (·.assign k.name.body v) w w') (space : Space)
    (name : String) : w'.global? space name =
      if space = k.space ∧ Text.lower name = Text.lower k.name.body then v.known?
      else w.global? space name := by
  obtain ⟨m, hm, hm'⟩ := h
  obtain ⟨m1, hm1, hscopes⟩ := hw.scopes
  cases hm.symm.trans hm1
  have hvalue : ((editBase m.spaces k.space (·.assign k.name.body v)).stack space).valueAt? 0 name =
      if space = k.space ∧ Text.lower name = Text.lower k.name.body then some v
      else (m.spaces.stack space).valueAt? 0 name := by
    rw [editBase, Namespaces.stack_setStack]
    by_cases h : space = k.space
    · have hassign := (m.spaces.stack k.space).valueAt?_assignAt 0 0 k.name.body name v
      rw [List.getElem?_eq_getElem (List.length_pos_iff.mpr (hscopes k.space))] at hassign
      subst h
      rw [if_pos rfl]
      exact hassign.trans (by simp [eq_comm])
    · simp [h]
  simp only [World.global?, hm, hm', Option.bind_eq_bind, Option.bind_some, hvalue]
  split <;> rfl

lemma Edits.ready (hw : w.Ready) (h : Edits k.space (·.assign k.name.body v) w w')
    (hv : v.kind.isValue = true) : w'.Ready := by
  constructor
  · obtain ⟨m, hm, hm'⟩ := h
    obtain ⟨m1, hm1, hscopes⟩ := hw.scopes
    cases hm.symm.trans hm1
    refine ⟨_, hm', fun space => ?_⟩
    dsimp only
    rw [editBase, Namespaces.stack_setStack]
    split
    · simpa using hscopes k.space
    · exact hscopes space
  · intro space name u hu
    rw [h.global? hw] at hu
    split at hu
    · rw [Value.known?] at hu
      split at hu
      · cases hu
      · cases hu
        exact hv
    · exact hw.value hu

end Run

open Run

/-- Global variables are a table by namespace and name. After `setVariable`, from within any blocks,
`getVariable` gives the value that was set for the same name in the same namespace, without regard to
case, and for all others what it gave before. A default is given where there is no value. -/
theorem getVariable_setVariable (answer : Answer) {w : World} (hw : w.Ready) {k : GlobalName}
    {a j : NodeId} {v : Value} (ha : w.store.elements? a = some [k.label j, v])
    (hv : v.kind.isValue = true) (blocks : List (Space × List (String × Value))) (i : NodeId) :
    ∃ r w', nested blocks (binary answer .setVariable (k.home i) (.array a)) w = .ok r w' ∧ w'.Ready ∧
      ∀ l : GlobalName,
        (∀ u : World, u.Ready → u.global? = w.global? →
          Yields answer u l (w.global? l.space l.name.body)) ∧
        ∀ u : World, u.Ready → u.global? = w'.global? → Yields answer u l
          (if l.space = k.space ∧ Text.lower l.name.body = Text.lower k.name.body then v.known?
          else w.global? l.space l.name.body) := by
  obtain ⟨r, w', hrun, -, hedits⟩ := exists_nested (p := fun _ => True)
    (x := binary answer .setVariable (k.home i) (.array a))
    (fun w₁ hw₁ hs htable => by
      obtain ⟨w₂, hset, m, hm, hm₂⟩ := exists_setVariable hw₁ i (hs ▸ ha)
      exact ⟨_, _, bind_eq hset (bind_eq rfl rfl), trivial, m, hm, hm₂⟩) blocks hw rfl rfl
  refine ⟨r, w', hrun, hedits.ready hw hv, fun l => ⟨fun u hu htable => ?_, fun u hu htable => ?_⟩⟩
  · rw [← htable]
    exact yields answer hu l
  · have hread := yields answer hu l
    rw [htable, hedits.global? hw] at hread
    exact hread

/-- What is set by `missionNamespace setVariable ["x", true]` in a block of another namespace is read
back as `X`. -/
theorem getVariable_setVariable_x :
    ∃ (k l : GlobalName) (s : Store) (r : Option Value) (w' : World), k.name.body = "x" ∧
      l.name.body = "X" ∧
      nested [(.ui, [])] (binary (answerWithin 5) .setVariable (k.home 3) (.array 0)) (.single s []) =
        .ok r w' ∧
      Yields (answerWithin 5) w' l (some (.atom 2 (.boolean (some true)))) := by
  have named {word : String} (h : Text.lower word = "missionnamespace") :
      Space.ofName word = .ok .mission := by
    rw [Space.ofName, h]
    rfl
  let k : GlobalName := ⟨.mission, "missionNamespace", ⟨'"', "x"⟩, named (by decide +kernel),
    by decide +kernel⟩
  let l : GlobalName := ⟨.mission, "MISSIONNAMESPACE", ⟨'"', "X"⟩, named (by decide +kernel),
    by decide +kernel⟩
  let v : Value := .atom 2 (.boolean (some true))
  let s : Store := ⟨4, ∅, Std.HashMap.insert ∅ 0 ⟨some 0, []⟩, Std.HashMap.insert ∅ 0 [k.label 1, v]⟩
  have hw : (World.single s []).Ready := by
    refine ⟨⟨_, rfl, fun space => ?_⟩, fun {space name v} h => ?_⟩
    · cases space <;> exact List.cons_ne_nil _ _
    · cases space <;> cases h
  have ha : s.elements? 0 = some [k.label 1, v] := by simp [s, Store.elements?]
  have hlower : Text.lower "X" = Text.lower "x" := by decide +kernel
  obtain ⟨r, w', hrun, hw', h⟩ := getVariable_setVariable (answerWithin 5) hw ha rfl [(.ui, [])] 3
  have hread := (h l).2 w' hw' rfl
  rw [if_pos ⟨rfl, hlower⟩] at hread
  exact ⟨k, l, s, r, w', rfl, rfl, hrun, hread⟩

end ArmaScript
