import ArmaScript.Proofs.FormulaTree
import ArmaScript.Proofs.Running

/-!
# Values of formulas

A script that is the text of a formula gives the whole number that the formula stands for, as long as
none of its literals has too many digits to be read as a whole number.
-/

namespace ArmaScript

open List

/-- The command of an operator between two numbers. -/
def Sign.arithmetic : Sign → Arithmetic
  | .plus => .add
  | .minus => .sub
  | .times => .mul

namespace Run

/-- The later world has the same machines and arrays, and every place that the earlier one has. -/
structure Grows (w w' : World) : Prop where
  machines : w'.machines = w.machines
  active : w'.active = w.active
  elements : w'.store.elements? = w.store.elements?
  places : ∀ id, w.store.places.contains id = true → w'.store.places.contains id = true

namespace Grows

lemma refl (w : World) : Grows w w :=
  ⟨rfl, rfl, rfl, fun _ h => h⟩

lemma trans {w w1 w2 : World} (h : Grows w w1) (h' : Grows w1 w2) : Grows w w2 :=
  ⟨h'.machines.trans h.machines, h'.active.trans h.active, h'.elements.trans h.elements,
    fun id hid => h'.places id (h.places id hid)⟩

end Grows

/-- The place of a node, and of every node in it, is known. -/
def Placed (w : World) (t : Tree) : Prop :=
  ∃ p, ∀ x ∈ t.places p, w.store.places.contains x.1 = true

variable {t : Tree}

lemma Placed.mono {w w' : World} (h : Placed w t) (hgrows : Grows w w') : Placed w' t := by
  obtain ⟨p, hp⟩ := h
  exact ⟨p, fun x hx => hgrows.places x.1 (hp x hx)⟩

lemma Placed.self {w : World} (h : Placed w t) : w.store.places.contains t.id = true := by
  obtain ⟨p, hp⟩ := h
  refine hp (t.id, p) ?_
  cases t <;> simp [Tree.places, Tree.id]

lemma exists_places_subset {ts : List Tree} (ht : t ∈ ts) (p : Position) :
    ∃ q, ∀ x ∈ t.places q, x ∈ Tree.placesList p ts := by
  induction ts generalizing p with
  | nil => cases ht
  | cons u us ih =>
    rw [Tree.placesList]
    rcases mem_cons.mp ht with rfl | ht
    · exact ⟨p, fun x hx => mem_append_left _ hx⟩
    · obtain ⟨q, hq⟩ := ih ht (p.advance u.extent)
      exact ⟨q, fun x hx => mem_append_right _ (hq x hx)⟩

lemma Placed.child {w : World} {id : NodeId} {b : Bool} {ending : Option Ending}
    {children : List Tree} (h : Placed w (.statement id b ending children)) (ht : t ∈ children) :
    Placed w t := by
  obtain ⟨p, hp⟩ := h
  obtain ⟨q, hq⟩ := exists_places_subset ht p
  refine ⟨q, fun x hx => hp x ?_⟩
  rw [Tree.places]
  exact mem_cons_of_mem _ (hq x hx)

/-! ### Small steps that succeed -/

lemma exists_stored_atom (a : Atom) (w : World) :
    ∃ id w', stored (.atom a) w = .ok (.atom id a) w' ∧ Grows w w' :=
  ⟨w.store.nextId, { w with store := { w.store with nextId := w.store.nextId + 1 } }, rfl, rfl, rfl,
    rfl, fun _ h => h⟩

lemma exists_copyPlace {w : World} {source : NodeId}
    (h : w.store.places.contains source = true) (target : NodeId) :
    ∃ w', stored (.copyPlace source target) w = .ok () w' ∧ Grows w w' := by
  obtain ⟨p, hp⟩ : ∃ p, w.store.places[source]? = some p := by
    rw [Std.HashMap.contains_eq_isSome_getElem?] at h
    exact Option.isSome_iff_exists.mp h
  refine ⟨{ w with store := { w.store with places := w.store.places.insert target p } },
    stored_eq_ok.mpr ⟨_, ?_, rfl⟩, rfl, rfl, rfl, fun id hid => ?_⟩
  · refine bind_eq (bind_eq rfl ?_) rfl
    rw [hp]
    rfl
  · rw [Std.HashMap.contains_insert, hid, Bool.or_true]

lemma valueOf_eq {v : Value} (h : v.varName? = none) (w : World) : valueOf v w = .ok v w := by
  rw [valueOf, h]
  rfl

/-- The node is evaluated to the atom, also in a world that has grown. -/
def Evaluates (answer : Answer) (w : World) (t : Tree) (a : Atom) : Prop :=
  ∀ w1, Grows w w1 → ∃ id w2, answer (.node t) w1 = .ok (.atom id a) w2 ∧ Grows w1 w2

lemma Evaluates.mono {answer : Answer} {w w' : World} {a : Atom} (h : Evaluates answer w t a)
    (hgrows : Grows w w') : Evaluates answer w' t a :=
  fun w1 hgrows1 => h w1 (hgrows.trans hgrows1)

lemma exists_parts {answer : Answer} {w : World} {nodes : List Tree} {as : List Atom}
    (h : Forall₂ (Evaluates answer w) nodes as) (hvar : ∀ a ∈ as, ∀ name, a ≠ .var name)
    {w1 : World} (hgrows : Grows w w1) :
    ∃ vs w2, (nodes.mapM (part answer) : Run _) w1 = .ok (vs.map fun v => (v, v)) w2 ∧
      Forall₂ (fun v a => ∃ id, v = Value.atom id a) vs as ∧ Grows w1 w2 := by
  induction h generalizing w1 with
  | nil => exact ⟨[], w1, rfl, .nil, .refl w1⟩
  | @cons t a ts as ht hts ih =>
    obtain ⟨id, w2, hanswer, hgrows2⟩ := ht w1 hgrows
    obtain ⟨vs, w3, hmap, hvs, hgrows3⟩ :=
      ih (fun a ha => hvar a (mem_cons_of_mem _ ha)) (hgrows.trans hgrows2)
    have hname : (Value.atom id a).varName? = none := by
      cases a with
      | var name => exact absurd rfl (hvar _ mem_cons_self name)
      | _ => rfl
    refine ⟨.atom id a :: vs, w3, mapM_cons_eq_ok.mpr ⟨_, w2, _, ?_, hmap, rfl⟩, .cons ⟨id, rfl⟩ hvs,
      hgrows2.trans hgrows3⟩
    exact bind_eq hanswer (bind_of_eq_ok (valueOf_eq hname w2))

/-- A statement without an ending whose parts give an atom that is defined is evaluated to it. -/
lemma exists_runStatement {answer : Answer} {w : World} {id : NodeId} {b : Bool}
    {children : List Tree} (as : List Atom) {a : Atom}
    (hchecked : ∀ i u w, checkOutcome (.statement id b none children) u (some (.atom i a)) w =
      .ok (.atom i a) w) (hnodes : Forall₂ (Evaluates answer w) (children.filter Tree.isBase) as)
    (hvar : ∀ a ∈ as, ∀ name, a ≠ .var name)
    (houtcome : ∀ vs unknown w1, Forall₂ (fun v a => ∃ id, v = Value.atom id a) vs as →
      ∃ i w2, outcomeOf answer (.statement id b none children) vs vs unknown w1 =
        .ok (some (.atom i a)) w2 ∧ Grows w1 w2) :
    ∃ i w', runStatement answer (.statement id b none children) w = .ok (.atom i a) w' ∧
      Grows w w' := by
  obtain ⟨u, w1, hnothing, hgrows1⟩ := exists_stored_atom .nothing w
  obtain ⟨vs, w2, hparts, hvs, hgrows2⟩ := exists_parts hnodes hvar hgrows1
  obtain ⟨i, w3, hvalue, hgrows3⟩ := houtcome vs (.atom u .nothing) w2 hvs
  refine ⟨i, w3, ?_, hgrows1.trans (hgrows2.trans hgrows3)⟩
  rw [runStatement_eq]
  refine bind_eq hnothing (bind_eq hparts ?_)
  have hfst : (vs.map fun v => (v, v)).map Prod.fst = vs := by
    rw [map_map]
    exact map_id vs
  have hsnd : (vs.map fun v => (v, v)).map Prod.snd = vs := by
    rw [map_map]
    exact map_id vs
  rw [hfst, hsnd]
  exact bind_eq hvalue (hchecked i _ w3)

/-! ### Commands on numbers -/

lemma find?_sign : ((Entry.candidates Entry.interpreted "-" 2).find?
      (·.signature.accepts [.keyword "-", .thing .number])).map (·.command) = some .negate ∧
    ∀ sign : Sign, ((Entry.candidates Entry.interpreted sign.char.toString 3).find?
      (·.signature.accepts [.thing .number, .keyword sign.char.toString, .thing .number])).map
        (·.command) = some (.arithmetic sign.arithmetic) := by
  refine ⟨by decide +kernel, fun sign => ?_⟩
  cases sign <;> decide +kernel

lemma lower_char (sign : Sign) : Text.lower sign.char.toString = sign.char.toString := by
  cases sign <;> rfl

variable {answer : Answer} {w : World} {id : NodeId} {b : Bool} {children : List Tree}

lemma outcomeOf_single (hbase : children.filter Tree.isBase = [t]) (i : NodeId) (n : Num)
    (unknown : Value) :
    outcomeOf answer (.statement id b none children) [.atom i (.number (some n))]
      [.atom i (.number (some n))] unknown w = .ok (some (.atom i (.number (some n)))) w := by
  have hnodes : (Tree.statement id b none children).base = [t] := hbase
  unfold outcomeOf
  rw [Index.lookup_eq_nil rfl, hnodes]
  rfl

/-- A command between two operands is that of the first entry that accepts them. -/
lemma outcomeOf_between {left right : Value} {k l : Kind} {word key : String} {command : Command}
    (statement : Tree) (tokens : List Value) (i : NodeId) (unknown : Value)
    (hleft : left.operand = .thing k) (hright : right.operand = .thing l)
    (hword : Text.lower word = key) (hentry : ((Entry.candidates Entry.interpreted key 3).find?
      (·.signature.accepts [.thing k, .keyword key, .thing l])).map (·.command) = some command) :
    outcomeOf answer statement tokens [left, .atom i (.keyword word), right] unknown =
      binary answer command left right := by
  obtain ⟨entry, hfind, rfl⟩ := Option.map_eq_some_iff.mp hentry
  have hoperands : [left, .atom i (.keyword word), right].map Value.operand =
      [.thing k, .keyword key, .thing l] := by
    rw [← hleft, ← hright, ← hword]
    rfl
  have hlookup : Index.interpreted.lookup [.thing k, .keyword key, .thing l] =
      Entry.candidates Entry.interpreted key 3 := Index.lookup_ofEntries rfl
  unfold outcomeOf
  rw [hoperands, hlookup, hfind]

lemma exists_outcomeOf_neg (tokens : List Value) (i j : NodeId) (n : Int) (unknown : Value) :
    ∃ k w', outcomeOf answer (.statement id b none children) tokens
      [.atom i (Formula.token .minus), .atom j (.number (some (.int n)))] unknown w =
        .ok (some (.atom k (.number (some (.int (-n)))))) w' ∧ Grows w w' := by
  obtain ⟨entry, hfind, hcommand⟩ := Option.map_eq_some_iff.mp find?_sign.1
  obtain ⟨k, w', hstored, hgrows⟩ := exists_stored_atom (.number (some (.int (-n)))) w
  refine ⟨k, w', ?_, hgrows⟩
  unfold outcomeOf
  have hlookup : Index.interpreted.lookup ([Value.atom i (Formula.token .minus),
      .atom j (.number (some (.int n)))].map Value.operand) =
        Entry.candidates Entry.interpreted "-" 2 := Index.lookup_ofEntries rfl
  have haccepts : [Value.atom i (Formula.token .minus), .atom j (.number (some (.int n)))].map
      Value.operand = [.keyword "-", .thing .number] := rfl
  rw [hlookup, haccepts, hfind]
  dsimp only
  rw [hcommand]
  exact map_eq_ok.mpr ⟨_, hstored, rfl⟩

lemma exists_outcomeOf_sign (tokens : List Value) (sign : Sign) (i j k : NodeId) (m n : Int)
    (unknown : Value) : ∃ l w', outcomeOf answer (.statement id b none children) tokens
      [.atom i (.number (some (.int m))), .atom j (Formula.token sign),
        .atom k (.number (some (.int n)))] unknown w =
        .ok (some (.atom l (.number (some (.int (sign.apply m n)))))) w' ∧ Grows w w' := by
  obtain ⟨l, w', hstored, hgrows⟩ := exists_stored_atom (.number (some (.int (sign.apply m n)))) w
  refine ⟨l, w', ?_, hgrows⟩
  refine (congrFun (outcomeOf_between _ tokens j unknown rfl rfl (lower_char sign)
    (find?_sign.2 sign)) w).trans ?_
  have hbinary : binary answer (.arithmetic sign.arithmetic) (.atom i (.number (some (.int m))))
      (.atom k (.number (some (.int n)))) w =
        (some <$> stored (.atom (.number (some (.int (sign.apply m n))))) : Run _) w := by
    cases sign <;> rfl
  exact hbinary.trans (map_eq_ok.mpr ⟨_, hstored, rfl⟩)

end Run

namespace Formula

open Run

variable {w : World} {id : NodeId} {a : Atom} {children : List Tree} {depth : Nat} {t : Tree}

lemma evaluates_atom (hplaced : Placed w (.atom id a)) (hserver : a.isKeyword "isServer" = false)
    (hdedicated : a.isKeyword "isDedicated" = false) (depth : Nat) :
    Evaluates (answerWithin (depth + 1)) w (.atom id a) a := by
  intro w1 hgrows
  obtain ⟨w2, hcopy, hgrows2⟩ := exists_copyPlace (hplaced.mono hgrows).self id
  refine ⟨id, w2, ?_, hgrows2⟩
  change runNode (answerWithin depth) (.atom id a) w1 = _
  unfold runNode
  dsimp only
  rw [hserver, hdedicated]
  exact (bind_of_eq_ok hcopy).trans rfl

lemma evaluates_statement {b : Bool} (hplaced : Placed w (.statement id b none children))
    (h : ∀ w1, Grows w w1 → ∃ i w2, runStatement (answerWithin depth)
      (.statement id b none children) w1 = .ok (.atom i a) w2 ∧ Grows w1 w2) :
    Evaluates (answerWithin (depth + 2)) w (.statement id b none children) a := by
  intro w1 hgrows
  obtain ⟨i, w2, hrun, hgrows2⟩ := h w1 hgrows
  obtain ⟨w3, hcopy, hgrows3⟩ := exists_copyPlace (hplaced.mono (hgrows.trans hgrows2)).self i
  refine ⟨i, w3, ?_, hgrows2.trans hgrows3⟩
  exact bind_eq hrun (bind_eq hcopy rfl)

/-- A statement of a single node that is evaluated to a number is evaluated to this number. -/
lemma evaluates_single {b : Bool} {n : Num} (hbase : children.filter Tree.isBase = [t])
    (hplaced : Placed w (.statement id b none children))
    (h : Placed w t → Evaluates (answerWithin depth) w t (.number (some n))) :
    Evaluates (answerWithin (depth + 2)) w (.statement id b none children) (.number (some n)) := by
  have hmem : t ∈ children := mem_of_mem_filter (hbase ▸ mem_singleton_self t)
  refine evaluates_statement hplaced fun w1 hgrows => ?_
  refine exists_runStatement [.number (some n)] (fun _ _ _ => rfl) ?_ (by simp) fun vs u w2 hvs => ?_
  · rw [hbase]
    exact .cons ((h (hplaced.child hmem)).mono hgrows) .nil
  · rcases hvs with _ | ⟨⟨i, rfl⟩, _ | _⟩
    exact ⟨i, w2, outcomeOf_single hbase i n u, .refl w2⟩

/-- A statement of two nodes with a word between them is evaluated to what the word makes of the
numbers to which the nodes are evaluated. -/
lemma evaluates_between {i : NodeId} {l r : Tree} {word : String} {m n : Num}
    (hbase : children.filter Tree.isBase = [l, .atom i (.keyword word), r])
    (hword : (Atom.keyword word).isKeyword "isServer" = false ∧
      (Atom.keyword word).isKeyword "isDedicated" = false)
    (hchecked : ∀ i u w, checkOutcome (.statement id false none children) u (some (.atom i a)) w =
      .ok (.atom i a) w) (hplaced : Placed w (.statement id false none children))
    (hl : ∀ w, Placed w l → Evaluates (answerWithin (depth + 1)) w l (.number (some m)))
    (hr : ∀ w, Placed w r → Evaluates (answerWithin (depth + 1)) w r (.number (some n)))
    (houtcome : ∀ tokens i j k u w, ∃ l w', outcomeOf (answerWithin (depth + 1))
      (.statement id false none children) tokens [.atom i (.number (some m)),
        .atom j (.keyword word), .atom k (.number (some n))] u w = .ok (some (.atom l a)) w' ∧
      Grows w w') :
    Evaluates (answerWithin (depth + 3)) w (.statement id false none children) a := by
  have hmem {u : Tree} (hu : u ∈ [l, .atom i (.keyword word), r]) : u ∈ children :=
    mem_of_mem_filter (hbase ▸ hu)
  refine evaluates_statement hplaced fun w1 hgrows => ?_
  have hplaced := hplaced.mono hgrows
  refine exists_runStatement [.number (some m), .keyword word, .number (some n)] hchecked
    ?_ (by simp) fun vs u w2 hvs => ?_
  · rw [hbase]
    exact .cons (hl w1 (hplaced.child (hmem (by simp))))
      (.cons (evaluates_atom (hplaced.child (hmem (by simp))) hword.1 hword.2 depth)
        (.cons (hr w1 (hplaced.child (hmem (by simp)))) .nil))
  · rcases hvs with _ | ⟨⟨j, rfl⟩, _ | ⟨⟨k, rfl⟩, _ | ⟨⟨k', rfl⟩, _ | _⟩⟩⟩
    exact houtcome _ j k k' u w2

lemma Computes.evaluates {height : Nat} {n : Int} (h : Computes height t n)
    (hdepth : 2 * height + 1 ≤ depth) (hplaced : Placed w t) :
    Evaluates (answerWithin depth) w t (.number (some (.int n))) := by
  induction h generalizing depth w with
  | literal height id n =>
    obtain ⟨d, rfl⟩ : ∃ d, depth = d + 1 := ⟨depth - 1, by omega⟩
    exact evaluates_atom hplaced rfl rfl d
  | single hbase ht ih =>
    obtain ⟨d, rfl⟩ : ∃ d, depth = d + 2 := ⟨depth - 2, by omega⟩
    exact evaluates_single hbase hplaced (ih (by omega))
  | @neg height id i children t n hbase ht ih =>
    obtain ⟨d, rfl⟩ : ∃ d, depth = d + 3 := ⟨depth - 3, by omega⟩
    have hmem {u : Tree} (hu : u ∈ [.atom i (token .minus), t]) : u ∈ children :=
      mem_of_mem_filter (hbase ▸ hu)
    refine evaluates_statement hplaced fun w1 hgrows => ?_
    have hplaced := hplaced.mono hgrows
    refine exists_runStatement [token .minus, .number (some (.int n))] (fun _ _ _ => rfl) ?_
      (by simp [token]) fun vs u w2 hvs => ?_
    · rw [hbase]
      exact .cons (evaluates_atom (hplaced.child (hmem (by simp))) rfl rfl d)
        (.cons (ih (by omega) (hplaced.child (hmem (by simp)))) .nil)
    · rcases hvs with _ | ⟨⟨j, rfl⟩, _ | ⟨⟨k, rfl⟩, _ | _⟩⟩
      exact exists_outcomeOf_neg _ j k n u
  | @binary height id i sign children l r m n hbase hl hr ihl ihr =>
    obtain ⟨d, rfl⟩ : ∃ d, depth = d + 3 := ⟨depth - 3, by omega⟩
    exact evaluates_between hbase (by cases sign <;> decide) (fun _ _ _ => rfl) hplaced
      (fun _ => ihl (by omega)) (fun _ => ihr (by omega))
      fun tokens i j k u w => exists_outcomeOf_sign tokens sign i j k m n u

/-! ### Scripts -/

lemma contains_foldl_insert {places : List (NodeId × Position)} {m : Std.HashMap NodeId Position}
    (h : m.contains id = true ∨ ∃ p, (id, p) ∈ places) :
    (places.foldl (fun m (id, p) => m.insert id p) m).contains id = true := by
  induction places generalizing m with
  | nil =>
    rcases h with h | ⟨p, hp⟩
    · exact h
    · cases hp
  | cons x xs ih =>
    refine ih ?_
    rw [Std.HashMap.contains_insert, Bool.or_eq_true, beq_iff_eq]
    rcases h with h | ⟨p, hp⟩
    · exact .inl (.inr h)
    · rcases mem_cons.mp hp with rfl | hp
      · exact .inl (.inl rfl)
      · exact .inr ⟨p, hp⟩

lemma exists_readScript {text : String} {script : Script}
    (hread : Script.read text w.store.nextId = .ok script) :
    ∃ w', readScript text w = .ok script w' ∧ Grows w w' ∧ Placed w' script.tree := by
  refine ⟨{ w with store := { w.store with nextId := script.nextId }.setPlaces script.places }, ?_,
    ⟨rfl, rfl, rfl, fun id hid => contains_foldl_insert (.inl hid)⟩, .start, fun x hx => ?_⟩
  · unfold readScript
    refine bind_eq rfl (bind_eq_ok.mpr ⟨script, w, ?_, rfl⟩)
    exact lift_eq_ok.mpr ⟨hread, rfl⟩
  · refine contains_foldl_insert (.inr ⟨x.2, ?_⟩)
    rw [Script.places, Tree.placesInOrder_eq]
    exact hx

/-- Code of a single statement gives what the statement is evaluated to. -/
lemma exists_runCode (answer : Answer) (hw : w.active < w.machines.size)
    (hid : w.store.places.contains id = true) (hplaced : Placed w t) (hbase : t.isBase = true)
    (hvar : ∀ name, a ≠ .var name) (heval : ∀ w1, Placed w1 t → Evaluates answer w1 t a)
    (vars : List (String × Value)) (space : Space) (isFile : Bool) :
    ∃ i w', runCode answer ⟨id, [t], isFile⟩ vars space w = .ok (.atom i a) w' := by
  have hm : w.machines[w.active]? = some w.machines[w.active] := Array.getElem?_eq_getElem hw
  have hcurrent := current_eq_ok.mpr ⟨_, hm, rfl, rfl⟩
  obtain ⟨w1, hset, hstore1, hm1⟩ := exists_setCurrent hm space
  obtain ⟨w2, hpush, hstore, hm2⟩ :=
    exists_modifyStack hm1 space (f := fun s => return s.push vars) rfl
  rw [hstore1] at hstore
  obtain ⟨u, w3, hnothing, hgrows3⟩ := exists_stored_atom .nothing w2
  obtain ⟨w4, hcopy, hgrows4⟩ := exists_copyPlace (hgrows3.places id (hstore ▸ hid)) u
  have hplaced2 : Placed w2 t := by
    unfold Placed
    rw [hstore]
    exact hplaced
  obtain ⟨i, w5, hanswer, hgrows5⟩ :=
    heval w4 ((hplaced2.mono hgrows3).mono hgrows4) w4 (.refl w4)
  have hname : (Value.atom i a).varName? = none := by
    cases a with
    | var name => exact absurd rfl (hvar name)
    | _ => rfl
  have hnodes : [t].filter Tree.isBase = [t] := by
    rw [filter_singleton, hbase]
    rfl
  -- The scope that the code was given is still there to be taken away.
  have hgrows := hgrows3.trans (hgrows4.trans hgrows5)
  rw [← hgrows.machines, ← hgrows.active] at hm2
  obtain ⟨w6, hpop, -⟩ := exists_modifyStack hm2 space (f := (·.pop)) (by
    rw [Namespaces.stack_setStack, if_pos rfl, Stack.pop, Stack.push, if_neg (by simp)])
  unfold runCode
  rw [bind_of_eq_ok hcurrent, bind_of_eq_ok hset, bind_of_eq_ok hpush]
  change ∃ i w', (stored (.atom .nothing) >>= _ : Run Value) w2 = .ok (.atom i a) w'
  rw [bind_of_eq_ok hnothing]
  change ∃ i w', (stored (.copyPlace id u) >>= _ : Run Value) w3 = .ok (.atom i a) w'
  rw [bind_of_eq_ok hcopy]
  simp only [hnodes, foldlM_cons, foldlM_nil, bind_assoc, pure_bind]
  rw [bind_of_eq_ok hanswer, bind_of_eq_ok (valueOf_eq hname w5)]
  cases isFile with
  | true => exact ⟨i, _, bind_of_eq_ok (x := setCurrent _) rfl⟩
  | false => exact ⟨i, _, bind_eq hpop (bind_of_eq_ok (x := setCurrent _) rfl)⟩

/-- A script of a single statement gives what the statement is evaluated to. -/
lemma exists_interpretWithin (hw : w.active < w.machines.size) {text : String} {script : Script}
    (hread : Script.read text w.store.nextId = .ok script)
    (htree : script.tree = .statement id false none [t]) (hbase : t.isBase = true)
    (hvar : ∀ name, a ≠ .var name)
    (heval : ∀ w1, Placed w1 t → Evaluates (answerWithin depth) w1 t a) :
    ∃ i w', interpretWithin (depth + 1) text w = .ok (.atom i a) w' := by
  obtain ⟨w1, hscript, hread, hplaced⟩ := exists_readScript hread
  have hchild : Placed w1 t := by
    rw [htree] at hplaced
    exact hplaced.child (mem_singleton_self t)
  -- The script as code gets an identity, and a place at its start.
  let file := w1.store.nextId
  let w2 : World := { w1 with store := { w1.store with
    nextId := file + 1, places := w1.store.places.insert file .start } }
  have hfresh : stored .fresh w1 =
      .ok file { w1 with store := { w1.store with nextId := file + 1 } } := rfl
  have hplace : stored (.setPlace file .start) { w1 with store := { w1.store with
      nextId := file + 1 } } = .ok () w2 := rfl
  have hgrows : Grows w1 w2 := ⟨rfl, rfl, rfl, fun i hi => by
    rw [Std.HashMap.contains_insert, hi, Bool.or_true]⟩
  obtain ⟨u, w3, hnothing, hgrows3⟩ := exists_stored_atom .nothing w2
  have hfile : w2.store.places.contains file = true := Std.HashMap.contains_insert_self
  have hw3 : w3.active < w3.machines.size := by
    rw [hgrows3.machines, hgrows3.active]
    change w1.active < w1.machines.size
    rw [hread.machines, hread.active]
    exact hw
  obtain ⟨i, w', hrun⟩ := exists_runCode (answerWithin depth) hw3 (hgrows3.places file hfile)
    ((hchild.mono hgrows).mono hgrows3) hbase hvar heval [("_this", .atom u .nothing)] .mission
    true
  refine ⟨i, w', ?_⟩
  unfold interpretWithin
  rw [bind_of_eq_ok hscript, htree, bind_of_eq_ok hfresh, bind_of_eq_ok hplace]
  exact bind_eq hnothing hrun

/-- A formula is evaluated to the whole number that it stands for. -/
theorem interpretWithin_eq_value {a : Formula} {s : List Char} (h : Written .sum a s)
    (hshort : ∀ digits, digits <:+: s → (∀ c ∈ digits, c.isDigit = true) →
      digits.length ≤ Numeral.longestWhole)
    {w : World} (hw : w.active < w.machines.size) {depth : Nat} (hdepth : 4 * s.length + 6 ≤ depth) :
    ∃ id w', interpretWithin depth (String.ofList s) w =
      .ok (.atom id (.number (some (.int a.value)))) w' := by
  obtain ⟨script, id, t, hread, htree, hcomputes⟩ := h.read hshort w.store.nextId
  obtain ⟨d, rfl⟩ : ∃ d, depth = d + 1 := ⟨depth - 1, by omega⟩
  exact exists_interpretWithin hw hread htree hcomputes.isBase (by simp)
    fun w₁ hplaced => hcomputes.evaluates (by omega) hplaced

/-- The value of `-(2 - 5)*3+4`. -/
theorem interpretWithin_eq_thirteen :
    Written .sum (.binary .plus (.binary .times (.neg (.binary .minus (.literal 2) (.literal 5)))
      (.literal 3)) (.literal 4)) ['-', '(', '2', ' ', '-', ' ', '5', ')', '*', '3', '+', '4'] ∧
    ∃ id w', interpretWithin 100
      (String.ofList ['-', '(', '2', ' ', '-', ' ', '5', ')', '*', '3', '+', '4'])
      (.single .empty []) = .ok (.atom id (.number (some (.int 13)))) w' := by
  have hdigit (c : Char) (hc : c.isDigit = true) : Written .factor (.literal (ofDigits [c])) [c] :=
    .literal (by simp) (by simpa using hc)
  have h : Written .sum (.binary .plus (.binary .times (.neg (.binary .minus (.literal 2) (.literal 5)))
      (.literal 3)) (.literal 4)) ['-', '(', '2', ' ', '-', ' ', '5', ')', '*', '3', '+', '4'] :=
    .sum (show Sign.plus ≠ .times by decide) (s := ['-', '(', '2', ' ', '-', ' ', '5', ')', '*', '3'])
      (.ofProduct (.product (s := ['-', '(', '2', ' ', '-', ' ', '5', ')'])
        (.ofFactor (.neg (.parens (.sum (show Sign.minus ≠ .times by decide) (s := ['2', ' '])
          (.blankAfter (.ofProduct (.ofFactor (hdigit '2' rfl))))
          (.blankBefore (.ofFactor (hdigit '5' rfl)))))))
        (hdigit '3' rfl)))
      (.ofFactor (hdigit '4' rfl))
  exact ⟨h, interpretWithin_eq_value h (fun digits hdigits _ => hdigits.length_le.trans (by decide))
    (by decide) (by decide)⟩

/-- A row of digits is evaluated to the number that it is read as. -/
lemma interpretWithin_digits {digits : List Char} (hne : digits ≠ [])
    (hdigits : ∀ c ∈ digits, c.isDigit = true) {n : Num}
    (hnumber : Num.ofWord? (String.ofList digits) = some n) (hw : w.active < w.machines.size)
    (depth : Nat) : ∃ id w', interpretWithin (depth + 4) (String.ofList digits) w =
      .ok (.atom id (.number (some n))) w' := by
  have hlexes := LexesAlone.digits hne hdigits hnumber
  have hread : Script.read (String.ofList digits) w.store.nextId = .ok
      ⟨.statement (w.store.nextId + 3) false none [.statement (w.store.nextId + 2) false none
        [.atom w.store.nextId (.number (some n))]], w.store.nextId + 4⟩ :=
    (Script.read_eq_ok_iff hlexes.lex (forall_mem_singleton.mpr rfl)).mpr
      ⟨[.token (.atom w.store.nextId (.number (some n)))], rfl, ⟨⟨rfl, rfl⟩, trivial⟩, rfl⟩
  exact exists_interpretWithin hw hread rfl rfl (by simp) fun w1 hplaced =>
    evaluates_single rfl hplaced fun hatom => evaluates_atom hatom rfl rfl depth

/-- A literal of one digit more than a whole number can have. -/
theorem interpret_long_literal :
    Written .sum (.literal (ofDigits (replicate 4301 '1'))) (replicate 4301 '1') ∧
    ∃ id x w', interpret (String.ofList (replicate 4301 '1')) (.single .empty []) =
      .ok (.atom id (.number (some (.double x)))) w' := by
  have hdigits : ∀ c ∈ replicate 4301 '1', c.isDigit = true := by
    intro c hc
    rw [eq_of_mem_replicate hc]
    rfl
  have hlength : Numeral.longestWhole < (replicate 4301 '1').length := by
    rw [length_replicate]
    decide
  have hne : replicate 4301 '1' ≠ [] := ne_nil_of_length_pos (Nat.zero_lt_of_lt hlength)
  obtain ⟨x, hnumber⟩ := Numeral.ofWord?_long hdigits hlength
  obtain ⟨id, w', hrun⟩ := interpretWithin_digits (w := .single .empty []) hne hdigits hnumber
    (by decide) 99996
  exact ⟨.ofProduct (.ofFactor (.literal hne hdigits)), id, x, w', hrun⟩

end Formula

end ArmaScript
