import ArmaScript.Proofs.Balance
import ArmaScript.Proofs.Composition
import ArmaScript.Proofs.Identities
import ArmaScript.Proofs.StatementCorrespondence

/-!
# Scripts that are run in two pieces

A script whose first piece ends with a semicolon can be run at once, or piece by piece on one
machine. The two runs go through corresponding worlds: piece by piece the second piece gets a scope
of its own above that of the first one, where the whole script goes on in the scope it has. A name
stands for the same in both, as long as the first piece leaves `_this` as it was.

While the first piece is run, the whole script holds nodes of the second one, which the run piece by
piece has not read yet. When it reads them they become linked.
-/

namespace ArmaScript

open List

/-! ### Stores when a script is read -/

/-- A file that begins on the left, where `n` is the next identity: its `_this` and its outcome are
linked to what is nothing on the right. -/
def Link.file (κ : Link) (n j j' : NodeId) : Link :=
  { κ with nothings := fun k l => (κ.nothings k l ∨ (k = n + 1 ∧ l = j)) ∨ (k = n + 2 ∧ l = j') }

lemma Link.le_file (κ : Link) (n j j' : NodeId) : κ ≤ κ.file n j j' :=
  ⟨fun _ _ h => h, fun _ _ h => .inl (.inl h)⟩

namespace Store

lemma contains_setPlaces (s : Store) (places : List (NodeId × Position)) (i : NodeId) :
    (s.setPlaces places).places.contains i = (s.places.contains i || places.any (·.1 == i)) := by
  unfold setPlaces
  dsimp only
  generalize s.places = m
  induction places generalizing m with
  | nil => rw [foldl_nil, any_nil, Bool.or_false]
  | cons x xs ih =>
    rw [foldl_cons, ih, Std.HashMap.contains_insert, any_cons, Bool.or_left_comm, Bool.or_assoc]

variable {κ : Link} {s t : Store}

/-- Nothing but the places of its nodes is stored when a script is read into an empty store. -/
lemma alike_of_places {n m : Nat} {places places' : List (NodeId × Position)}
    (hfits : κ.Fits n m) (hlt : ∀ x ∈ places, x.1 < n) (hlt' : ∀ x ∈ places', x.1 < m)
    (hids : ∀ {i j}, κ.ids i j → (∃ x ∈ places, x.1 = i) ∧ ∃ x ∈ places', x.1 = j)
    (hheld : ∀ {j}, κ.held j → ∃ x ∈ places', x.1 = j) :
    Alike κ ({ empty with nextId := n }.setPlaces places)
      ({ empty with nextId := m }.setPlaces places') := by
  have hcontains {k i : Nat} {ps : List (NodeId × Position)} (h : ∃ x ∈ ps, x.1 = i) :
      ({ empty with nextId := k }.setPlaces ps).places.contains i = true := by
    rw [contains_setPlaces, Bool.or_eq_true, any_eq_true]
    exact .inr (by simpa using h)
  have hblank {k i : Nat} {ps : List (NodeId × Position)} (h : ∀ x ∈ ps, x.1 < k) (hi : k ≤ i) :
      ({ empty with nextId := k }.setPlaces ps).Blank i := by
    refine ⟨?_, Std.HashMap.getElem?_empty, Std.HashMap.getElem?_empty⟩
    rw [contains_setPlaces, Bool.or_eq_false_iff, any_eq_false]
    refine ⟨Std.HashMap.contains_empty, fun x hx => ?_⟩
    rw [beq_iff_eq]
    exact Nat.ne_of_lt (Nat.lt_of_lt_of_le (h x hx) hi)
  exact {
    fits := hfits
    places := fun hij => (hcontains (hids hij).1).trans (hcontains (hids hij).2).symm
    arrays := fun _ => by
      unfold setPlaces empty
      rw [Std.HashMap.getElem?_empty, Std.HashMap.getElem?_empty]
      exact .none
    buffers := fun _ => by
      unfold setPlaces empty
      rw [Std.HashMap.getElem?_empty, Std.HashMap.getElem?_empty]
      exact .none
    blank_left := hblank hlt
    blank_right := hblank hlt'
    held := fun hj => ⟨hcontains (hheld hj), Std.HashMap.getElem?_empty, Std.HashMap.getElem?_empty⟩ }

namespace Alike

/-- A script is read into the first store alone, and its nodes are linked to what the second one
holds. -/
lemma read_left (h : Alike κ s t) {n : Nat} {places : List (NodeId × Position)}
    {R : Nat → Nat → Prop} (hn : s.nextId ≤ n) (hplaces : ∀ x ∈ places, s.nextId ≤ x.1 ∧ x.1 < n)
    (hR : ∀ {i j}, R i j → (∃ x ∈ places, x.1 = i) ∧ κ.held j)
    (hunique : ∀ {i j i' j'}, R i j → R i' j' → (i = i' ↔ j = j')) :
    Alike ⟨fun i j => κ.ids i j ∨ R i j, κ.nothings, fun _ => False⟩
      ({ s with nextId := n }.setPlaces places) t := by
  have hle : κ ≤ ⟨fun i j => κ.ids i j ∨ R i j, κ.nothings, fun _ => False⟩ :=
    ⟨fun _ _ => .inl, fun _ _ h => h⟩
  have hnew {i j : Nat} (hij : R i j) : s.nextId ≤ i ∧ i < n := by
    obtain ⟨⟨x, hx, rfl⟩, -⟩ := hR hij
    exact hplaces x hx
  have hold {i : Nat} (hi : i < s.nextId) : places.any (·.1 == i) = false := by
    rw [any_eq_false]
    intro x hx
    rw [beq_iff_eq]
    exact Nat.ne_of_gt (Nat.lt_of_lt_of_le hi (hplaces x hx).1)
  refine ⟨⟨?_, ?_, nofun, ?_, ?_, nofun⟩, ?_, ?_, ?_, fun {i} hi => ?_, h.blank_right, nofun⟩
  · rintro i j (hij | hij)
    · exact (h.fits.ids_lt hij).imp_left (Nat.lt_of_lt_of_le · hn)
    · exact ⟨(hnew hij).2, h.fits.held_lt (hR hij).2⟩
  · exact fun hij => (h.fits.nothings_lt hij).imp_left (Nat.lt_of_lt_of_le · hn)
  · -- what is linked now is new on the left, and was not linked before on the right
    rintro i j i' j' (hij | hij) (hij' | hij')
    · exact h.fits.unique hij hij'
    · have hlt := Nat.lt_of_lt_of_le (h.fits.ids_lt hij).1 (hnew hij').1
      refine ⟨fun heq => absurd heq (Nat.ne_of_lt hlt), ?_⟩
      rintro rfl
      exact absurd hij (h.fits.free (hR hij').2).1
    · have hlt := Nat.lt_of_lt_of_le (h.fits.ids_lt hij').1 (hnew hij).1
      refine ⟨fun heq => absurd heq (Nat.ne_of_gt hlt), ?_⟩
      rintro rfl
      exact absurd hij' (h.fits.free (hR hij).2).1
    · exact hunique hij hij'
  · rintro i j i' j' (hij | hij) hij'
    · exact h.fits.apart hij hij'
    · have hlt := Nat.lt_of_lt_of_le (h.fits.nothings_lt hij').1 (hnew hij).1
      refine ⟨Nat.ne_of_gt hlt, ?_⟩
      rintro rfl
      exact absurd hij' (h.fits.free (hR hij).2).2
  · rintro i j (hij | hij)
    · rw [contains_setPlaces, hold (h.fits.ids_lt hij).1, Bool.or_false]
      exact h.places hij
    · obtain ⟨hplace, hj⟩ := hR hij
      rw [contains_setPlaces, (h.held hj).1, Bool.or_eq_true, any_eq_true]
      exact .inr (by simpa using hplace)
  · rintro i j (hij | hij)
    · exact (h.arrays hij).imp fun _ _ hcell => hcell.mono hle
    · have hs : ({ s with nextId := n }.setPlaces places).arrays[i]? = none :=
        (h.blank_left (hnew hij).1).arrays
      rw [hs, (h.held (hR hij).2).2.1]
      exact .none
  · rintro i j (hij | hij)
    · exact (h.buffers hij).imp fun _ _ hvs => hvs.mono hle
    · have hs : ({ s with nextId := n }.setPlaces places).buffers[i]? = none :=
        (h.blank_left (hnew hij).1).buffers
      rw [hs, (h.held (hR hij).2).2.2]
      exact .none
  · have hi : n ≤ i := hi
    obtain ⟨h1, h2, h3⟩ := h.blank_left (Nat.le_trans hn hi)
    refine ⟨?_, h2, h3⟩
    rw [contains_setPlaces, Bool.or_eq_false_iff, any_eq_false]
    refine ⟨h1, fun x hx => ?_⟩
    rw [beq_iff_eq]
    exact Nat.ne_of_lt (Nat.lt_of_lt_of_le (hplaces x hx).2 hi)

/-- The first store alone gives an identity. -/
lemma fresh_left (h : Alike κ s t) : Alike κ { s with nextId := s.nextId + 1 } t := by
  refine { h with fits := h.fits.mono (Nat.le_succ _) (Nat.le_refl _), blank_left := fun hi => ?_ }
  obtain ⟨h1, h2, h3⟩ := h.blank_left (Nat.le_of_succ_le hi)
  exact ⟨h1, h2, h3⟩

variable {i j : NodeId}

/-- Something that is not linked gets a place in the first store. -/
lemma place_left (h : Alike κ s t) (hi : i < s.nextId) (hids : ∀ j, ¬κ.ids i j) (p : Position) :
    Alike κ { s with places := s.places.insert i p } t := by
  refine { h with places := fun {i' j'} hij => ?_, blank_left := fun {i'} hi' => ?_ }
  · have hne : (i == i') = false := by
      rw [beq_eq_false_iff_ne]
      rintro rfl
      exact hids _ hij
    rw [Std.HashMap.contains_insert, hne, Bool.false_or]
    exact h.places hij
  · obtain ⟨h1, h2, h3⟩ := h.blank_left hi'
    refine ⟨?_, h2, h3⟩
    rw [Std.HashMap.contains_insert, h1, Bool.or_false]
    exact beq_eq_false_iff_ne.mpr (Nat.ne_of_lt (Nat.lt_of_lt_of_le hi hi'))

/-- A new value nothing of the first store alone is linked to an old one. -/
lemma nothing_left (h : Alike κ s t) (hij : κ.nothings i j) :
    Alike { κ with nothings := fun i' j' => κ.nothings i' j' ∨ (i' = s.nextId ∧ j' = j) }
      { s with nextId := s.nextId + 1 } t := by
  have hle : κ ≤ { κ with nothings := fun i' j' => κ.nothings i' j' ∨ (i' = s.nextId ∧ j' = j) } :=
    ⟨fun _ _ h => h, fun _ _ => .inl⟩
  refine ⟨⟨?_, ?_, h.fits.held_lt, h.fits.unique, ?_, ?_⟩, h.places, ?_, ?_, fun {i} hi => ?_,
    h.blank_right, h.held⟩
  · exact fun hij => (h.fits.ids_lt hij).imp_left Nat.lt_succ_of_lt
  · rintro i' j' (hij' | ⟨rfl, rfl⟩)
    · exact (h.fits.nothings_lt hij').imp_left Nat.lt_succ_of_lt
    · exact ⟨Nat.lt_succ_self _, (h.fits.nothings_lt hij).2⟩
  · rintro i' j' i'' j'' hids (hij' | ⟨rfl, rfl⟩)
    · exact h.fits.apart hids hij'
    · exact ⟨Nat.ne_of_lt (h.fits.ids_lt hids).1, (h.fits.apart hids hij).2⟩
  · intro i' j' hj'
    refine ⟨(h.fits.free hj').1, ?_⟩
    rintro (hij' | ⟨rfl, rfl⟩)
    · exact (h.fits.free hj').2 hij'
    · exact (h.fits.free hj').2 hij
  · exact fun hij => (h.arrays hij).imp fun _ _ hcell => hcell.mono hle
  · exact fun hij => (h.buffers hij).imp fun _ _ hvs => hvs.mono hle
  · obtain ⟨h1, h2, h3⟩ := h.blank_left (Nat.le_of_succ_le hi)
    exact ⟨h1, h2, h3⟩

/-- A file begins in the first store alone: it gets the next identity, its `_this` the second and
its outcome the third. -/
lemma file_left (h : Alike κ s t) {i' j' : NodeId} (hij : κ.nothings i j)
    (hij' : κ.nothings i' j') :
    Alike (κ.file s.nextId j j')
      { s with
        nextId := s.nextId + 3
        places := (s.places.insert s.nextId .start).insert (s.nextId + 2) .start } t := by
  have hids (k : Nat) {l : NodeId} : ¬κ.ids (s.nextId + k) l := fun hkl =>
    Nat.not_lt.mpr (Nat.le_add_right _ _) (h.fits.ids_lt hkl).1
  have hstore := (h.fresh_left.nothing_left hij).nothing_left (.inl hij')
  have hlt : s.nextId < s.nextId + 3 := Nat.lt_add_of_pos_right (Nat.zero_lt_succ 2)
  have hplaced := hstore.place_left hlt (fun _ => hids 0) .start
  exact hplaced.place_left (Nat.lt_succ_self (s.nextId + 2)) (fun _ => hids 2) .start

end Alike

end Store

variable {v w : Value}

/-- Values that are alike have the same text, however deep one looks into arrays. -/
lemma Store.Alike.textWithin {κ : Link} {s t : Store} (h : Store.Alike κ s t) (depth : Nat)
    (hv : Value.Alike κ v w) : s.textWithin depth v = t.textWithin depth w := by
  induction depth generalizing v w with
  | zero =>
    cases hv with
    | code _ hcs => exact hcs.textList
    | node ht => exact ht.text
    | _ => rfl
  | succ depth ih =>
    cases hv with
    | code _ hcs => exact hcs.textList
    | node ht => exact ht.text
    | @array i j hij =>
      have hnone : (s.elements? i).isNone = (t.elements? j).isNone := by
        rw [← Option.not_isSome, ← Option.not_isSome, (h.elements? hij).isSome]
      have hshown : Forall₂ Eq ((s.shown i).map (s.textWithin depth))
          ((t.shown j).map (t.textWithin depth)) := by
        rw [forall₂_map_left_iff, forall₂_map_right_iff]
        exact (h.shown hij).imp fun _ _ => ih
      rw [forall₂_eq_eq_eq] at hshown
      rw [Store.textWithin, Store.textWithin, hnone, hshown]
    | _ => rfl

lemma Value.Alike.exists_nothing {κ : Link} (h : Value.Alike κ v w) (hv : v.isNothing = true) :
    ∃ i j, w = .atom j .nothing ∧ κ.nothings i j := by
  have hkind : v.kind = .nothing := eq_of_beq hv
  cases h with
  | nothing h => exact ⟨_, _, rfl, h⟩
  | atom _ ha => exact absurd hkind ha
  | node h =>
    cases h with
    | atom _ ha => exact absurd hkind ha.1
    | _ => cases hkind
  | _ => cases hkind

/-! ### Statements that are ended -/

namespace Run

/-- Statements are run one after the other. -/
def runAll (answer : Answer) (ts : List Tree) (outcome : Value) : Run Value :=
  ts.foldlM (fun _ t => do valueOf (← answer (.node t))) outcome

lemma runAll_append (answer : Answer) (ts us : List Tree) (outcome : Value) :
    runAll answer (ts ++ us) outcome = runAll answer ts outcome >>= runAll answer us :=
  foldlM_append

variable {w w' : World}

lemma eq_nothing_of_isEnded {depth : Nat} {t : Tree} (ht : isEnded t = true)
    (h : answerWithin depth (.node t) w = .ok v w') : ∃ i, v = .atom i .nothing := by
  cases t with
  | statement id b e cs =>
    rcases depth with _ | _ | depth
    · cases h
    · cases h
    · obtain ⟨r, w1, hrun, hrest⟩ := bind_eq_ok.mp h
      obtain ⟨-, w2, -, hpure⟩ := bind_eq_ok.mp hrest
      obtain ⟨rfl, -⟩ := pure_eq_ok.mp hpure
      have hrun : runStatement (answerWithin depth) (.statement id b e cs) w = .ok r w1 := hrun
      rw [runStatement_eq] at hrun
      obtain ⟨u, w3, hnothing, hrun⟩ := bind_eq_ok.mp hrun
      obtain ⟨parts, w4, -, hrun⟩ := bind_eq_ok.mp hrun
      obtain ⟨o, w5, -, hcheck⟩ := bind_eq_ok.mp hrun
      obtain ⟨s, hatom, -⟩ := stored_eq_ok.mp hnothing
      cases hatom
      rw [checkOutcome, if_pos ht] at hcheck
      obtain ⟨rfl, -⟩ := pure_eq_ok.mp hcheck
      exact ⟨_, rfl⟩
  | _ => cases ht

lemma eq_nothing_of_runAll {depth : Nat} {ts : List Tree} {i : NodeId}
    (hts : ∀ t ∈ ts, isEnded t = true)
    (h : runAll (answerWithin depth) ts (.atom i .nothing) w = .ok v w') :
    ∃ j, v = .atom j .nothing := by
  induction ts generalizing i w with
  | nil =>
    obtain ⟨rfl, -⟩ := pure_eq_ok.mp h
    exact ⟨i, rfl⟩
  | cons t ts ih =>
    rw [runAll, foldlM_cons] at h
    obtain ⟨u, w1, hfirst, hrest⟩ := bind_eq_ok.mp h
    obtain ⟨r, w2, hnode, hvalue⟩ := bind_eq_ok.mp hfirst
    obtain ⟨j, rfl⟩ := eq_nothing_of_isEnded (hts t mem_cons_self) hnode
    obtain ⟨rfl, -⟩ := pure_eq_ok.mp hvalue
    exact ih (fun t ht => hts t (mem_cons_of_mem _ ht)) hrest

end Run

lemma Script.isEnded_of_read {text : String} {n : NodeId} {script : Script} {tokens : List Atom}
    (hlex : Atom.lex text = .ok tokens) (hplain : ∀ a ∈ tokens, a.isReplacing = false)
    (hlast : tokens.getLast? = some (.mark ";")) (hread : read text n = .ok script) :
    ∀ t ∈ script.tree.children, Run.isEnded t = true := by
  obtain ⟨content, σ, hflat, -, hbuild, -⟩ := exists_statements hlex hplain hlast hread
  refine Item.isEnded_buildList hbuild ?_ nofun
  rw [hflat]
  intro t ht
  obtain ⟨i, a, ha, rfl⟩ := exists_of_mem_leaves ht
  exact Atom.kind_ne_fileEnd_of_lex hlex a ha

/-! ### Files -/

lemma Stored.copyPlace_eq (s : Store) {i : NodeId} {p : Position} (h : s.places[i]? = some p)
    (j : NodeId) : copyPlace i j s = .ok () { s with places := s.places.insert j p } := by
  refine bind_eq (bind_eq rfl ?_) rfl
  rw [h]
  rfl

/-- Layers with one more scope, in which `_this` has a value, among those that are alike as a whole.
-/
def Layers.file (n : Layers) : Layers :=
  ⟨n.low + 1, n.low' + 1, 0, "_this" :: n.names⟩

namespace Run

/-- A file begins: it gets a place, a scope with `_this`, and an outcome in case it has no
statements. The result is the namespace to go back to and this outcome. -/
def openFile : Run (Space × Value) := do
  let id ← stored .fresh
  stored (.setPlace id .start)
  let this ← nothing
  let previous ← current
  setCurrent .mission
  modifyStack .mission fun s => return s.push [("_this", this)]
  let outcome ← nothing
  stored (.copyPlace id outcome.id)
  return (previous, outcome)

/-- A file begins and its statements are run. The result is the namespace to go back to and the
outcome. -/
def runFile (answer : Answer) (ts : List Tree) : Run (Space × Value) := do
  let opened ← openFile
  let outcome ← runAll answer (ts.filter Tree.isBase) opened.2
  return (opened.1, outcome)

lemma runFile_append (answer : Answer) (ts us : List Tree) :
    runFile answer (ts ++ us) = (do
      let begun ← runFile answer ts
      let outcome ← runAll answer (us.filter Tree.isBase) begun.2
      return (begun.1, outcome)) := by
  unfold runFile
  simp only [filter_append, runAll_append, bind_assoc, pure_bind]

/-- A script is read and its file is run. -/
lemma interpretWithin_succ (depth : Nat) (text : String) :
    interpretWithin (depth + 1) text = (do
      let script ← readScript text
      let done ← runFile (answerWithin depth) script.tree.children
      setCurrent done.1
      return done.2) := by
  unfold interpretWithin runFile openFile
  simp only [bind_assoc, pure_bind]
  rfl

variable {layers : Space → Layers} {κ : Link}

/-- Files that begin in both worlds get scopes that are alike as a whole. -/
lemma alikeTo_openFile (hlayers : (layers .mission).top = 0) : AlikeTo False (World.Alike layers)
      (World.Alike (Function.update layers .mission (layers .mission).file)) κ openFile openFile
      fun κ' p q => p.1 = q.1 ∧ Value.Alike κ' p.2 q.2 := by
  refine AlikeTo.bind (alike_stored Stored.alike_fresh) fun κ1 h1 i j hij => ?_
  have hid : Value.Alike κ1 (.array i) (.array j) := .array hij
  refine AlikeTo.bind (alike_stored (Stored.alike_setPlace hid .start .start)) fun κ2 h2 _ _ _ => ?_
  refine AlikeTo.bind alike_nothing fun κ3 h3 this this' hthis => ?_
  refine AlikeTo.bind (reads_current.alike (Q := Equal) fun _ _ h => h) fun κ4 h4 previous _ hp => ?_
  cases hp
  refine AlikeTo.bind (alike_setCurrent .mission) fun κ5 h5 _ _ _ => ?_
  have hthis := (hthis.mono h4).mono h5
  refine AlikeTo.bind (alikeTo_modifyStack fun s t hst =>
    ⟨_, _, rfl, rfl, hst.pushLow hlayers "_this" hthis⟩) fun κ6 h6 _ _ _ => ?_
  refine AlikeTo.bind alike_nothing fun κ7 h7 o o' ho => ?_
  have hle : κ1 ≤ κ7 := Link.le_trans h2 (Link.le_trans h3 (Link.le_trans h4 (Link.le_trans h5
    (Link.le_trans h6 h7))))
  refine AlikeTo.bind (alike_stored (Stored.alike_copyPlace (hle.1 _ _ hij) ho)) fun κ8 h8 _ _ _ => ?_
  exact Alike.pure ⟨rfl, ho.mono h8⟩

lemma openFile_eq (s : Store) (m : Machine) (network : Option Network) :
    openFile ⟨s, #[m], 0, network⟩ = .ok (m.current, .atom (s.nextId + 2) .nothing)
      ⟨{ s with
          nextId := s.nextId + 3
          places := (s.places.insert s.nextId .start).insert (s.nextId + 2) .start },
        #[{ m with
          current := .mission
          spaces := m.spaces.setStack .mission
            ((m.spaces.stack .mission).push [("_this", .atom (s.nextId + 1) .nothing)]) }],
        0, network⟩ := by
  have hplace : (s.places.insert s.nextId Position.start)[s.nextId]? = some .start :=
    Std.HashMap.getElem?_insert_self
  have hcopy := Stored.copyPlace_eq { s with
    nextId := s.nextId + 3
    places := s.places.insert s.nextId .start } hplace (s.nextId + 2)
  unfold openFile
  exact bind_eq rfl (bind_eq rfl (bind_eq rfl (bind_eq rfl (bind_eq rfl (bind_eq rfl (bind_eq rfl (bind_eq (stored_eq_ok.mpr ⟨_, hcopy, rfl⟩) rfl)))))))

/-- A file begins in the first world alone, where the second one goes on in its file: the new scope
only hides a `_this` that is nothing as well. -/
lemma exists_openFile {w w' : World} {m' : Machine} (h : World.Alike layers κ w w')
    (hlayers : (layers .mission).top = 0) (hname : "_this" ∈ (layers .mission).names)
    (hm' : w'.machines = #[m']) (hcurrent : m'.current = .mission) {i j i2 j2 : NodeId}
    (hthis : m'.spaces.mission.find? "_this" = .ok (some (.atom j .nothing)))
    (hij : κ.nothings i j) (hij2 : κ.nothings i2 j2) :
    ∃ κ' o w1, openFile w = .ok (.mission, o) w1 ∧ World.Alike (Function.update layers .mission
        { layers .mission with low := (layers .mission).low + 1 }) κ' w1 w' ∧ κ ≤ κ' ∧
      κ'.held = κ.held ∧ Value.Alike κ' o (.atom j2 .nothing) := by
  obtain ⟨m, _, hm, hm'', hmm⟩ := h.machines
  cases hm'.symm.trans hm''
  obtain ⟨s, _, _, network⟩ := w
  cases hm
  obtain ⟨rfl, hactive⟩ := h.active
  have hcurrent' : m.current = .mission := hmm.current.trans hcurrent
  have hle := κ.le_file s.nextId j j2
  have hopen := openFile_eq s m network
  rw [hcurrent'] at hopen
  refine ⟨_, _, _, hopen, ⟨h.store.file_left hij hij2, ⟨_, m', rfl, hm', hcurrent.symm,
    fun space => ?_⟩, ⟨rfl, hactive⟩, h.network⟩, hle, rfl, .nothing (.inr ⟨rfl, rfl⟩)⟩
  rw [Namespaces.stack_setStack, Function.update_apply]
  split_ifs with hspace
  · rw [hspace]
    exact ((hmm.stack .mission).mono hle).pushLeft hlayers hname (by decide +kernel) hthis
      (.nothing (.inl (.inr ⟨rfl, rfl⟩)))
  · exact (hmm.stack space).mono hle

end Run

/-! ### A script and its pieces -/

namespace Tree

lemma exists_placesList_append (p : Position) (ts us : List Tree) :
    ∃ q, placesList p (ts ++ us) = placesList p ts ++ placesList q us := by
  induction ts generalizing p with
  | nil => exact ⟨p, by rw [nil_append, placesList, nil_append]⟩
  | cons t ts ih =>
    obtain ⟨q, hq⟩ := ih (p.advance t.extent)
    exact ⟨q, by rw [cons_append, placesList, hq, placesList, append_assoc]⟩

variable {n m : Nat} {t : Tree}

lemma Made.mem_places (h : t.Made n m) {p : Position} {x : NodeId × Position}
    (hx : x ∈ placesList p t.children) : x ∈ t.places p := by
  cases h with
  | atom => cases hx
  | _ =>
    rw [Tree.places]
    exact mem_cons_of_mem _ hx

lemma Made.children (h : t.Made n m) : MadeList n m t.children := by
  cases h with
  | atom => exact fun _ hc => nomatch hc
  | statement _ hcs | code _ hcs | array _ hcs => exact hcs

lemma Made.lt (h : t.Made n m) : n < m := by
  cases h with
  | atom h | statement h | code h | array h => exact Nat.lt_of_le_of_lt h.1 h.2

end Tree

namespace Script

def Placed (script : Script) (i : NodeId) : Prop :=
  ∃ x ∈ script.places, x.1 = i

variable {n m : Nat}

lemma placed_of_mem {script : Script} (h : script.tree.Made n m) {x : NodeId × Position}
    (hx : x ∈ Tree.placesList .start script.tree.children) : script.Placed x.1 := by
  refine ⟨x, ?_, rfl⟩
  rw [places, Tree.placesInOrder_eq]
  exact h.mem_places hx

lemma Placed.lt {script : Script} (h : script.tree.Made n m) {i : NodeId} (hi : script.Placed i) :
    n ≤ i ∧ i < m := by
  obtain ⟨x, hx, rfl⟩ := hi
  rw [places, Tree.placesInOrder_eq] at hx
  exact h.places hx

/-- A script that is read at once, and its two pieces: the nodes of the first one are linked by
`κ1`, and those of the second one by `κ2`. -/
structure Pieces (script1 script2 script : Script) (κ1 κ2 : Link) (front behind : List Tree) (n : Nat) :
    Prop where
  children : script.tree.children = front ++ behind
  front : Tree.AlikeList κ1.ids script1.tree.children front
  behind : Tree.AlikeList κ2.ids script2.tree.children behind
  fits1 : ∃ m, κ1.Fits script1.nextId m
  fits2 : κ2.Fits script2.nextId script.nextId
  held : κ2.held = fun j => ∃ i, κ1.ids i j
  made1 : script1.tree.Made 0 script1.nextId
  made2 : script2.tree.Made n script2.nextId
  made : script.tree.Made 0 script.nextId

namespace Pieces

variable {script1 script2 script : Script} {κ1 κ2 : Link} {front behind : List Tree} {n : Nat}
  (h : Pieces script1 script2 script κ1 κ2 front behind n)
include h

lemma front_placed : Tree.AlikeList (fun i j => κ1.ids i j ∧ script1.Placed i ∧ script.Placed j)
      script1.tree.children front := by
  obtain ⟨q, hq⟩ := Tree.exists_placesList_append .start front behind
  refine h.front.placed h.made1.children (p := .start) (q := .start)
    (fun x hx => placed_of_mem h.made1 hx) fun x hx => placed_of_mem h.made ?_
  rw [h.children, hq]
  exact mem_append_left _ hx

lemma behind_placed : Tree.AlikeList (fun i j => κ2.ids i j ∧ script2.Placed i ∧ script.Placed j)
      script2.tree.children behind := by
  obtain ⟨q, hq⟩ := Tree.exists_placesList_append .start front behind
  refine h.behind.placed h.made2.children (p := .start) (q := q)
    (fun x hx => placed_of_mem h.made2 hx) fun x hx => placed_of_mem h.made ?_
  rw [h.children, hq]
  exact mem_append_right _ hx

omit h in
/-- The link with which the first piece is run: the nodes of the second one are held back. -/
def link (script1 script : Script) (κ1 κ2 : Link) : Link where
  ids i j := κ1.ids i j ∧ script1.Placed i ∧ script.Placed j
  nothings _ _ := False
  held j := script.Placed j ∧ ∃ i, κ2.ids i j

lemma fits_link : (link script1 script κ1 κ2).Fits script1.nextId script.nextId := by
  obtain ⟨m, hfits⟩ := h.fits1
  exact {
    ids_lt := fun ⟨hij, _⟩ => ⟨(hfits.ids_lt hij).1, h.fits2.held_lt (by rw [h.held]; exact ⟨_, hij⟩)⟩
    nothings_lt := nofun
    held_lt := fun ⟨_, i, hij⟩ => (h.fits2.ids_lt hij).2
    unique := fun hij hij' => hfits.unique hij.1 hij'.1
    apart := nofun
    free := fun ⟨_, i, hij⟩ => ⟨fun hij' => (h.fits2.free (by rw [h.held]; exact ⟨_, hij'.1⟩)).1 hij,
      id⟩ }

lemma alike_start :
    Store.Alike (link script1 script κ1 κ2)
      ({ Store.empty with nextId := script1.nextId }.setPlaces script1.places)
      ({ Store.empty with nextId := script.nextId }.setPlaces script.places) :=
  Store.alike_of_places h.fits_link (fun x hx => (Placed.lt h.made1 ⟨x, hx, rfl⟩).2)
    (fun x hx => (Placed.lt h.made ⟨x, hx, rfl⟩).2) (fun hij => hij.2) fun hj => hj.1

end Pieces

end Script

lemma Stack.find?_push {name : String} (hlocal : isLocalName name = true)
    (vars : List (String × Value)) (v : Value) :
    ((Stack.ofVariables vars).push [(name, v)]).find? name = .ok (some v) := by
  change (⟨Scope.ofVariables vars :: ([] ++ [.ofVariables [(name, v)]])⟩ : Stack Value).find? name = _
  rw [Stack.find?_eq, if_pos hlocal, Scope.lookup_concat, if_pos rfl, Option.some_or]

/-! ### The two runs -/

namespace Run

variable {text s2 : String} {w w1 : World} {depth : Nat} {s : Store} {id i j : NodeId}

lemma readScript_eq_ok {w' : World} {script : Script} :
    readScript text w = .ok script w' ↔ Script.read text w.store.nextId = .ok script ∧
      w' = { w with store := { w.store with nextId := script.nextId }.setPlaces script.places } := by
  constructor
  · intro h
    obtain ⟨v, w1, hget, hrest⟩ := bind_eq_ok.mp h
    obtain ⟨rfl, rfl⟩ := get_eq_ok.mp hget
    obtain ⟨script', w2, hlift, hstore⟩ := bind_eq_ok.mp hrest
    obtain ⟨hread, rfl⟩ := lift_eq_ok.mp hlift
    obtain ⟨u, w3, hstored, hpure⟩ := bind_eq_ok.mp hstore
    obtain ⟨rfl, rfl⟩ := pure_eq_ok.mp hpure
    obtain ⟨s, hs, rfl⟩ := stored_eq_ok.mp hstored
    cases hs
    exact ⟨hread, rfl⟩
  · rintro ⟨hread, rfl⟩
    refine bind_eq rfl (bind_eq (lift_eq_ok.mpr ⟨hread, rfl⟩) ?_)
    exact bind_eq rfl rfl

lemma exists_error_of_read {e : Fault} (h : Script.read text w.store.nextId = .error e)
    (depth : Nat) : ∃ e' w', interpretWithin depth text w = .error e' w' := by
  cases hrun : interpretWithin depth text w with
  | error e' w' => exact ⟨e', w', rfl⟩
  | ok o w' =>
    obtain ⟨script, w1, hread, -⟩ := bind_eq_ok.mp hrun
    cases h.symm.trans (readScript_eq_ok.mp hread).1

lemma setCurrent_eq_self {m : Machine} (hm : w.machines[w.active]? = some m) :
    setCurrent m.current w = .ok () w := by
  have hmachines : w.machines.modify w.active ({ · with current := m.current }) = w.machines := by
    apply Array.ext_getElem?
    intro i
    rw [Array.getElem?_modify]
    split_ifs with hi
    · rw [← hi, hm]
      rfl
    · rfl
  refine modifyMachine_eq_ok.mpr ?_
  rw [hmachines]

variable {ts : List Tree}

/-- A file on a single machine goes back to the mission, and stays there until its end. -/
lemma current_of_runFile {p : Space × Value}
    (h : runFile (answerWithin depth) ts (.single s []) = .ok p w) :
    p.1 = .mission ∧ w.active = 0 ∧ ∃ m, w.machines[0]? = some m ∧ m.current = .mission := by
  obtain ⟨opened, w1, hopen, hrest⟩ := bind_eq_ok.mp h
  obtain ⟨o, w2, hrun, hpure⟩ := bind_eq_ok.mp hrest
  obtain ⟨rfl, rfl⟩ := pure_eq_ok.mp hpure
  cases (openFile_eq _ _ _).symm.trans hopen
  obtain ⟨hactive, hshapes⟩ :=
    (keeps_statements (L := sameShapes) (keeps_answerWithin depth) _ _).of_ok hrun
  obtain ⟨m, hm, hshape⟩ := Option.map_eq_some_iff.mp (congrFun hshapes 0)
  exact ⟨rfl, hactive, m, hm, congrArg Machine.Shape.current hshape⟩

lemma alike_single {t : Store} (h : Store.Alike κ s t) :
    World.Alike (fun _ => ⟨0, 0, 0, []⟩) κ (.single s []) (.single t []) := by
  refine ⟨h, ⟨_, _, rfl, rfl, rfl, fun space => ?_⟩, ⟨rfl, rfl⟩, rfl, rfl⟩
  have hstack : Stack.Alike κ ⟨0, 0, 0, []⟩ ⟨[[]]⟩ ⟨[[]]⟩ :=
    @Stack.Alike.mk _ _ [] [] [] [] [] [] (fun _ => .none) rfl rfl rfl (fun _ => .none) nofun .nil rfl
  cases space <;> exact hstack

/-- The layers while the first piece is run. -/
def fileLayers : Space → Layers :=
  Function.update (fun _ => ⟨0, 0, 0, []⟩) .mission (Layers.file ⟨0, 0, 0, []⟩)

section

variable {script1 script2 script : Script} {κ1 κ2 : Link} {front behind : List Tree} {n depth : Nat}
  (h : Script.Pieces script1 script2 script κ1 κ2 front behind n)
include h

/-- The first piece is run alike in both ways. -/
lemma alikeTo_front (depth : Nat) :
    AlikeTo False (World.Alike fun _ => ⟨0, 0, 0, []⟩) (World.Alike fileLayers)
      (Script.Pieces.link script1 script κ1 κ2)
      (runFile (answerWithin depth) script1.tree.children) (runFile (answerWithin depth) front)
      fun κ' p q => p.1 = q.1 ∧ Value.Alike κ' p.2 q.2 := by
  refine AlikeTo.bind (alikeTo_openFile rfl) fun κ hκ p q hpq => ?_
  have hfront := Tree.AlikeList.filter Tree.Alike.isBase (h.front_placed.mono hκ.1)
  refine AlikeTo.bind (alike_statements (alike_answerWithin depth) hfront hpq.2)
    fun κ' hκ' o o' ho => ?_
  exact Alike.pure ⟨hpq.1, ho⟩

/-- When the second piece is read, its nodes are linked to those that were held back. -/
lemma exists_read_behind {w' : World} {κ : Link}
    (hheld : κ.held = (Script.Pieces.link script1 script κ1 κ2).held)
    (hw : World.Alike fileLayers κ w w') (hn : w.store.nextId = n) :
    ∃ κ', κ ≤ κ' ∧ Tree.AlikeList κ'.ids script2.tree.children behind ∧
      World.Alike fileLayers κ' { w with
        store := { w.store with nextId := script2.nextId }.setPlaces script2.places } w' := by
  subst hn
  let R (i j : Nat) : Prop := κ2.ids i j ∧ script2.Placed i ∧ script.Placed j
  let κ' : Link := ⟨fun i j => κ.ids i j ∨ R i j, κ.nothings, fun _ => False⟩
  have hκ : κ ≤ κ' := ⟨fun _ _ => .inl, fun _ _ h => h⟩
  refine ⟨κ', hκ, h.behind_placed.mono fun _ _ => .inr, hw.setStore hκ ?_⟩
  refine hw.store.read_left (R := R) (Nat.le_of_lt h.made2.lt)
    (fun x hx => Script.Placed.lt h.made2 ⟨x, hx, rfl⟩) (fun {i j} hij => ⟨hij.2.1, ?_⟩)
    fun hij hij' => h.fits2.unique hij.1 hij'.1
  rw [hheld]
  exact ⟨hij.2.2, i, hij.1⟩

/-- Statements are run, and then the mission is the current namespace. -/
def finish (answer : Answer) (ts : List Tree) (outcome : Value) : Run Value := do
  let outcome ← runAll answer (ts.filter Tree.isBase) outcome
  setCurrent .mission
  return outcome

omit h in
lemma alike_finish {κ : Link} {layers : Space → Layers} (depth : Nat) {ts us : List Tree}
    (hts : Tree.AlikeList κ.ids ts us) {o o' : Value} (ho : Value.Alike κ o o') :
    Alike layers κ (finish (answerWithin depth) ts o) (finish (answerWithin depth) us o')
      Value.Alike :=
  (alike_statements (alike_answerWithin depth) (Tree.AlikeList.filter Tree.Alike.isBase hts) ho).bind
    fun _ _ _ _ ho => (alike_setCurrent .mission).bind fun _ hκ _ _ _ => .pure (ho.mono hκ)

/-- Both runs end alike if the pieces can be read. -/
lemma exists_outcomes_of_pieces {p : Space × Value} {this : Value} (hn : w1.store.nextId = n)
    (hread2 : Script.read s2 w1.store.nextId = .ok script2)
    (hread : Script.read text 0 = .ok script)
    (hrun : runFile (answerWithin depth) script1.tree.children (.single
      ({ Store.empty with nextId := script1.nextId }.setPlaces script1.places) []) = .ok p w1)
    (hp : p.2.isNothing = true) (hfind : find? .mission "_this" w1 = .ok (some this) w1)
    (hthis : this.isNothing = true) : ∃ layers κ, Outcomes False (World.Alike layers) Value.Alike κ
      (interpretWithin (depth + 1) s2 w1) (interpretWithin (depth + 1) text (.single .empty [])) := by
  obtain ⟨κ, q, w', hrun', -, hheld, hw, hspace, hoq⟩ :=
    (alikeTo_front h depth).exists_ok (alike_single h.alike_start) hrun
  obtain ⟨m, m', hm, hm', hmm⟩ := hw.machines
  obtain ⟨hmission, -, _, hm1, hcurrent⟩ := current_of_runFile hrun
  rw [hm] at hm1
  cases hm1
  obtain ⟨κ', hκ', hbehind, hw'⟩ := exists_read_behind h hheld hw hn
  -- what is nothing on the left is nothing on the right
  obtain ⟨i, i', hq, hii'⟩ := hoq.exists_nothing hp
  obtain ⟨_, _, hleft, hright, hthese⟩ := (hmm.stack .mission).find? "_this"
  obtain ⟨_, hm1, hfind, -⟩ := find?_eq_ok.mp hfind
  rw [hm, hw.active.1] at hm1
  cases hm1
  cases hfind.symm.trans hleft
  cases hthese with
  | some halike =>
  obtain ⟨j, j', rfl, hjj'⟩ := halike.exists_nothing hthis
  obtain ⟨κ'', o, w2, hopen, hw'', hκ'', -, ho⟩ := exists_openFile hw' rfl mem_cons_self hm'
    (hmm.current.symm.trans hcurrent) hright (hκ'.2 _ _ hjj') (hκ'.2 _ _ hii')
  have hleft : interpretWithin (depth + 1) s2 w1 =
      finish (answerWithin depth) script2.tree.children o w2 := by
    rw [interpretWithin_succ, bind_of_eq_ok (readScript_eq_ok.mpr ⟨hread2, rfl⟩)]
    unfold runFile finish
    simp only [bind_assoc, pure_bind]
    rw [bind_of_eq_ok hopen]
  have hright : interpretWithin (depth + 1) text (.single .empty []) =
      finish (answerWithin depth) behind q.2 w' := by
    have hscript : readScript text (.single .empty []) = .ok script (.single
        ({ Store.empty with nextId := script.nextId }.setPlaces script.places) []) :=
      readScript_eq_ok.mpr ⟨hread, rfl⟩
    rw [interpretWithin_succ, bind_of_eq_ok hscript, h.children, runFile_append]
    unfold finish
    simp only [bind_assoc, pure_bind]
    rw [bind_of_eq_ok hrun', ← hspace, hmission]
  rw [hleft, hright, hq]
  exact ⟨_, _, alike_finish depth (hbehind.mono hκ''.1) ho w2 w' hw''⟩

end

lemma exists_outcomes_of_error {e e' : Fault} (h : Script.read s2 w1.store.nextId = .error e)
    (h' : Script.read text w.store.nextId = .error e') (depth : Nat) :
    ∃ layers κ, Outcomes False (World.Alike layers) Value.Alike κ (interpretWithin depth s2 w1)
      (interpretWithin depth text w) := by
  obtain ⟨d, u, hleft⟩ := exists_error_of_read h depth
  obtain ⟨d', u', hright⟩ := exists_error_of_read h' depth
  rw [hleft, hright]
  exact ⟨fun _ => ⟨0, 0, 0, []⟩, ⟨fun _ _ => False, fun _ _ => False, fun _ => False⟩, .error⟩

lemma isDirective_of_kind {a : Atom} (h : a.kind ≠ .directive) (word : String) :
    a.isDirective word = false := by
  cases a with
  | directive => exact absurd rfl h
  | _ => rfl

lemma isReplacing_of_kind {a : Atom} (h : a.kind ≠ .directive) : a.isReplacing = false := by
  simp only [Atom.isReplacing, isDirective_of_kind h, Bool.or_false]

/-- A script that is run on a new machine is read, and its file is run. -/
lemma exists_runFile {o : Value} (h : interpretWithin depth text (.single .empty []) = .ok o w) :
    ∃ depth' script p, depth = depth' + 1 ∧ Script.read text 0 = .ok script ∧
      runFile (answerWithin depth') script.tree.children (.single
        ({ Store.empty with nextId := script.nextId }.setPlaces script.places) []) = .ok p w ∧
      p.2 = o := by
  cases depth with
  | zero =>
    obtain ⟨script, w1, -, h⟩ := bind_eq_ok.mp h
    cases h
  | succ depth =>
    rw [interpretWithin_succ] at h
    obtain ⟨script, w1, hscript, h⟩ := bind_eq_ok.mp h
    obtain ⟨hread, rfl⟩ := readScript_eq_ok.mp hscript
    obtain ⟨p, w2, hfile, h⟩ := bind_eq_ok.mp h
    obtain ⟨u, w3, hset, hpure⟩ := bind_eq_ok.mp h
    obtain ⟨rfl, rfl⟩ := pure_eq_ok.mp hpure
    obtain ⟨hspace, hactive, m, hm, hcurrent⟩ := current_of_runFile hfile
    rw [← hactive] at hm
    rw [hspace, ← hcurrent, setCurrent_eq_self hm] at hset
    cases hset
    exact ⟨depth, script, p, rfl, hread, hfile, rfl⟩

lemma eq_nothing_of_runFile {p : Space × Value} (hts : ∀ t ∈ ts, isEnded t = true)
    (h : runFile (answerWithin depth) ts (.single s []) = .ok p w) :
    ∃ i, p.2 = .atom i .nothing := by
  obtain ⟨opened, w1, hopen, hrest⟩ := bind_eq_ok.mp h
  obtain ⟨o, w2, hrun, hpure⟩ := bind_eq_ok.mp hrest
  obtain ⟨rfl, rfl⟩ := pure_eq_ok.mp hpure
  cases (openFile_eq _ _ _).symm.trans hopen
  exact eq_nothing_of_runAll (fun t ht => hts t (mem_of_mem_filter ht)) hrun

/-- The two ways of running a script end alike. -/
lemma exists_outcomes {s1 : String} {ts1 : List Atom} {o1 : Value} {this : Value}
    (hlex1 : Atom.lex s1 = .ok ts1) (hlast : ts1.getLast? = some (.mark ";"))
    (hplain1 : ∀ a ∈ ts1, a.kind ≠ .directive)
    (hplain2 : ∀ ts2, Atom.lex s2 = .ok ts2 → ∀ a ∈ ts2, a.kind ≠ .directive)
    (hrun : interpretWithin depth s1 (.single .empty []) = .ok o1 w1)
    (hfind : find? .mission "_this" w1 = .ok (some this) w1) (hthis : this.isNothing = true) :
    ∃ layers κ, Outcomes False (World.Alike layers) Value.Alike κ
      (interpretWithin depth s2 w1) (interpretWithin depth (s1 ++ s2) (.single .empty [])) := by
  cases hlex2 : Atom.lex s2 with
  | error e =>
    obtain ⟨e', hlex⟩ := (Atom.lex_append hlex1 hlast).2 e hlex2
    have hread2 (n : NodeId) : Script.read s2 n = .error e := by rw [Script.read, hlex2]; rfl
    have hread (n : NodeId) : Script.read (s1 ++ s2) n = .error e' := by rw [Script.read, hlex]; rfl
    exact exists_outcomes_of_error (hread2 _) (hread _) depth
  | ok ts2 =>
    obtain ⟨depth, script1, p, rfl, hread1, hfile, rfl⟩ := exists_runFile hrun
    have hplain1' := fun a ha => isReplacing_of_kind (hplain1 a ha)
    have hplain2' := fun a ha => isReplacing_of_kind (hplain2 ts2 hlex2 a ha)
    have hlex := (Atom.lex_append hlex1 hlast).1 ts2 hlex2
    obtain ⟨κ1, front, hfits, hfront, hrest⟩ := Script.exists_read_append (m := 0) hlex1 hplain1' hlast
      hread1 hlex2 fun a ha => isDirective_of_kind (hplain2 ts2 hlex2 a ha) _
    obtain ⟨script2, script, κ2, behind, hread2, hread, hchildren, hbehind, hfits2, hheld⟩ |
      ⟨e, e', hread2, hread⟩ | hread2 | hread := hrest w1.store.nextId
    · have hpieces : Script.Pieces script1 script2 script κ1 κ2 front behind w1.store.nextId := {
        children := hchildren
        front := hfront
        behind := hbehind
        fits1 := hfits
        fits2 := hfits2
        held := hheld
        made1 := Script.made_of_read hlex1 hplain1' hread1
        made2 := Script.made_of_read hlex2 hplain2' hread2
        made := Script.made_of_read hlex
          (fun a ha => (mem_append.mp ha).elim (hplain1' a) (hplain2' a)) hread }
      obtain ⟨i, hp⟩ := eq_nothing_of_runFile
        (Script.isEnded_of_read hlex1 hplain1' hlast hread1) hfile
      have hp : p.2.isNothing = true := by
        rw [hp]
        rfl
      exact exists_outcomes_of_pieces hpieces rfl hread2 hread hfile hp hfind hthis
    · exact exists_outcomes_of_error hread2 hread _
    · refine absurd hread2 (Script.ne_exhausted_of_lex hlex2 (fun a ha => ?_) _)
      have ha := isDirective_of_kind (hplain2 ts2 hlex2 a ha)
      exact ⟨ha _, ha _⟩
    · refine absurd hread (Script.ne_exhausted_of_lex hlex (fun a ha => ?_) _)
      have ha := isDirective_of_kind ((mem_append.mp ha).elim (hplain1 a) (hplain2 ts2 hlex2 a))
      exact ⟨ha _, ha _⟩

/-- Runs that end alike end well both or not at all, and then every name stands for the same. -/
lemma ends_alike {layers : Space → Layers} {r r' : EStateM.Result Fault World Value}
    (h : Outcomes False (World.Alike layers) Value.Alike κ r r') :
    ((∃ o w, r = .ok o w) ↔ ∃ o' w', r' = .ok o' w') ∧ ∀ o w o' w', r = .ok o w → r' = .ok o' w' →
      ∃ κ, Store.Alike κ w.store w'.store ∧ Value.Alike κ o o' ∧
        (∀ level, w.store.textWithin level o = w'.store.textWithin level o') ∧
        ∀ space name, ∃ v v', find? space name w = .ok v w ∧ find? space name w' = .ok v' w' ∧
          Value.AlikeOption κ v v' ∧
          ∀ level, v.map (w.store.textWithin level) = v'.map (w'.store.textWithin level) := by
  cases h with
  | error => exact ⟨⟨nofun, nofun⟩, nofun⟩
  | @ok κ' o o' w w' _ _ hw ho =>
    refine ⟨⟨fun _ => ⟨_, _, rfl⟩, fun _ => ⟨_, _, rfl⟩⟩, ?_⟩
    rintro _ _ _ _ ⟨⟩ ⟨⟩
    refine ⟨κ', hw.store, ho, fun level => hw.store.textWithin level ho, fun space name => ?_⟩
    obtain ⟨m, m', hm, hm', hmm⟩ := hw.exists_machine
    obtain ⟨v, v', hv, hv', hvv⟩ := (hmm.stack space).find? name
    refine ⟨v, v', find?_eq_ok.mpr ⟨m, hm, hv, rfl⟩, find?_eq_ok.mpr ⟨m', hm', hv', rfl⟩, hvv,
      fun level => ?_⟩
    cases hvv with
    | none => rfl
    | some hvv => exact congrArg some (hw.store.textWithin level hvv)
  | left h => exact h.elim
  | right h => exact h.elim

/-- A script without directives whose first piece ends with a semicolon can be run at once or piece
by piece on one machine, if the first piece leaves `_this` as it was. Both ways end well or neither
does, and then the outcomes are alike and every name stands for the same in every namespace, up to
the places that values have. -/
theorem interpret_append {s₁ s₂ : String} {ts₁ : List Atom} {depth : Nat} {o₁ this : Value} {w₁ : World}
    (hlex : Atom.lex s₁ = .ok ts₁) (hlast : ts₁.getLast? = some (.mark ";"))
    (hplain₁ : ∀ a ∈ ts₁, a.kind ≠ .directive)
    (hplain₂ : ∀ ts₂, Atom.lex s₂ = .ok ts₂ → ∀ a ∈ ts₂, a.kind ≠ .directive)
    (hrun : interpretWithin depth s₁ (.single .empty []) = .ok o₁ w₁)
    (hfind : find? .mission "_this" w₁ = .ok (some this) w₁) (hthis : this.isNothing = true) :
    ((∃ o w, interpretWithin depth s₂ w₁ = .ok o w) ↔
      ∃ o' w', interpretWithin depth (s₁ ++ s₂) (.single .empty []) = .ok o' w') ∧
    ∀ o w o' w', interpretWithin depth s₂ w₁ = .ok o w →
      interpretWithin depth (s₁ ++ s₂) (.single .empty []) = .ok o' w' →
      ∃ κ, Store.Alike κ w.store w'.store ∧ Value.Alike κ o o' ∧
        (∀ level, w.store.textWithin level o = w'.store.textWithin level o') ∧
        ∀ space name, ∃ v v', find? space name w = .ok v w ∧ find? space name w' = .ok v' w' ∧
          Value.AlikeOption κ v v' ∧
          ∀ level, v.map (w.store.textWithin level) = v'.map (w'.store.textWithin level) := by
  obtain ⟨layers, κ, houtcomes⟩ := exists_outcomes hlex hlast hplain₁ hplain₂ hrun hfind hthis
  exact ends_alike houtcomes

/-- A node with a semicolon behind it is evaluated, and gives nothing. -/
lemma exists_ended {cs : List Tree} {t : Tree}
    (h : Placed w (.statement id false (some .semicolon) cs)) (hbase : cs.filter Tree.isBase = [t])
    (hnode : ∀ w, Placed w t → ∃ v w', answerWithin (depth + 1) (.node t) w = .ok v w' ∧
      Grows w w' ∧ v.varName? = none ∧ ∀ u w, outcomeOf (answerWithin (depth + 1))
        (.statement id false (some .semicolon) cs) [v] [v] u w = .ok (some v) w) :
    ∃ k w', answerWithin (depth + 3) (.node (.statement id false (some .semicolon) cs)) w =
      .ok (.atom k .nothing) w' ∧ Grows w w' := by
  obtain ⟨u, w1, hnothing, hgrows1⟩ := exists_stored_atom .nothing w
  have hmem : t ∈ cs := mem_of_mem_filter (hbase ▸ mem_singleton_self t)
  obtain ⟨v, w2, hanswer, hgrows2, hname, houtcome⟩ := hnode w1 ((h.child hmem).mono hgrows1)
  obtain ⟨w3, hcopy, hgrows3⟩ := exists_copyPlace ((h.mono hgrows1).mono hgrows2).self u
  refine ⟨u, w3, ?_, hgrows1.trans (hgrows2.trans hgrows3)⟩
  refine bind_eq_ok.mpr ⟨.atom u .nothing, w2, ?_, bind_eq hcopy rfl⟩
  have hnodes : (Tree.statement id false (some .semicolon) cs).base = [t] := hbase
  change runStatement (answerWithin (depth + 1)) _ w = _
  rw [runStatement_eq, hnodes]
  refine bind_eq hnothing (bind_eq (mapM_cons_eq_ok.mpr ⟨(v, v), w2, _, ?_, rfl, rfl⟩) (bind_eq (houtcome _ w2) rfl))
  exact bind_eq hanswer (bind_eq (valueOf_eq hname w2) rfl)

/-- A file of one node that gives nothing keeps its `_this`. -/
lemma exists_runFile_node {t : Tree} (hplaced : Placed (.single s []) t)
    (hts : ts.filter Tree.isBase = [t]) (hnode : ∀ w, Placed w t →
      ∃ k w', answerWithin depth (.node t) w = .ok (.atom k .nothing) w' ∧ Grows w w') :
    ∃ p w, runFile (answerWithin depth) ts (.single s []) = .ok p w ∧
      ∃ k, find? .mission "_this" w = .ok (some (.atom k .nothing)) w := by
  obtain ⟨p, hp⟩ := hplaced
  obtain ⟨k, w, hanswer, hgrows⟩ := hnode ⟨{ s with
    nextId := s.nextId + 3
    places := (s.places.insert s.nextId .start).insert (s.nextId + 2) .start }, _, 0, none⟩
    ⟨p, fun x hx => by
      have hx : s.places.contains x.1 = true := hp x hx
      rw [Std.HashMap.contains_insert, Std.HashMap.contains_insert, hx, Bool.or_true, Bool.or_true]⟩
  refine ⟨(.mission, .atom k .nothing), w, ?_, s.nextId + 1, ?_⟩
  · refine bind_eq (openFile_eq s (.ofVariables []) none) (bind_eq_ok.mpr ⟨.atom k .nothing, w, ?_, rfl⟩)
    rw [hts]
    exact bind_eq (bind_eq hanswer rfl) rfl
  · obtain ⟨s', _, _, network⟩ := w
    cases hgrows.machines
    cases hgrows.active
    have hlocal : isLocalName "_this" = true := by decide +kernel
    exact find?_eq_ok.mpr ⟨_, rfl, Stack.find?_push hlocal _ _, rfl⟩

/-- Two texts with a semicolon between them. -/
theorem interpret_append_strings :
    ∃ o₁ w₁ this, interpretWithin 4 "\"a\";" (.single .empty []) = .ok o₁ w₁ ∧
      find? .mission "_this" w₁ = .ok (some this) w₁ ∧ this.isNothing = true ∧
      ((∃ o w, interpretWithin 4 "\"b\"" w₁ = .ok o w) ↔
        ∃ o' w', interpretWithin 4 ("\"a\";" ++ "\"b\"") (.single .empty []) = .ok o' w') := by
  have hlex₁ : Atom.lex "\"a\";" = .ok [.string (some ⟨'"', "a"⟩), .mark ";"] := rfl
  have hlex₂ : Atom.lex "\"b\"" = .ok [.string (some ⟨'"', "b"⟩)] := rfl
  have hread : Script.read "\"a\";" 0 = .ok ⟨.statement 5 false none [.statement 3 false
    (some .semicolon) [.atom 0 (.string (some ⟨'"', "a"⟩)), .atom 4 (.mark ";")]], 6⟩ := rfl
  obtain ⟨w₀, hscript, -, hplaced⟩ := Formula.exists_readScript (w := .single .empty []) hread
  obtain rfl := (readScript_eq_ok.mp hscript).2
  obtain ⟨p, w₁, hfile, k, hfind⟩ := exists_runFile_node (hplaced.child mem_cons_self)
    (filter_eq_self.mpr (forall_mem_singleton.mpr rfl)) fun w h => exists_ended h rfl fun w h => by
      obtain ⟨k, w', hanswer, hgrows⟩ := Formula.evaluates_atom h rfl rfl 0 w (.refl w)
      refine ⟨_, w', hanswer, hgrows, rfl, fun u w => ?_⟩
      rw [outcomeOf, Index.lookup_eq_nil rfl]
      rfl
  obtain ⟨hspace, hactive, m, hm, hcurrent⟩ := current_of_runFile hfile
  rw [← hactive] at hm
  have hrun : interpretWithin 4 "\"a\";" (.single .empty []) = .ok p.2 w₁ := by
    rw [interpretWithin_succ]
    refine bind_eq_ok.mpr ⟨_, _, hscript, bind_eq_ok.mpr ⟨p, w₁, hfile, ?_⟩⟩
    rw [hspace, ← hcurrent]
    exact bind_eq_ok.mpr ⟨_, _, setCurrent_eq_self hm, rfl⟩
  refine ⟨p.2, w₁, _, hrun, hfind, rfl, ?_⟩
  refine (interpret_append hlex₁ rfl (by decide) (fun ts hts => ?_) hrun hfind rfl).1
  cases hlex₂.symm.trans hts
  decide

end Run

end ArmaScript
