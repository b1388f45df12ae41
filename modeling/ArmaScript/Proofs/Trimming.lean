import ArmaScript.Proofs.Identities
import ArmaScript.Proofs.StatementCorrespondence

/-!
# What a run sees of a tree

Running a statement looks at the nodes in it that take part in what it does, and running an array at its
elements. The layout between them, their commas and their brackets are not looked at, but for whether
there is anything at all. A tree can therefore be *trimmed* to what is looked at, and the trimmed tree
runs in the same way. Only the messages of errors may differ, because they quote the statement.

Code is not trimmed: its text can be seen, and two codes are equal only if their texts are.
-/

namespace ArmaScript

open Tree List

namespace Tree

/-- What is kept in the place of all children of a node, so that it can be seen that there are some. -/
def remains (id : NodeId) (cs : List Tree) : List Tree :=
  if cs.isEmpty then [] else [.atom id (.mark ",")]

mutual

/-- A node without what a run does not look at. -/
def trim : Tree → Tree
  | .statement id b e cs => .statement id b e (remains id cs ++ trimBase cs)
  | .array id cs => .array id (remains id cs ++ trimElements cs)
  | t => t

/-- The nodes that take part in what a statement does. -/
def trimBase : List Tree → List Tree
  | [] => []
  | c :: cs => if c.isBase then c.trim :: trimBase cs else trimBase cs

def trimElements : List Tree → List Tree
  | [] => []
  | c :: cs => if c.kind != .mark then c.trim :: trimElements cs else trimElements cs

end

@[simp] lemma trim_atom (id : NodeId) (a : Atom) : (atom id a).trim = .atom id a :=
  rfl

@[simp] lemma trim_code (id : NodeId) (cs : List Tree) : (code id cs).trim = .code id cs :=
  rfl

@[simp] lemma trim_statement (id : NodeId) (b : Bool) (e : Option Ending) (cs : List Tree) :
    (statement id b e cs).trim = .statement id b e (remains id cs ++ trimBase cs) :=
  rfl

@[simp] lemma trim_array (id : NodeId) (cs : List Tree) :
    (array id cs).trim = .array id (remains id cs ++ trimElements cs) :=
  rfl

@[simp] lemma trimBase_eq (cs : List Tree) : trimBase cs = (cs.filter isBase).map trim := by
  induction cs with
  | nil => rfl
  | cons c cs ih =>
    rw [trimBase, ih, filter_cons]
    split <;> rfl

@[simp] lemma trimElements_eq (cs : List Tree) :
    trimElements cs = (cs.filter fun c => c.kind != .mark).map trim := by
  induction cs with
  | nil => rfl
  | cons c cs ih =>
    rw [trimElements, ih, filter_cons]
    split <;> rfl

@[simp] lemma kind_trim (t : Tree) : t.trim.kind = t.kind := by
  cases t <;> rfl

lemma isBase_of_mem_remains {id : NodeId} {cs : List Tree} {t : Tree} (h : t ∈ remains id cs) :
    t.isBase = false ∧ t.kind = .mark := by
  unfold remains at h
  split at h
  · cases h
  · rw [mem_singleton] at h
    subst h
    exact ⟨rfl, rfl⟩

lemma anyBase_eq (cs : List Tree) : anyBase cs = cs.any isBase := by
  induction cs with
  | nil => rfl
  | cons c cs ih => rw [anyBase, ih, any_cons]

lemma filter_remains (id : NodeId) (cs : List Tree) : (remains id cs).filter isBase = [] := by
  rw [filter_eq_nil_iff]
  intro t ht
  simp [(isBase_of_mem_remains ht).1]

mutual

theorem isBase_trim : ∀ t : Tree, t.trim.isBase = t.isBase
  | .statement id b e cs => by
    have hremains : (remains id cs).any isBase = false := by
      rw [any_eq_false]
      intro t ht
      simp [(isBase_of_mem_remains ht).1]
    rw [trim_statement, isBase, isBase, anyBase_eq, any_append, hremains, Bool.false_or,
      ← anyBase_eq, anyBase_trimBase cs]
  | .array id cs => by rw [trim_array, isBase, isBase]
  | .atom .. | .code .. | .define .. | .conditional .. | .expansion .. | .resolution .. => by
    rw [trim] <;> exact nofun

theorem anyBase_trimBase : ∀ cs : List Tree, anyBase (trimBase cs) = anyBase cs
  | [] => by rw [trimBase]
  | c :: cs => by
    rw [trimBase, anyBase]
    split_ifs with hc
    · rw [anyBase, isBase_trim c, anyBase_trimBase cs]
    · rw [anyBase_trimBase cs, Bool.eq_false_iff.mpr hc, Bool.false_or]

end

lemma filter_isBase_map_trim (cs : List Tree) :
    (cs.map trim).filter isBase = (cs.filter isBase).map trim := by
  rw [filter_map]
  congr 1
  exact filter_congr fun t _ => isBase_trim t

/-- The nodes that take part in a trimmed statement are those of the statement, trimmed. -/
lemma base_trim (id : NodeId) (b : Bool) (e : Option Ending) (cs : List Tree) :
    (statement id b e cs).trim.base = (statement id b e cs).base.map trim := by
  rw [trim_statement, base, children, base, children, filter_append, filter_remains,
    nil_append, trimBase_eq, filter_isBase_map_trim, filter_filter]
  simp

lemma elements_trim (id : NodeId) (cs : List Tree) :
    (array id cs).trim.elements = (array id cs).elements.map trim := by
  have hremains : (remains id cs).filter (fun c => c.kind != .mark) = [] := by
    rw [filter_eq_nil_iff]
    intro t ht
    simp [(isBase_of_mem_remains ht).2]
  rw [trim_array, elements, children, elements, children, filter_append, hremains,
    nil_append, trimElements_eq, filter_map]
  congr 1
  rw [filter_filter]
  exact filter_congr fun t _ => by simp

lemma isEmpty_remains_append (id : NodeId) (cs : List Tree) {ds : List Tree}
    (h : cs = [] → ds = []) : (remains id cs ++ ds).isEmpty = cs.isEmpty := by
  cases cs with
  | nil => rw [h rfl]; rfl
  | cons c cs => rfl

lemma isEmpty_children_trim (t : Tree) : t.trim.children.isEmpty = t.children.isEmpty := by
  cases t with
  | statement id b e cs =>
    rw [trim_statement]
    exact isEmpty_remains_append id cs fun h => by rw [h, trimBase]
  | array id cs =>
    rw [trim_array]
    exact isEmpty_remains_append id cs fun h => by rw [h, trimElements]
  | _ => rw [trim] <;> exact nofun

lemma leadingOf?_remains (id : NodeId) (cs ds : List Tree) :
    leadingOf? (remains id cs ++ ds) = leadingOf? ds := by
  unfold remains
  split
  · rfl
  · rw [singleton_append, leadingOf?, if_neg]
    rw [isBase]
    exact Bool.false_ne_true

mutual

theorem leading?_trim : ∀ t : Tree, t.trim.leading? = t.leading?.map trim
  | .statement id b e cs => by
    rw [trim_statement, leading?, leading?, leadingOf?_remains, leadingOf?_trimBase cs]
  | .array id cs => by
    rw [trim_array, leading?, leading?, Option.map_some, trim_array] <;> exact nofun
  | .atom .. | .code .. | .define .. | .conditional .. | .expansion .. | .resolution .. => by
    rw [trim, leading?, Option.map_some, trim] <;> exact nofun

theorem leadingOf?_trimBase : ∀ cs : List Tree,
    leadingOf? (trimBase cs) = (leadingOf? cs).map trim
  | [] => by rw [trimBase, leadingOf?, Option.map_none]
  | c :: cs => by
    rw [trimBase, leadingOf?]
    split_ifs with hc
    · rw [leadingOf?, isBase_trim c, if_pos hc, leading?_trim c]
    · rw [leadingOf?_trimBase cs]

end

end Tree

/-! ### Running trimmed trees -/

namespace Run

variable {α β γ : Type} {x y : Run α}

/-- Runs that both fail, or both end well with the same outcome in the same world. -/
def Agree (x y : Run α) : Prop :=
  ∀ κ, ArmaScript.Alike False (fun _ => Eq) κ x y fun _ => Eq

lemma Agree.refl (x : Run α) : Agree x x := by
  rintro κ w _ rfl
  cases x w with
  | ok a w' => exact .ok κ.le_refl rfl rfl rfl
  | error e w' => exact .error

lemma agree_of_fails (hx : Fails x) (hy : Fails y) : Agree x y := by
  rintro κ w _ rfl
  obtain ⟨e, s, hs⟩ := hx w
  obtain ⟨f, t, ht⟩ := hy w
  rw [hs, ht]
  exact .error

lemma Agree.bind {f g : α → Run β} (h : Agree x y) (hfg : ∀ a, Agree (f a) (g a)) :
    Agree (x >>= f) (y >>= g) := by
  refine fun κ => (h κ).bind fun κ' _ a b hab => ?_
  subst hab
  exact hfg a κ'

lemma Agree.map (f : α → β) (h : Agree x y) : Agree (f <$> x) (f <$> y) := by
  rw [map_eq_pure_bind, map_eq_pure_bind]
  exact h.bind fun _ => .refl _

lemma Agree.ite {c : Prop} [Decidable c] {x' y' : Run α} (h : Agree x y) (h' : Agree x' y') :
    Agree (if c then x else x') (if c then y else y') := by
  split
  · exact h
  · exact h'

lemma Agree.mapM {f : γ → Run α} {g : γ → γ} (h : ∀ c, Agree (f c) (f (g c))) (cs : List γ) :
    Agree (cs.mapM f) ((cs.map g).mapM f) := by
  induction cs with
  | nil => exact .refl _
  | cons c cs ih =>
    rw [map_cons, mapM_cons, mapM_cons]
    exact (h c).bind fun _ => ih.bind fun _ => .refl _

lemma Agree.foldlM {f : α → γ → Run α} {g : γ → γ} (h : ∀ a c, Agree (f a c) (f a (g c)))
    (cs : List γ) (a : α) : Agree (cs.foldlM f a) ((cs.map g).foldlM f a) := by
  induction cs generalizing a with
  | nil => exact .refl _
  | cons c cs ih =>
    rw [map_cons, foldlM_cons, foldlM_cons]
    exact (h a c).bind fun a => ih a

variable (answer : Answer) (s : Tree)

lemma agree_meaningless : Agree (meaningless s : Run α) (meaningless s.trim) :=
  agree_of_fails (fails_meaningless _) (fails_meaningless _)

lemma agree_publicVariable (name : Value) (audience : Audience) :
    Agree (publicVariable answer s name audience) (publicVariable answer s.trim name audience) := by
  unfold publicVariable
  split
  · exact .ite (agree_of_fails (.bind (fails_meaningless _)) (.bind (fails_meaningless _)))
      (.refl _)
  · exact agree_meaningless s

lemma agree_publicVariableClient (client name : Value) (kind : Kind) :
    Agree (publicVariableClient answer s client name kind)
      (publicVariableClient answer s.trim client name kind) := by
  unfold publicVariableClient
  refine .ite (agree_of_fails (.bind (fails_meaningless _)) (.bind (fails_meaningless _))) ?_
  refine (Agree.refl _).bind fun name => .ite ?_ (.refl _)
  exact agree_of_fails (.bind (fails_meaningless _)) (.bind (fails_meaningless _))

lemma declareVariable_trim (node : Tree) (otherwise : Value) :
    declareVariable node.trim otherwise = declareVariable node otherwise := by
  cases node with
  | statement id b e cs =>
    have hbase := base_trim id b e cs
    rw [trim_statement] at hbase ⊢
    unfold declareVariable
    dsimp only
    rw [hbase]
    rcases (statement id b e cs).base with _ | ⟨c, rest⟩
    · rfl
    · rw [map_cons]
      cases c with
      | atom i a => rw [trim_atom]; cases a <;> rfl
      | statement => rw [trim_statement]
      | array => rw [trim_array]
      | _ => rw [trim] <;> exact nofun
  | array => rw [trim_array]; rfl
  | _ => rw [trim] <;> exact nofun

lemma declare_trim (node : Tree) (v otherwise : Value) :
    declare node.trim v otherwise = declare node v otherwise := by
  unfold declare
  rw [declareVariable_trim]

lemma assignedName_trim (target : Tree) (left : Value) :
    assignedName target.trim left = assignedName target left := by
  unfold assignedName
  rw [leading?_trim]
  cases target.leading? with
  | none => rfl
  | some t =>
    cases t with
    | atom i a => rw [Option.map_some, trim_atom]
    | statement => rw [Option.map_some, trim_statement]
    | array => rw [Option.map_some, trim_array]
    | _ => rw [Option.map_some, trim] <;> exact nofun

lemma agree_assignTo (target : Tree) (left right value : Value) :
    Agree (assignTo s target left right value) (assignTo s.trim target.trim left right value) := by
  unfold assignTo
  rw [assignedName_trim]
  refine (Agree.refl _).bind fun name => ?_
  cases name with
  | none => exact agree_meaningless s
  | some name =>
    refine .ite ?_ (.refl _)
    exact agree_of_fails (.bind (fails_meaningless _)) (.bind (fails_meaningless _))

/-- A statement that no command fits does the same as the trimmed one. -/
lemma agree_runOther (nodes : List Tree) (tokens values : List Value) (o : Value) :
    Agree (runOther answer s nodes tokens values o)
      (runOther answer s.trim (nodes.map trim) tokens values o) := by
  unfold runOther
  split
  · refine .ite ((agree_publicVariable answer s _ _).bind fun _ => .refl _) ?_
    refine .ite ((agree_publicVariable answer s _ _).bind fun _ => .refl _) ?_
    refine .ite ?_ (agree_meaningless s)
    rw [declare_trim]
    exact .refl _
  · refine .ite (agree_assignTo s _ _ _ _) ?_
    exact .ite ((agree_publicVariableClient answer s _ _ _).bind fun _ => .refl _)
      (agree_meaningless s)
  · rcases nodes with _ | ⟨_, _ | ⟨_, _ | ⟨_, _ | _⟩⟩⟩ <;> exact .refl _
  · rename_i hone htwo hthree
    split
    · rename_i hnodes
      obtain ⟨a, _, rfl, -, hnodes⟩ := map_eq_cons_iff.mp hnodes
      obtain ⟨b, _, rfl, -, hnodes⟩ := map_eq_cons_iff.mp hnodes
      rw [map_eq_nil_iff] at hnodes
      subst hnodes
      exact (htwo _ _ _ _ _ _ rfl rfl rfl).elim
    · rename_i hnodes
      obtain ⟨a, _, rfl, -, hnodes⟩ := map_eq_cons_iff.mp hnodes
      obtain ⟨b, _, rfl, -, hnodes⟩ := map_eq_cons_iff.mp hnodes
      obtain ⟨c, _, rfl, -, hnodes⟩ := map_eq_cons_iff.mp hnodes
      rw [map_eq_nil_iff] at hnodes
      subst hnodes
      exact (hthree _ _ _ _ _ _ _ _ _ rfl rfl rfl).elim
    · exact (hone _ _ rfl rfl).elim
    · exact agree_meaningless s

section

variable {answer : Answer} (hanswer : ∀ t, Agree (answer (.node t)) (answer (.node t.trim)))
include hanswer

lemma agree_runStatement (id : NodeId) (b : Bool) (e : Option Ending) (cs : List Tree) :
    Agree (runStatement answer (.statement id b e cs))
      (runStatement answer (statement id b e cs).trim) := by
  have hbase := base_trim id b e cs
  have hpart (t : Tree) : Agree (part answer t) (part answer t.trim) :=
    (hanswer t).bind fun _ => .refl _
  rw [runStatement_eq, runStatement_eq, hbase]
  refine (Agree.refl _).bind fun unknown => (Agree.mapM hpart _).bind fun parts => ?_
  refine Agree.bind ?_ fun outcome => ?_
  · unfold outcomeOf
    split
    · exact .refl _
    · rw [hbase]
      exact (agree_runOther answer _ _ _ _ _).map _
  · rw [trim_statement]
    exact .refl _

lemma agree_runNode (hstatement : ∀ id b e cs, Agree (answer (.statement (.statement id b e cs)))
      (answer (.statement (statement id b e cs).trim))) (t : Tree) :
    Agree (runNode answer t) (runNode answer t.trim) := by
  unfold runNode
  cases t with
  | statement id b e cs =>
    have hstatement := hstatement id b e cs
    rw [trim_statement] at hstatement ⊢
    exact hstatement.bind fun _ => .refl _
  | array id cs =>
    have helements := elements_trim id cs
    have hfilter (ts : List Tree) : ((ts.map trim).filter fun s => !s.children.isEmpty) =
        (ts.filter fun s => !s.children.isEmpty).map trim := by
      rw [filter_map]
      congr 1
      exact filter_congr fun t _ => by simp [isEmpty_children_trim]
    rw [trim_array] at helements ⊢
    dsimp only
    rw [helements, hfilter]
    refine Agree.bind (.mapM (fun t => ?_) _) fun _ => .refl _
    exact (hanswer t).bind fun _ => .refl _
  | _ =>
    rw [trim]
    · exact .refl _
    all_goals exact nofun

end

/-- Trimmed trees are run as the trees are, at every depth of nesting. -/
lemma agree_answerWithin (depth : Nat) :
    (∀ t, Agree (answerWithin depth (.node t)) (answerWithin depth (.node t.trim))) ∧
      ∀ id b e cs, Agree (answerWithin depth (.statement (.statement id b e cs)))
        (answerWithin depth (.statement (statement id b e cs).trim)) := by
  induction depth with
  | zero => exact ⟨fun _ => .refl _, fun _ _ _ _ => .refl _⟩
  | succ depth ih => exact ⟨agree_runNode ih.1 ih.2, agree_runStatement ih.1⟩

end Run

/-! ### Alike and placed trees -/

namespace Tree

variable {R : NodeId → NodeId → Prop}
  {cs : List Tree} {A : NodeId → Prop} {p : Position} {n m : Nat}

lemma alike_remains {i j : NodeId} (h : R i j) {ds : List Tree} (hempty : cs.isEmpty = ds.isEmpty) :
    AlikeList R (remains i cs) (remains j ds) := by
  unfold remains
  rw [hempty]
  split
  · exact .nil
  · exact .cons (.atom h ⟨nofun, rfl⟩) .nil

mutual

/-- Trees that are alike stay so when they are trimmed. -/
theorem Alike.trim : ∀ {t u : Tree}, Alike R t u → Alike R t.trim u.trim
  | _, _, .atom h ha => by
    rw [trim_atom, trim_atom]
    exact .atom h ha
  | _, _, .statement h hcs => by
    rw [trim_statement, trim_statement]
    exact .statement h (rel_append (alike_remains h hcs.isEmpty) (AlikeList.trimBase hcs))
  | _, _, .code h hcs => by
    rw [trim_code, trim_code]
    exact .code h hcs
  | _, _, .array h hcs => by
    rw [trim_array, trim_array]
    exact .array h (rel_append (alike_remains h hcs.isEmpty) (AlikeList.trimElements hcs))
  | _, _, .conditional h hcs => by
    rw [trim, trim]
    · exact .conditional h hcs
    all_goals exact nofun
  | _, _, .resolution h hrs hcs => by
    rw [trim, trim]
    · exact .resolution h hrs hcs
    all_goals exact nofun

theorem AlikeList.trimBase : ∀ {ts us : List Tree}, AlikeList R ts us →
    AlikeList R (trimBase ts) (trimBase us)
  | _, _, .nil => by
    rw [trimBase]
    exact .nil
  | _, _, .cons h hs => by
    rw [trimBase, trimBase, h.isBase]
    split
    · exact .cons h.trim (AlikeList.trimBase hs)
    · exact AlikeList.trimBase hs

theorem AlikeList.trimElements : ∀ {ts us : List Tree}, AlikeList R ts us →
    AlikeList R (trimElements ts) (trimElements us)
  | _, _, .nil => by
    rw [trimElements]
    exact .nil
  | _, _, .cons h hs => by
    rw [trimElements, trimElements, h.kind]
    split
    · exact .cons h.trim (AlikeList.trimElements hs)
    · exact AlikeList.trimElements hs

end

mutual

/-- Where a node starts does not change which nodes are in it. -/
theorem map_fst_places : ∀ (t : Tree) (p q : Position),
    (t.places p).map Prod.fst = (t.places q).map Prod.fst
  | .atom .., _, _ => by
    rw [places, places]
    rfl
  | .statement _ _ _ cs, p, q | .code _ cs, p, q | .array _ cs, p, q | .define _ _ _ _ cs, p, q
  | .conditional _ cs, p, q | .expansion _ _ _ cs, p, q | .resolution _ _ cs, p, q => by
    rw [places, places, map_cons, map_cons, map_fst_placesList cs p q]

theorem map_fst_placesList : ∀ (ts : List Tree) (p q : Position),
    (placesList p ts).map Prod.fst = (placesList q ts).map Prod.fst
  | [], _, _ => by rw [placesList, placesList]
  | t :: ts, p, q => by
    rw [placesList, placesList, map_append, map_append, map_fst_places t p q,
      map_fst_placesList ts _ (q.advance t.extent)]

end

lemma forall_places {t : Tree} {q : Position} (h : ∀ x ∈ t.places p, A x.1) :
    ∀ x ∈ t.places q, A x.1 := by
  intro x hx
  have hmem : x.1 ∈ (t.places p).map Prod.fst := by
    rw [map_fst_places t p q]
    exact mem_map_of_mem hx
  obtain ⟨y, hy, hyx⟩ := mem_map.mp hmem
  rw [← hyx]
  exact h y hy

lemma mem_placesList_append {x : NodeId × Position} {ts us : List Tree}
    (h : x ∈ placesList p (ts ++ us)) : x ∈ placesList p ts ∨ ∃ q, x ∈ placesList q us := by
  induction ts generalizing p with
  | nil => exact .inr ⟨p, h⟩
  | cons t ts ih =>
    rw [cons_append, placesList, mem_append] at h
    rw [placesList, mem_append]
    obtain h | h := h
    · exact .inl (.inl h)
    · exact (ih h).imp_left .inr

lemma mem_places_remains {id : NodeId} {x : NodeId × Position}
    (h : x ∈ placesList p (remains id cs)) : x.1 = id := by
  unfold remains at h
  split at h
  · rw [placesList] at h
    cases h
  · rw [placesList, placesList, places, append_nil, mem_singleton] at h
    rw [h]

mutual

theorem forall_places_trim : ∀ (t : Tree) {p q : Position},
    (∀ x ∈ t.places p, A x.1) → ∀ x ∈ t.trim.places q, A x.1
  | .statement id b e cs, p, q, h, x, hx => by
    rw [places, forall_mem_cons] at h
    rw [trim_statement, places, mem_cons] at hx
    obtain rfl | hx := hx
    · exact h.1
    · obtain hx | ⟨q, hx⟩ := mem_placesList_append hx
      · rw [mem_places_remains hx]
        exact h.1
      · exact forall_places_trimBase cs h.2 x hx
  | .array id cs, p, q, h, x, hx => by
    rw [places, forall_mem_cons] at h
    rw [trim_array, places, mem_cons] at hx
    obtain rfl | hx := hx
    · exact h.1
    · obtain hx | ⟨q, hx⟩ := mem_placesList_append hx
      · rw [mem_places_remains hx]
        exact h.1
      · exact forall_places_trimElements cs h.2 x hx
  | .atom .., p, q, h, x, hx | .code .., p, q, h, x, hx | .define .., p, q, h, x, hx
  | .conditional .., p, q, h, x, hx | .expansion .., p, q, h, x, hx
  | .resolution .., p, q, h, x, hx => by
    rw [trim] at hx
    · exact forall_places h x hx
    all_goals exact nofun

theorem forall_places_trimBase : ∀ (cs : List Tree) {p q : Position},
    (∀ x ∈ placesList p cs, A x.1) → ∀ x ∈ placesList q (trimBase cs), A x.1
  | [], _, _, _, x, hx => by
    rw [trimBase, placesList] at hx
    cases hx
  | c :: cs, p, q, h, x, hx => by
    rw [placesList, forall_mem_append] at h
    rw [trimBase] at hx
    split at hx
    · rw [placesList, mem_append] at hx
      exact hx.elim (forall_places_trim c h.1 x) (forall_places_trimBase cs h.2 x)
    · exact forall_places_trimBase cs h.2 x hx

theorem forall_places_trimElements : ∀ (cs : List Tree) {p q : Position},
    (∀ x ∈ placesList p cs, A x.1) → ∀ x ∈ placesList q (trimElements cs), A x.1
  | [], _, _, _, x, hx => by
    rw [trimElements, placesList] at hx
    cases hx
  | c :: cs, p, q, h, x, hx => by
    rw [placesList, forall_mem_append] at h
    rw [trimElements] at hx
    split at hx
    · rw [placesList, mem_append] at hx
      exact hx.elim (forall_places_trim c h.1 x) (forall_places_trimElements cs h.2 x)
    · exact forall_places_trimElements cs h.2 x hx

end

lemma madeList_remains {id : NodeId} (h : n ≤ id ∧ id < m) (cs : List Tree) :
    MadeList n m (remains id cs) := by
  unfold remains
  split
  · exact Build.Closed.nil
  · exact forall_mem_singleton.mpr (.atom h)

lemma madeList_trim (p : Tree → Bool) (h : ∀ c ∈ cs, Made n m c.trim) :
    MadeList n m ((cs.filter p).map trim) := by
  intro c hc
  obtain ⟨d, hd, rfl⟩ := mem_map.mp hc
  exact h d (mem_of_mem_filter hd)

lemma Made.trim {t : Tree} (h : Made n m t) : Made n m t.trim := by
  induction h with
  | atom h =>
    rw [trim_atom]
    exact .atom h
  | code h hcs _ =>
    rw [trim_code]
    exact .code h hcs
  | statement h _ ih =>
    rw [trim_statement, trimBase_eq]
    exact .statement h (forall_mem_append.mpr ⟨madeList_remains h _, madeList_trim _ ih⟩)
  | array h _ ih =>
    rw [trim_array, trimElements_eq]
    exact .array h (forall_mem_append.mpr ⟨madeList_remains h _, madeList_trim _ ih⟩)

lemma MadeList.trimBase (h : MadeList n m cs) : MadeList n m (trimBase cs) := by
  rw [trimBase_eq]
  exact madeList_trim _ fun c hc => (h c hc).trim

end Tree

end ArmaScript
