import ArmaScript.Proofs.Computation
import ArmaScript.Value.Content
import Mathlib.Data.List.Forall2
import Mathlib.Order.Basic

/-!
# Runs that correspond

Two runs of the same script may give different identities to what corresponds. A `Link` says which
identities of the first run belong to which of the second; it grows as both runs go on. Trees and
values are *alike* under a link if they are built in the same way and their identities are linked, and
computations are alike if from corresponding states both fail, or both end well in corresponding
states with results that are alike.

Identities can be seen: a value equals itself, even where it holds a number that does not. So linked
identities are unique in both runs. Only the value nothing is linked freely, because all of them are
equal anyway.
-/

section

variable {α β γ δ : Type} {r r' : α → β → Prop} {q : γ → δ → Prop} {o : Option α} {p : Option β}

lemma Option.Rel.eq_or_exists (h : Option.Rel r o p) :
    (o = .none ∧ p = .none) ∨ ∃ a b, o = .some a ∧ p = .some b ∧ r a b := by
  cases h with
  | none => exact .inl ⟨rfl, rfl⟩
  | some h => exact .inr ⟨_, _, rfl, rfl, h⟩

lemma Option.Rel.imp (hr : ∀ a b, r a b → r' a b) (h : Option.Rel r o p) : Option.Rel r' o p := by
  cases h with
  | none => exact .none
  | some h => exact .some (hr _ _ h)

lemma Option.Rel.map {f : α → γ} {g : β → δ} (hfg : ∀ a b, r a b → q (f a) (g b)) (h : Option.Rel r o p) :
    Option.Rel q (o.map f) (p.map g) := by
  cases h with
  | none => exact .none
  | some h => exact .some (hfg _ _ h)

lemma Option.Rel.bind {f : α → Option γ} {g : β → Option δ}
    (hfg : ∀ a b, r a b → Option.Rel q (f a) (g b)) (h : Option.Rel r o p) :
    Option.Rel q (o.bind f) (p.bind g) := by
  cases h with
  | none => exact .none
  | some h => exact hfg _ _ h

lemma Option.Rel.isSome (h : Option.Rel r o p) : o.isSome = p.isSome := by
  cases h <;> rfl

lemma Option.Rel.isNone (h : Option.Rel r o p) : o.isNone = p.isNone := by
  cases h <;> rfl

variable {as : List α} {bs : List β}

/-- Items at the same index of corresponding lists. -/
lemma List.Forall₂.getElem? (h : List.Forall₂ r as bs) (i : Nat) : Option.Rel r as[i]? bs[i]? := by
  induction h generalizing i with
  | nil => exact .none
  | cons h _ ih =>
    cases i with
    | zero => exact .some h
    | succ i => exact ih i

lemma List.Forall₂.set (h : List.Forall₂ r as bs) {a : α} {b : β} (hab : r a b) (i : Nat) :
    List.Forall₂ r (as.set i a) (bs.set i b) := by
  induction h generalizing i with
  | nil => exact .nil
  | cons h hs ih =>
    cases i with
    | zero => exact .cons hab hs
    | succ i => exact .cons h (ih i)

lemma List.Forall₂.replicate {a : α} {b : β} (hab : r a b) (n : Nat) :
    List.Forall₂ r (List.replicate n a) (List.replicate n b) := by
  induction n with
  | zero => exact .nil
  | succ n ih => exact .cons hab ih

lemma List.Forall₂.isEmpty (h : List.Forall₂ r as bs) : as.isEmpty = bs.isEmpty := by
  cases h <;> rfl

/-- A list that corresponds to two lists in a row is two lists in a row. -/
lemma List.Forall₂.exists_of_append {bs : List α} {cs : List β} (h : List.Forall₂ r (as ++ bs) cs) :
    ∃ cs1 cs2, cs = cs1 ++ cs2 ∧ List.Forall₂ r as cs1 ∧ List.Forall₂ r bs cs2 := by
  refine ⟨cs.take as.length, cs.drop as.length, (List.take_append_drop _ _).symm, ?_, ?_⟩
  · simpa using List.forall₂_take as.length h
  · simpa using List.forall₂_drop as.length h

end

namespace ArmaScript

open Tree

/-- Which identities of two runs belong together: those of nodes, of buffers and of all values but
nothing, and those of the values nothing. The second run may hold identities that the first one is
still going to give. -/
structure Link where
  ids : Nat → Nat → Prop
  nothings : Nat → Nat → Prop
  held : Nat → Prop

namespace Link

/-- A link that links more identities. -/
instance : LE Link :=
  ⟨fun κ κ' => (∀ i j, κ.ids i j → κ'.ids i j) ∧ ∀ i j, κ.nothings i j → κ'.nothings i j⟩

variable {κ κ' κ'' : Link}

lemma le_refl (κ : Link) : κ ≤ κ :=
  ⟨fun _ _ h => h, fun _ _ h => h⟩

lemma le_trans (h : κ ≤ κ') (h' : κ' ≤ κ'') : κ ≤ κ'' :=
  ⟨fun i j hij => h'.1 i j (h.1 i j hij), fun i j hij => h'.2 i j (h.2 i j hij)⟩

/-- A link between runs whose next identities are `n` and `m`. -/
structure Fits (κ : Link) (n m : Nat) : Prop where
  ids_lt : ∀ {i j : Nat}, κ.ids i j → i < n ∧ j < m
  nothings_lt : ∀ {i j : Nat}, κ.nothings i j → i < n ∧ j < m
  held_lt : ∀ {j : Nat}, κ.held j → j < m
  unique : ∀ {i j i' j' : Nat}, κ.ids i j → κ.ids i' j' → (i = i' ↔ j = j')
  apart : ∀ {i j i' j' : Nat}, κ.ids i j → κ.nothings i' j' → i ≠ i' ∧ j ≠ j'
  free : ∀ {i j : Nat}, κ.held j → ¬κ.ids i j ∧ ¬κ.nothings i j

/-- A link with one more pair of identities. -/
def add (κ : Link) (n m : Nat) : Link :=
  { κ with ids := fun i j => κ.ids i j ∨ (i = n ∧ j = m) }

/-- A link with one more pair of values nothing. -/
def addNothing (κ : Link) (n m : Nat) : Link :=
  { κ with nothings := fun i j => κ.nothings i j ∨ (i = n ∧ j = m) }

lemma le_add (κ : Link) (n m : Nat) : κ ≤ κ.add n m :=
  ⟨fun _ _ => .inl, fun _ _ h => h⟩

lemma le_addNothing (κ : Link) (n m : Nat) : κ ≤ κ.addNothing n m :=
  ⟨fun _ _ h => h, fun _ _ => .inl⟩

lemma add_self (κ : Link) (n m : Nat) : (κ.add n m).ids n m :=
  .inr ⟨rfl, rfl⟩

lemma addNothing_self (κ : Link) (n m : Nat) : (κ.addNothing n m).nothings n m :=
  .inr ⟨rfl, rfl⟩

variable {n m : Nat}

lemma Fits.mono {n' m' : Nat} (h : κ.Fits n m) (hn : n ≤ n') (hm : m ≤ m') : κ.Fits n' m' :=
  { h with
    ids_lt := fun hij => (h.ids_lt hij).imp (Nat.lt_of_lt_of_le · hn) (Nat.lt_of_lt_of_le · hm)
    nothings_lt := fun hij =>
      (h.nothings_lt hij).imp (Nat.lt_of_lt_of_le · hn) (Nat.lt_of_lt_of_le · hm)
    held_lt := fun hj => Nat.lt_of_lt_of_le (h.held_lt hj) hm }

/-- The next identities of both runs can be linked. -/
lemma Fits.add (h : κ.Fits n m) : (κ.add n m).Fits (n + 1) (m + 1) :=
  { h.mono (Nat.le_succ n) (Nat.le_succ m) with
    ids_lt := by
      rintro i j (hij | ⟨rfl, rfl⟩)
      · have := h.ids_lt hij
        omega
      · omega
    unique := by
      rintro i j i' j' (hij | ⟨rfl, rfl⟩) (hij' | ⟨rfl, rfl⟩)
      · exact h.unique hij hij'
      · have := h.ids_lt hij
        omega
      · have := h.ids_lt hij'
        omega
      · simp
    apart := by
      rintro i j i' j' (hij | ⟨rfl, rfl⟩) hij'
      · exact h.apart hij hij'
      · have := h.nothings_lt hij'
        omega
    free := by
      intro i j hj
      refine ⟨?_, (h.free hj).2⟩
      rintro (hij | ⟨rfl, rfl⟩)
      · exact (h.free hj).1 hij
      · have := h.held_lt hj
        omega }

lemma Fits.addNothing (h : κ.Fits n m) : (κ.addNothing n m).Fits (n + 1) (m + 1) :=
  { h.mono (Nat.le_succ n) (Nat.le_succ m) with
    nothings_lt := by
      rintro i j (hij | ⟨rfl, rfl⟩)
      · have := h.nothings_lt hij
        omega
      · omega
    apart := by
      rintro i j i' j' hij (hij' | ⟨rfl, rfl⟩)
      · exact h.apart hij hij'
      · have := h.ids_lt hij
        omega
    free := by
      intro i j hj
      refine ⟨(h.free hj).1, ?_⟩
      rintro (hij | ⟨rfl, rfl⟩)
      · exact (h.free hj).2 hij
      · have := h.held_lt hj
        omega }

end Link

/-! ### Trees and values -/

/-- Nodes without definitions that are built in the same way and have linked identities. -/
inductive Tree.Alike (R : NodeId → NodeId → Prop) : Tree → Tree → Prop
  | atom {i j : NodeId} {a : Atom} (h : R i j)
      (ha : a.kind ≠ .nothing ∧ a.isDirective "#define" = false) : Alike R (.atom i a) (.atom j a)
  | statement {i j : NodeId} {b : Bool} {e : Option Ending} {cs ds : List Tree} (h : R i j)
      (hcs : List.Forall₂ (Alike R) cs ds) : Alike R (.statement i b e cs) (.statement j b e ds)
  | code {i j : NodeId} {cs ds : List Tree} (h : R i j) (hcs : List.Forall₂ (Alike R) cs ds) :
      Alike R (.code i cs) (.code j ds)
  | array {i j : NodeId} {cs ds : List Tree} (h : R i j) (hcs : List.Forall₂ (Alike R) cs ds) :
      Alike R (.array i cs) (.array j ds)
  | conditional {i j : NodeId} {cs ds : List Tree} (h : R i j)
      (hcs : List.Forall₂ (Alike R) cs ds) : Alike R (.conditional i cs) (.conditional j ds)
  | resolution {i j : NodeId} {rs rs' cs ds : List Tree} (h : R i j)
      (hrs : List.Forall₂ (Alike R) rs rs') (hcs : List.Forall₂ (Alike R) cs ds) :
      Alike R (.resolution i rs cs) (.resolution j rs' ds)

abbrev Tree.AlikeList (R : NodeId → NodeId → Prop) : List Tree → List Tree → Prop :=
  List.Forall₂ (Tree.Alike R)

/-- Values that are built in the same way and have linked identities. -/
inductive Value.Alike (κ : Link) : Value → Value → Prop
  | nothing {i j : NodeId} (h : κ.nothings i j) : Alike κ (.atom i .nothing) (.atom j .nothing)
  | atom {i j : NodeId} {a : Atom} (h : κ.ids i j) (ha : a.kind ≠ .nothing) :
      Alike κ (.atom i a) (.atom j a)
  | code {i j : NodeId} {d : Bool} {cs ds : List Tree} (h : κ.ids i j)
      (hcs : Tree.AlikeList κ.ids cs ds) : Alike κ (.code i d cs) (.code j d ds)
  | array {i j : NodeId} (h : κ.ids i j) : Alike κ (.array i) (.array j)
  | privateOf {i j : NodeId} {v w : Value} (h : κ.ids i j) (hv : Alike κ v w) :
      Alike κ (.privateOf i v) (.privateOf j w)
  | whileOf {i j : NodeId} {v w : Value} (h : κ.ids i j) (hv : Alike κ v w) :
      Alike κ (.whileOf i v) (.whileOf j w)
  | forOf {i j : NodeId} {v w s t : Value} {first first' last last' : Option Value}
      (h : κ.ids i j) (hv : Alike κ v w) (hfirst : Option.Rel (Alike κ) first first')
      (hlast : Option.Rel (Alike κ) last last') (hs : Alike κ s t) :
      Alike κ (.forOf i v first last s) (.forOf j w first' last' t)
  | forSpecOf {i j : NodeId} {v w : Value} (h : κ.ids i j) (hv : Alike κ v w) :
      Alike κ (.forSpecOf i v) (.forSpecOf j w)
  | switchOf {i j : NodeId} {k : String} {v w : Value} (h : κ.ids i j) (hv : Alike κ v w) :
      Alike κ (.switchOf i k v) (.switchOf j k w)
  | ifOf {i j : NodeId} {v w : Value} (h : κ.ids i j) (hv : Alike κ v w) :
      Alike κ (.ifOf i v) (.ifOf j w)
  | elseOf {i j : NodeId} {v w s t : Value} (h : κ.ids i j) (hv : Alike κ v w)
      (hs : Alike κ s t) : Alike κ (.elseOf i v s) (.elseOf j w t)
  | tryOf {i j : NodeId} {v w : Value} (h : κ.ids i j) (hv : Alike κ v w) :
      Alike κ (.tryOf i v) (.tryOf j w)
  | withOf {i j : NodeId} {v w : Value} (h : κ.ids i j) (hv : Alike κ v w) :
      Alike κ (.withOf i v) (.withOf j w)
  | node {t u : Tree} (h : Tree.Alike κ.ids t u) : Alike κ (.node t) (.node u)

abbrev Value.AlikeList (κ : Link) : List Value → List Value → Prop :=
  List.Forall₂ (Value.Alike κ)

abbrev Value.AlikeOption (κ : Link) : Option Value → Option Value → Prop :=
  Option.Rel (Value.Alike κ)

/-- Contents that are alike: lists have elements that are alike, all else is the same. -/
inductive Content.Alike (κ : Link) : Content → Content → Prop
  | plain {c : Content} (h : ∀ vs, c ≠ .list vs) : Alike κ c c
  | list {vs ws : List Value} (h : Value.AlikeList κ vs ws) : Alike κ (.list vs) (.list ws)

namespace Tree

variable {R S : NodeId → NodeId → Prop}

mutual

theorem Alike.mono (hRS : ∀ i j, R i j → S i j) : ∀ {t u : Tree}, Alike R t u → Alike S t u
  | _, _, .atom h ha => .atom (hRS _ _ h) ha
  | _, _, .statement h hcs => .statement (hRS _ _ h) (AlikeList.mono hRS hcs)
  | _, _, .code h hcs => .code (hRS _ _ h) (AlikeList.mono hRS hcs)
  | _, _, .array h hcs => .array (hRS _ _ h) (AlikeList.mono hRS hcs)
  | _, _, .conditional h hcs => .conditional (hRS _ _ h) (AlikeList.mono hRS hcs)
  | _, _, .resolution h hrs hcs =>
    .resolution (hRS _ _ h) (AlikeList.mono hRS hrs) (AlikeList.mono hRS hcs)

theorem AlikeList.mono (hRS : ∀ i j, R i j → S i j) :
    ∀ {ts us : List Tree}, AlikeList R ts us → AlikeList S ts us
  | _, _, .nil => .nil
  | _, _, .cons h hs => .cons (h.mono hRS) (AlikeList.mono hRS hs)

end

namespace Alike

variable {t u : Tree}

lemma id (h : Alike R t u) : R t.id u.id := by
  cases h <;> assumption

lemma kind (h : Alike R t u) : t.kind = u.kind := by
  cases h <;> rfl

lemma children (h : Alike R t u) : AlikeList R t.children u.children := by
  cases h with
  | atom => exact .nil
  | statement _ hcs | code _ hcs | array _ hcs | conditional _ hcs | resolution _ _ hcs => exact hcs

lemma isMark (h : Alike R t u) (text : String) : t.isMark text = u.isMark text := by
  cases h <;> rfl

end Alike

mutual

theorem Alike.text : ∀ {t u : Tree}, Alike R t u → t.text = u.text
  | _, _, .atom _ _ => by rw [text_atom, text_atom]
  | _, _, .statement _ hcs | _, _, .code _ hcs | _, _, .array _ hcs | _, _, .conditional _ hcs
  | _, _, .resolution _ _ hcs => by simp [AlikeList.textList hcs]

theorem AlikeList.textList :
    ∀ {ts us : List Tree}, AlikeList R ts us → textList ts = textList us
  | _, _, .nil => rfl
  | _, _, .cons h hs => by rw [textList_cons, textList_cons, h.text, AlikeList.textList hs]

end

mutual

theorem Alike.isBase : ∀ {t u : Tree}, Alike R t u → t.isBase = u.isBase
  | _, _, .atom _ _ | _, _, .code _ _ | _, _, .array _ _ => by rw [isBase, isBase]
  | _, _, .statement _ hcs | _, _, .conditional _ hcs | _, _, .resolution _ _ hcs => by
    rw [isBase, isBase, AlikeList.anyBase hcs]

theorem AlikeList.anyBase :
    ∀ {ts us : List Tree}, AlikeList R ts us → anyBase ts = anyBase us
  | _, _, .nil => rfl
  | _, _, .cons h hs => by rw [anyBase, anyBase, h.isBase, AlikeList.anyBase hs]

end

/-- Rows that are alike stay so when nodes are left out by what they are alike in. -/
lemma AlikeList.filter {p : Tree → Bool} (hp : ∀ {t u}, Alike R t u → p t = p u)
    {ts us : List Tree} (h : AlikeList R ts us) : AlikeList R (ts.filter p) (us.filter p) := by
  induction h with
  | nil => exact .nil
  | cons h hs ih =>
    rw [List.filter_cons, List.filter_cons, hp h]
    split
    · exact .cons h ih
    · exact ih

variable {t u : Tree}

lemma Alike.base (h : Alike R t u) : AlikeList R t.base u.base :=
  AlikeList.filter Alike.isBase h.children

lemma Alike.elements (h : Alike R t u) : AlikeList R t.elements u.elements :=
  AlikeList.filter (fun h => by rw [h.kind]) h.children

mutual

theorem Alike.leading? : ∀ {t u : Tree}, Alike R t u → Option.Rel (Alike R) t.leading? u.leading?
  | _, _, .statement _ hcs => by
    rw [leading?, leading?]
    exact AlikeList.leadingOf? hcs
  | _, _, h@(.atom ..) | _, _, h@(.code ..) | _, _, h@(.array ..) | _, _, h@(.conditional ..)
  | _, _, h@(.resolution ..) => .some h

theorem AlikeList.leadingOf? :
    ∀ {ts us : List Tree}, AlikeList R ts us → Option.Rel (Alike R) (leadingOf? ts) (leadingOf? us)
  | _, _, .nil => .none
  | _, _, .cons h hs => by
    rw [leadingOf?, leadingOf?, h.isBase]
    split
    · exact h.leading?
    · exact AlikeList.leadingOf? hs

end

/-- Linked identities that are unique are equal in both runs or in none. -/
lemma beq_eq {i j i' j' : NodeId} (hR : ∀ {i j i' j'}, R i j → R i' j' → (i = i' ↔ j = j'))
    (h : R i j) (h' : R i' j') : (i == i') = (j == j') := by
  rw [Bool.eq_iff_iff, beq_iff_eq, beq_iff_eq]
  exact hR h h'

mutual

/-- Nodes are equal in both runs or in none. -/
theorem Alike.same (hR : ∀ {i j i' j'}, R i j → R i' j' → (i = i' ↔ j = j')) :
    ∀ {t u t' u' : Tree}, Alike R t u → Alike R t' u' → t.same t' = u.same u'
  | _, _, _, _, .atom h _, h' => by
    cases h' with
    | atom h' => rw [same, same, beq_eq hR h h']
    | _ => simp [same]
  | _, _, _, _, .statement h hcs, h' => by
    cases h' with
    | statement h' hcs' => rw [same, same, beq_eq hR h h', AlikeList.same hR hcs hcs']
    | _ => simp [same]
  | _, _, _, _, .code h hcs, h' => by
    cases h' with
    | code h' hcs' => rw [same, same, beq_eq hR h h', AlikeList.same hR hcs hcs']
    | _ => simp [same]
  | _, _, _, _, .array h hcs, h' => by
    cases h' with
    | array h' hcs' => rw [same, same, beq_eq hR h h', AlikeList.same hR hcs hcs']
    | _ => simp [same]
  | _, _, _, _, .conditional h hcs, h' => by
    cases h' with
    | conditional h' hcs' => rw [same, same, beq_eq hR h h', AlikeList.same hR hcs hcs']
    | _ => simp [same]
  | _, _, _, _, .resolution h hrs hcs, h' => by
    cases h' with
    | resolution h' hrs' hcs' =>
      rw [same, same, beq_eq hR h h', AlikeList.same hR hrs hrs', AlikeList.same hR hcs hcs']
    | _ => simp [same]

theorem AlikeList.same (hR : ∀ {i j i' j'}, R i j → R i' j' → (i = i' ↔ j = j')) :
    ∀ {ts us ts' us' : List Tree}, AlikeList R ts us → AlikeList R ts' us' →
      sameList ts ts' = sameList us us'
  | _, _, _, _, .nil, .nil => rfl
  | _, _, _, _, .nil, .cons .. | _, _, _, _, .cons .., .nil => by simp [sameList]
  | _, _, _, _, .cons h hs, .cons h' hs' => by
    rw [sameList, sameList, h.same hR h', AlikeList.same hR hs hs']

end

end Tree

namespace Value

variable {κ κ' : Link} {v w : Value}

mutual

theorem Alike.mono (hκ : κ ≤ κ') : ∀ {v w : Value}, Alike κ v w → Alike κ' v w
  | _, _, .nothing h => .nothing (hκ.2 _ _ h)
  | _, _, .atom h ha => .atom (hκ.1 _ _ h) ha
  | _, _, .code h hcs => .code (hκ.1 _ _ h) (hcs.mono hκ.1)
  | _, _, .array h => .array (hκ.1 _ _ h)
  | _, _, .privateOf h hv => .privateOf (hκ.1 _ _ h) (hv.mono hκ)
  | _, _, .whileOf h hv => .whileOf (hκ.1 _ _ h) (hv.mono hκ)
  | _, _, .forOf h hv hfirst hlast hs =>
    .forOf (hκ.1 _ _ h) (hv.mono hκ) (AlikeOption.mono hκ hfirst) (AlikeOption.mono hκ hlast)
      (hs.mono hκ)
  | _, _, .forSpecOf h hv => .forSpecOf (hκ.1 _ _ h) (hv.mono hκ)
  | _, _, .switchOf h hv => .switchOf (hκ.1 _ _ h) (hv.mono hκ)
  | _, _, .ifOf h hv => .ifOf (hκ.1 _ _ h) (hv.mono hκ)
  | _, _, .elseOf h hv hs => .elseOf (hκ.1 _ _ h) (hv.mono hκ) (hs.mono hκ)
  | _, _, .tryOf h hv => .tryOf (hκ.1 _ _ h) (hv.mono hκ)
  | _, _, .withOf h hv => .withOf (hκ.1 _ _ h) (hv.mono hκ)
  | _, _, .node h => .node (h.mono hκ.1)

theorem AlikeOption.mono (hκ : κ ≤ κ') :
    ∀ {o p : Option Value}, AlikeOption κ o p → AlikeOption κ' o p
  | _, _, .none => .none
  | _, _, .some h => .some (h.mono hκ)

end

lemma AlikeList.mono (hκ : κ ≤ κ') {vs ws : List Value} (h : AlikeList κ vs ws) :
    AlikeList κ' vs ws :=
  h.imp fun _ _ h => h.mono hκ

namespace Alike

lemma kind (h : Alike κ v w) : v.kind = w.kind := by
  cases h with
  | node h => exact h.kind
  | _ => rfl

lemma operand (h : Alike κ v w) : v.operand = w.operand := by
  cases h with
  | node h => exact congrArg Operand.thing h.kind
  | atom h ha =>
    rename_i i j a
    cases a <;> rfl
  | _ => rfl

lemma isKeyword (h : Alike κ v w) (word : String) : v.isKeyword word = w.isKeyword word := by
  cases h <;> rfl

lemma varName? (h : Alike κ v w) : v.varName? = w.varName? := by
  cases h with
  | atom h ha =>
    rename_i i j a
    cases a <;> rfl
  | _ => rfl

lemma isNothing (h : Alike κ v w) : v.isNothing = w.isNothing := by
  rw [Value.isNothing, Value.isNothing, h.kind]

/-- Values nothing are linked as such, and all others by their identities. -/
lemma id (h : Alike κ v w) :
    (κ.ids v.id w.id ∧ v.kind ≠ .nothing) ∨ ∃ i j, κ.nothings i j ∧ v = .atom i .nothing ∧
      w = .atom j .nothing := by
  cases h with
  | nothing h => exact .inr ⟨_, _, h, rfl, rfl⟩
  | atom h ha => exact .inl ⟨h, ha⟩
  | node h =>
    refine .inl ⟨h.id, ?_⟩
    cases h with
    | atom _ ha => exact ha.1
    | _ => exact nofun
  | _ => exact .inl ⟨by assumption, nofun⟩

/-- The value that a node stands for without being run. -/
lemma ofTree {t u : Tree} (h : Tree.Alike κ.ids t u) : Alike κ (.ofTree t) (.ofTree u) := by
  have hnode := Alike.node h
  cases h with
  | atom h ha => exact .atom h ha.1
  | code h hcs => exact .code h hcs
  | _ => exact hnode

end Alike

end Value

namespace Content

variable {κ κ' : Link} {c d : Content}

lemma Alike.mono (hκ : κ ≤ κ') (h : Alike κ c d) : Alike κ' c d := by
  cases h with
  | plain h => exact .plain h
  | list h => exact .list (h.mono hκ)

lemma Alike.number? (h : Alike κ c d) : c.number? = d.number? := by
  cases h <;> rfl

lemma Alike.whole (h : Alike κ c d) : c.whole = d.whole := by
  rw [Content.whole, Content.whole, h.number?]

lemma Alike.same {c' d' : Content} (h : Alike κ c d) (h' : Alike κ c' d') :
    c.same c' = d.same d' := by
  cases h with
  | list h => cases h' <;> rfl
  | plain h =>
    cases h' with
    | plain h' => rfl
    | list h' => cases c <;> rfl

end Content

/-! ### Computations -/

section

variable {σ α β : Type}

/-- Two computations ended alike: both failed, or both ended well in corresponding states. If it is
lax, one of them may also have come to a limit that the other one did not come to. -/
inductive Outcomes (lax : Prop) (rel : Link → σ → σ → Prop) (post : Link → α → α → Prop) (κ : Link) :
    EStateM.Result Fault σ α → EStateM.Result Fault σ α → Prop
  | ok {κ' : Link} {a b : α} {s t : σ} (hκ : κ ≤ κ') (hheld : κ'.held = κ.held) (hrel : rel κ' s t)
      (hpost : post κ' a b) : Outcomes lax rel post κ (.ok a s) (.ok b t)
  | error {e f : Fault} {s t : σ} : Outcomes lax rel post κ (.error e s) (.error f t)
  | left {s : σ} {r : EStateM.Result Fault σ α} (h : lax) :
      Outcomes lax rel post κ (.error .exhausted s) r
  | right {r : EStateM.Result Fault σ α} {t : σ} (h : lax) :
      Outcomes lax rel post κ r (.error .exhausted t)

/-- Computations that end alike: states that correspond in one way lead to states that correspond in
another. The link may have grown in the end. -/
def AlikeTo (lax : Prop) (rel rel' : Link → σ → σ → Prop) (κ : Link) (x y : EStateM Fault σ α)
    (post : Link → α → α → Prop) : Prop :=
  ∀ s t, rel κ s t → Outcomes lax rel' post κ (x s) (y t)

/-- Computations that end alike from corresponding states. -/
def Alike (lax : Prop) (rel : Link → σ → σ → Prop) (κ : Link) (x y : EStateM Fault σ α)
    (post : Link → α → α → Prop) : Prop :=
  AlikeTo lax rel rel κ x y post

/-- Computations that end alike and leave the states as they are. -/
def ReadAlike (rel : Link → σ → σ → Prop) (κ : Link) (x y : EStateM Fault σ α)
    (post : α → α → Prop) : Prop :=
  ∀ s t, rel κ s t → (∃ a b, x s = .ok a s ∧ y t = .ok b t ∧ post a b) ∨
    ∃ e f s' t', x s = .error e s' ∧ y t = .error f t'

variable {lax : Prop} {rel : Link → σ → σ → Prop} {κ : Link} {x y : EStateM Fault σ α}
  {rel' : Link → σ → σ → Prop} {P : Link → α → α → Prop}

lemma AlikeTo.bind {rel'' : Link → σ → σ → Prop} {Q : Link → β → β → Prop}
    {f g : α → EStateM Fault σ β} (h : AlikeTo lax rel rel' κ x y P)
    (hfg : ∀ ⦃κ'⦄, κ ≤ κ' → ∀ a b, P κ' a b → AlikeTo lax rel' rel'' κ' (f a) (g b) Q) :
    AlikeTo lax rel rel'' κ (x >>= f) (y >>= g) Q := by
  intro s t hrel
  change Outcomes lax rel'' Q κ (EStateM.bind x f s) (EStateM.bind y g t)
  unfold EStateM.bind
  have hst := h s t hrel
  revert hst
  generalize x s = r
  generalize y t = r'
  rintro (⟨hκ, hheld, hrel', hpost⟩ | - | hlax | hlax)
  · rename_i κ' a b s' t'
    have hfgst := hfg hκ a b hpost s' t' hrel'
    dsimp only
    revert hfgst
    generalize f a s' = r
    generalize g b t' = r'
    rintro (⟨hκ', hheld', hrel'', hpost'⟩ | - | hlax | hlax)
    · exact .ok (Link.le_trans hκ hκ') (hheld'.trans hheld) hrel'' hpost'
    · exact .error
    · exact .left hlax
    · exact .right hlax
  · exact .error
  · exact .left hlax
  · exact .right hlax

namespace Alike

variable {P : Link → α → α → Prop} {Q : Link → β → β → Prop}

lemma pure {a b : α} (h : P κ a b) : Alike lax rel κ (pure a) (pure b) P :=
  fun _ _ hrel => .ok κ.le_refl rfl hrel h

lemma throw {e f : Fault} : Alike lax rel κ (throw e) (throw f) P :=
  fun _ _ _ => .error

lemma bind {f g : α → EStateM Fault σ β} (h : Alike lax rel κ x y P)
    (hfg : ∀ ⦃κ'⦄, κ ≤ κ' → ∀ a b, P κ' a b → Alike lax rel κ' (f a) (g b) Q) :
    Alike lax rel κ (x >>= f) (y >>= g) Q :=
  AlikeTo.bind h hfg

lemma mono_post {Q : Link → α → α → Prop} (h : Alike lax rel κ x y P)
    (hpost : ∀ κ' a b, P κ' a b → Q κ' a b) : Alike lax rel κ x y Q := by
  intro s t hrel
  have hst := h s t hrel
  revert hst
  generalize x s = r
  generalize y t = r'
  rintro (⟨hκ, hheld, hrel', h'⟩ | - | hlax | hlax)
  · exact .ok hκ hheld hrel' (hpost _ _ _ h')
  · exact .error
  · exact .left hlax
  · exact .right hlax

lemma map {f g : α → β} (h : Alike lax rel κ x y P) (hfg : ∀ κ' a b, P κ' a b → Q κ' (f a) (g b)) :
    Alike lax rel κ (f <$> x) (g <$> y) Q := by
  rw [map_eq_pure_bind, map_eq_pure_bind]
  exact h.bind fun _ _ a b hab => .pure (hfg _ a b hab)

lemma ite {c c' : Prop} [Decidable c] [Decidable c'] {x' y' : EStateM Fault σ α} (hc : c ↔ c')
    (h : Alike lax rel κ x y P) (h' : Alike lax rel κ x' y' P) :
    Alike lax rel κ (if c then x else x') (if c' then y else y') P := by
  by_cases hc' : c'
  · rwa [if_pos (hc.mpr hc'), if_pos hc']
  · rwa [if_neg fun hcc => hc' (hc.mp hcc), if_neg hc']

/-- A failure on both sides stays one whatever follows. -/
lemma bind_of_throw {f g : β → EStateM Fault σ α} {e e' : Fault} :
    Alike lax rel κ (MonadExcept.throw e >>= f) (MonadExcept.throw e' >>= g) P :=
  fun _ _ _ => .error

end Alike

/-- A computation that ends well does so in the other run as well. -/
lemma AlikeTo.exists_ok (h : AlikeTo False rel rel' κ x y P) {s t s' : σ} {a : α}
    (hrel : rel κ s t) (hx : x s = .ok a s') :
    ∃ κ' b t', y t = .ok b t' ∧ κ ≤ κ' ∧ κ'.held = κ.held ∧ rel' κ' s' t' ∧ P κ' a b := by
  have hst := h s t hrel
  rw [hx] at hst
  generalize hy : y t = r at hst
  obtain ⟨hκ, hheld, hrel', hpost⟩ | _ | hlax | hlax := hst
  · exact ⟨_, _, _, rfl, hκ, hheld, hrel', hpost⟩
  · exact hlax.elim

/-- Computations that end alike on all items of a list. -/
lemma Alike.mapM {γ : Type} {f g : γ → EStateM Fault σ α} {R : Link → γ → γ → Prop}
    (hmono : ∀ {κ κ'} {c d : γ}, κ ≤ κ' → R κ c d → R κ' c d)
    (hpost : ∀ {κ κ'} {a b : α}, κ ≤ κ' → P κ a b → P κ' a b)
    (hfg : ∀ ⦃κ'⦄, κ ≤ κ' → ∀ c d, R κ' c d → Alike lax rel κ' (f c) (g d) P) {cs ds : List γ}
    (h : List.Forall₂ (R κ) cs ds) :
    Alike lax rel κ (cs.mapM f) (ds.mapM g) fun κ' => List.Forall₂ (P κ') := by
  induction cs generalizing κ ds with
  | nil =>
    cases h
    exact .pure .nil
  | cons c cs ih =>
    cases h with
    | cons hcd hcs =>
      rw [List.mapM_cons, List.mapM_cons]
      refine (hfg κ.le_refl _ _ hcd).bind fun κ1 h1 a b hab => ?_
      refine (ih (fun κ' hκ' => hfg (Link.le_trans h1 hκ'))
        (hcs.imp fun _ _ => hmono h1)).bind fun κ2 h2 as bs habs => ?_
      exact .pure (.cons (hpost h2 hab) habs)

lemma Alike.foldlM {γ : Type} {f g : α → γ → EStateM Fault σ α} {R : Link → γ → γ → Prop}
    (hmono : ∀ {κ κ'} {c d : γ}, κ ≤ κ' → R κ c d → R κ' c d)
    (hfg : ∀ ⦃κ'⦄, κ ≤ κ' → ∀ a b c d, P κ' a b → R κ' c d → Alike lax rel κ' (f a c) (g b d) P)
    {cs ds : List γ} (h : List.Forall₂ (R κ) cs ds) {a b : α} (hab : P κ a b) :
    Alike lax rel κ (cs.foldlM f a) (ds.foldlM g b) P := by
  induction cs generalizing κ ds a b with
  | nil =>
    cases h
    exact .pure hab
  | cons c cs ih =>
    cases h with
    | cons hcd hcs =>
      rw [List.foldlM_cons, List.foldlM_cons]
      refine (hfg κ.le_refl _ _ _ _ hab hcd).bind fun κ1 h1 a b hab => ?_
      exact ih (fun κ' hκ' => hfg (Link.le_trans h1 hκ')) (hcs.imp fun _ _ => hmono h1) hab

namespace ReadAlike

variable {P : α → α → Prop} {Q : Link → β → β → Prop}

lemma pure {a b : α} (h : P a b) : ReadAlike rel κ (pure a) (pure b) P :=
  fun _ _ _ => .inl ⟨a, b, rfl, rfl, h⟩

lemma get : ReadAlike rel κ get get (rel κ) :=
  fun s t h => .inl ⟨s, t, rfl, rfl, h⟩

lemma throw {e f : Fault} : ReadAlike rel κ (throw e) (throw f) P :=
  fun s t _ => .inr ⟨e, f, s, t, rfl, rfl⟩

lemma alike {Q : Link → α → α → Prop} (h : ReadAlike rel κ x y P)
    (hpost : ∀ a b, P a b → Q κ a b) : Alike lax rel κ x y Q := by
  intro s t hrel
  obtain ⟨a, b, hx, hy, hab⟩ | ⟨e, f, s', t', hx, hy⟩ := h s t hrel
  · rw [hx, hy]
    exact .ok κ.le_refl rfl hrel (hpost a b hab)
  · rw [hx, hy]
    exact .error

variable {f g : α → EStateM Fault σ β}

/-- What is read does not change the link. -/
lemma bind (h : ReadAlike rel κ x y P) (hfg : ∀ a b, P a b → Alike lax rel κ (f a) (g b) Q) :
    Alike lax rel κ (x >>= f) (y >>= g) Q := by
  intro s t hrel
  obtain ⟨a, b, hx, hy, hab⟩ | ⟨e, f', s', t', hx, hy⟩ := h s t hrel
  · rw [bind_of_eq_ok hx, bind_of_eq_ok hy]
    exact hfg a b hab s t hrel
  · rw [bind_of_eq_error hx, bind_of_eq_error hy]
    exact .error

/-- What is read is the same in both runs. -/
lemma bind_same (h : ReadAlike rel κ x y Eq) (hfg : ∀ a, Alike lax rel κ (f a) (g a) Q) :
    Alike lax rel κ (x >>= f) (y >>= g) Q :=
  h.bind fun a _ hab => hab ▸ hfg a

lemma read_bind {Q : β → β → Prop} (h : ReadAlike rel κ x y P)
    (hfg : ∀ a b, P a b → ReadAlike rel κ (f a) (g b) Q) :
    ReadAlike rel κ (x >>= f) (y >>= g) Q := by
  intro s t hrel
  obtain ⟨a, b, hx, hy, hab⟩ | ⟨e, f', s', t', hx, hy⟩ := h s t hrel
  · rw [bind_of_eq_ok hx, bind_of_eq_ok hy]
    exact hfg a b hab s t hrel
  · exact .inr ⟨e, f', s', t', bind_of_eq_error hx, bind_of_eq_error hy⟩

lemma read_map {Q : β → β → Prop} {f g : α → β} (h : ReadAlike rel κ x y P)
    (hfg : ∀ a b, P a b → Q (f a) (g b)) : ReadAlike rel κ (f <$> x) (g <$> y) Q := by
  rw [map_eq_pure_bind, map_eq_pure_bind]
  exact h.read_bind fun a b hab => .pure (hfg a b hab)

end ReadAlike

end

end ArmaScript
