import ArmaScript.Proofs.Arrangement
import ArmaScript.Script.Parse

/-!
# What is made of nodes

Nodes are put together with new marks into statements, code and arrays. The identities of what is new
are those from the next one on, none is taken back, and the definitions stay as they are. A property
that marks have, and that statements, code and arrays have if their parts do, goes over from the nodes
of a row to what is made of them.
-/

namespace ArmaScript

open List

namespace Build

/-- Computations that leave the definitions as they are. -/
def Keeps {α : Type} (x : Build α) : Prop :=
  ∀ ⦃σ a σ'⦄, x σ = .ok a σ' → σ'.definitions = σ.definitions

/-- What a computation gives if `k` is the next identity: no identity is taken back, the definitions
stay as they are, and the result fits the next identity afterwards. -/
def Makes {α : Type} (k : Nat) (x : Build α) (post : Nat → α → Prop) : Prop :=
  ∀ ⦃σ a σ'⦄, σ.nextId = k → x σ = .ok a σ' →
    k ≤ σ'.nextId ∧ σ'.definitions = σ.definitions ∧ post σ'.nextId a

/-- A property of nodes below the next identity that goes over to what is made of them, where new
identities are not below `n`. -/
structure Closed (n : Nat) (P : Nat → Tree → Prop) : Prop where
  mono : ∀ {k k' : Nat} {t : Tree}, k ≤ k' → P k t → P k' t
  mark : ∀ {k id : Nat} (text : String), n ≤ id ∧ id < k → P k (.atom id (.mark text))
  statement : ∀ {k id : Nat} {b : Bool} {cs : List Tree}, n ≤ id ∧ id < k → (∀ c ∈ cs, P k c) →
    P k (.statement id b none cs)
  code : ∀ {k id : Nat} {cs : List Tree}, n ≤ id ∧ id < k → (∀ c ∈ cs, P k c) → P k (.code id cs)
  array : ∀ {k id : Nat} {cs : List Tree}, n ≤ id ∧ id < k → (∀ c ∈ cs, P k c) → P k (.array id cs)
  children : ∀ {k id : Nat} {b : Bool} {e : Option Ending} {cs : List Tree},
    P k (.statement id b e cs) → ∀ c ∈ cs, P k c
  ended : ∀ {k id : Nat} {b : Bool} {e e' : Option Ending} {cs cs' : List Tree},
    P k (.statement id b e cs) → (∀ c ∈ cs', P k c) → P k (.statement id b e' cs')

lemma closed_true : Closed 0 fun _ _ => True :=
  ⟨fun _ _ => trivial, fun _ _ => trivial, fun _ _ => trivial, fun _ _ => trivial,
    fun _ _ => trivial, fun _ _ _ => trivial, fun _ _ => trivial⟩

section

variable {α β : Type} {n k : Nat} {x : Build α} {P : Nat → α → Prop} {Q : Nat → β → Prop}

namespace Makes

lemma pure {a : α} (h : P k a) : Makes k (pure a) P := by
  intro σ b σ' hσ hpure
  obtain ⟨rfl, rfl⟩ := pure_eq_ok.mp hpure
  subst hσ
  exact ⟨Nat.le_refl _, rfl, h⟩

lemma throw {fault : Fault} : Makes k (throw fault) P :=
  fun _ _ _ _ h => absurd h throw_ne_ok

lemma bind {f : α → Build β} (h : Makes k x P)
    (hf : ∀ ⦃k'⦄, k ≤ k' → ∀ a, P k' a → Makes k' (f a) Q) : Makes k (x >>= f) Q := by
  intro σ b σ' hσ hbind
  obtain ⟨a, σ1, hx, hrest⟩ := bind_eq_ok.mp hbind
  obtain ⟨hle, hσ1, ha⟩ := h hσ hx
  obtain ⟨hle', hσ', hb⟩ := hf hle a ha rfl hrest
  exact ⟨Nat.le_trans hle hle', hσ'.trans hσ1, hb⟩

lemma mapM {γ : Type} {R : Nat → γ → Prop} {f : γ → Build α}
    (hmono : ∀ {k k' c}, k ≤ k' → R k c → R k' c) (hpost : ∀ {k k' a}, k ≤ k' → P k a → P k' a)
    (hf : ∀ ⦃k'⦄, k ≤ k' → ∀ c, R k' c → Makes k' (f c) P) {cs : List γ} (h : ∀ c ∈ cs, R k c) :
    Makes k (cs.mapM f) fun k' as => ∀ a ∈ as, P k' a := by
  induction cs generalizing k with
  | nil => exact .pure (forall_mem_nil _)
  | cons c cs ih =>
    obtain ⟨hc, hcs⟩ := forall_mem_cons.mp h
    rw [mapM_cons]
    refine (hf (Nat.le_refl k) c hc).bind fun k1 h1 a ha => ?_
    refine (ih (fun k' hk' => hf (Nat.le_trans h1 hk')) fun c hc => hmono h1 (hcs c hc)).bind
      fun k2 h2 as has => .pure ?_
    exact forall_mem_cons.mpr ⟨hpost h2 ha, has⟩

end Makes

lemma keeps_of_makes {post : Nat → Nat → α → Prop} (h : ∀ k, Makes k x (post k)) : Keeps x :=
  fun σ _ _ hx => (h σ.nextId rfl hx).2.1

lemma makes_fresh : Makes k fresh fun k' id => k ≤ id ∧ id < k' := by
  intro σ a σ' hσ h
  cases h
  subst hσ
  exact ⟨Nat.le_succ _, rfl, Nat.le_refl _, Nat.lt_succ_self _⟩

lemma lift_eq_ok_iff {x : Except Fault α} {a : α} {σ σ' : BuildState} :
    lift x σ = .ok a σ' ↔ x = .ok a ∧ σ' = σ := by
  cases x with
  | ok b =>
    change EStateM.Result.ok b σ = .ok a σ' ↔ _
    simp [eq_comm]
  | error e =>
    constructor
    · intro h
      cases h
    · rintro ⟨h, -⟩
      cases h

end

def bodyOf (row : List Tree) : List Tree :=
  if (endingOf? row).isSome then row.dropLast else row

variable {row : List Tree} {t : Tree}

lemma mem_of_mem_kept (h : t ∈ Precedence.kept items row) : t ∈ row := by
  obtain ⟨dropped, hrow, -⟩ := Precedence.exists_kept_append items row
  rw [hrow]
  exact mem_append_left _ h

lemma mem_of_mem_bodyOf (h : t ∈ bodyOf row) : t ∈ row := by
  unfold bodyOf at h
  split_ifs at h
  · exact (dropLast_sublist row).subset h
  · exact h

lemma splitCommas_ne_nil (row : List Tree) : splitCommas row ≠ [] := by
  cases row with
  | nil => simp [splitCommas]
  | cons t ts =>
    unfold splitCommas
    split <;> simp

lemma mem_of_mem_splitCommas {part : List Tree} (hpart : part ∈ splitCommas row) (ht : t ∈ part) :
    t ∈ row := by
  induction row generalizing part with
  | nil =>
    rw [splitCommas, mem_singleton] at hpart
    simp [hpart] at ht
  | cons u us ih =>
    cases hparts : splitCommas us with
    | nil => exact absurd hparts (splitCommas_ne_nil us)
    | cons p ps =>
      rw [hparts] at ih
      rw [splitCommas, hparts] at hpart
      cases hcomma : u.isMark "," with
      | true =>
        rw [hcomma] at hpart
        rcases mem_cons.mp hpart with rfl | hpart
        · simp at ht
        · exact mem_cons_of_mem u (ih hpart ht)
      | false =>
        rw [hcomma] at hpart
        rcases mem_cons.mp hpart with rfl | hpart
        · rcases mem_cons.mp ht with rfl | ht
          · exact mem_cons_self
          · exact mem_cons_of_mem u (ih (by simp) ht)
        · exact mem_cons_of_mem u (ih (mem_cons_of_mem p hpart) ht)

namespace Closed

variable {n k k' : Nat} {P : Nat → Tree → Prop} {t : Tree} {ts us : List Tree}

lemma monoList (hP : Closed n P) (hk : k ≤ k') (hts : ∀ t ∈ ts, P k t) : ∀ t ∈ ts, P k' t :=
  fun t ht => hP.mono hk (hts t ht)

lemma nil : ∀ t ∈ ([] : List Tree), P k t :=
  forall_mem_nil _

lemma cons (ht : P k t) (hts : ∀ t ∈ ts, P k t) : ∀ u ∈ t :: ts, P k u :=
  forall_mem_cons.mpr ⟨ht, hts⟩

lemma concat (hts : ∀ t ∈ ts, P k t) (ht : P k t) : ∀ u ∈ ts ++ [t], P k u :=
  forall_mem_append.mpr ⟨hts, forall_mem_singleton.mpr ht⟩

variable (hP : Closed n P) (hn : n ≤ k)
include hP hn

lemma makes_mark (text : String) : Makes k (Build.mark text) P :=
  makes_fresh.bind fun _ _ _ hid => .pure (hP.mark text ⟨Nat.le_trans hn hid.1, hid.2⟩)

lemma makes_statement (hts : ∀ t ∈ ts, P k t) : Makes k (Build.statement ts) P :=
  makes_fresh.bind fun _ h _ hid =>
    .pure (hP.statement ⟨Nat.le_trans hn hid.1, hid.2⟩ (hP.monoList h hts))

lemma makes_between {node : NodeId → List Tree → Tree}
    (hnode : ∀ {k id : Nat} {cs : List Tree}, n ≤ id ∧ id < k → (∀ c ∈ cs, P k c) → P k (node id cs))
    (hts : ∀ t ∈ ts, P k t) (opening closing : String) :
    Makes k (do
      let o ← Build.mark opening
      let c ← Build.mark closing
      return node (← fresh) (o :: ts ++ [c])) P := by
  refine (hP.makes_mark hn _).bind fun k1 h1 o ho => ?_
  refine (hP.makes_mark (Nat.le_trans hn h1) _).bind fun k2 h2 c hc => ?_
  refine makes_fresh.bind fun k3 h3 id hid => .pure (hnode ⟨by omega, hid.2⟩ ?_)
  exact concat (cons (hP.mono (by omega) ho) (hP.monoList (by omega) hts)) (hP.mono h3 hc)

lemma makes_bracketed (hts : ∀ t ∈ ts, P k t) : Makes k (bracketed ts) P :=
  hP.makes_between hn hP.statement hts _ _

lemma makes_code (hts : ∀ t ∈ ts, P k t) : Makes k (Build.code ts) P :=
  hP.makes_between hn hP.code hts _ _

lemma makes_withCommas (hts : ∀ t ∈ ts, P k t) :
    Makes k (withCommas ts) fun k' us => ∀ u ∈ us, P k' u := by
  induction ts generalizing k with
  | nil => exact .pure (forall_mem_nil _)
  | cons t ts ih =>
    obtain ⟨ht, hts⟩ := forall_mem_cons.mp hts
    cases ts with
    | nil => exact .pure (forall_mem_singleton.mpr ht)
    | cons u us =>
      refine (hP.makes_mark hn _).bind fun k1 h1 comma hcomma => ?_
      refine (ih (Nat.le_trans hn h1) (hP.monoList h1 hts)).bind fun k2 h2 rest hrest => .pure ?_
      exact cons (hP.mono (Nat.le_trans h1 h2) ht) (cons (hP.mono h2 hcomma) hrest)

lemma makes_array (hts : ∀ t ∈ ts, P k t) : Makes k (Build.array ts) P := by
  unfold Build.array
  split
  · exact (Makes.throw (P := fun _ _ => False)).bind fun _ _ _ h => h.elim
  · refine (hP.makes_mark hn _).bind fun k1 h1 o ho => ?_
    refine (hP.makes_withCommas (Nat.le_trans hn h1) (hP.monoList h1 hts)).bind
      fun k2 h2 inner hinner => ?_
    refine (hP.makes_mark (by omega) _).bind fun k3 h3 c hc => ?_
    refine makes_fresh.bind fun k4 h4 id hid => .pure (hP.array ⟨by omega, hid.2⟩ ?_)
    exact concat (cons (hP.mono (by omega) ho) (hP.monoList (by omega) hinner)) (hP.mono h4 hc)

lemma makes_setEnding (ht : P k t) (ending : Option Ending) : Makes k (setEnding t ending) P := by
  cases t with
  | statement id b old cs =>
    have hbody : ∀ c ∈ (if old.isSome then cs.dropLast else cs), P k c := by
      split
      · exact fun c hc => hP.children ht c ((dropLast_sublist cs).subset hc)
      · exact hP.children ht
    cases ending with
    | none => exact .pure (hP.ended ht hbody)
    | some e =>
      refine (hP.makes_mark hn _).bind fun k1 h1 u hu => .pure (hP.ended (hP.mono h1 ht) ?_)
      exact concat (hP.monoList h1 hbody) hu
  | _ => exact .pure ht

omit hn in
mutual

theorem makes_ofExp {k : Nat} (hn : n ≤ k) :
    ∀ e : Exp Tree, (∀ t ∈ e.leaves, P k t) → Makes k (ofExp e) P
  | .leaf t, h => by
    rw [ofExp]
    exact .pure (h t (by simp))
  | .group es, h => by
    rw [ofExp]
    rw [Exp.leaves_group] at h
    exact (makes_ofExpList hn es h).bind fun _ h1 _ hts =>
      hP.makes_statement (Nat.le_trans hn h1) hts

theorem makes_ofExpList {k : Nat} (hn : n ≤ k) :
    ∀ es : List (Exp Tree), (∀ t ∈ Exp.leavesList es, P k t) →
      Makes k (ofExpList es) fun k' ts => ∀ t ∈ ts, P k' t
  | [], _ => by
    rw [ofExpList]
    exact .pure (forall_mem_nil _)
  | e :: es, h => by
    rw [ofExpList]
    rw [Exp.leavesList_cons] at h
    obtain ⟨he, hes⟩ := forall_mem_append.mp h
    refine (makes_ofExp hn e he).bind fun k1 h1 t ht => ?_
    refine (makes_ofExpList (Nat.le_trans hn h1) es (hP.monoList h1 hes)).bind
      fun k2 h2 ts hts => .pure ?_
    exact cons (hP.mono h2 ht) hts

end

lemma makes_arrange (hts : ∀ t ∈ ts, P k t) : Makes k (arrange ts) P := by
  have hlift : Makes k (lift (Precedence.arrange items (bodyOf ts)))
      fun k' e => ∀ t ∈ e.leaves, P k' t := by
    intro σ e σ' hσ h
    obtain ⟨harrange, rfl⟩ := lift_eq_ok_iff.mp h
    subst hσ
    refine ⟨Nat.le_refl _, rfl, fun t ht => ?_⟩
    rw [Precedence.leaves_arrange harrange] at ht
    exact hts t (mem_of_mem_bodyOf (mem_of_mem_kept ht))
  refine hlift.bind fun k1 h1 e he => ?_
  have hn1 := Nat.le_trans hn h1
  refine (hP.makes_ofExp hn1 e he).bind fun k2 h2 t ht => ?_
  have hn2 := Nat.le_trans hn1 h2
  split
  · exact hP.makes_setEnding hn2 ht _
  · refine (hP.makes_statement hn2 (forall_mem_singleton.mpr ht)).bind fun k3 h3 u hu => ?_
    exact hP.makes_setEnding (Nat.le_trans hn2 h3) hu _

lemma makes_arrayElements (hts : ∀ t ∈ ts, P k t) (stop : Position) :
    Makes k (arrayElements ts stop) fun k' us => ∀ u ∈ us, P k' u := by
  unfold arrayElements
  split
  · exact .pure (forall_mem_nil _)
  · refine .mapM (P := P) (R := fun k part => n ≤ k ∧ ∀ t ∈ part, P k t)
      (fun h hpart => ⟨Nat.le_trans hpart.1 h, hP.monoList h hpart.2⟩) (fun h ht => hP.mono h ht) ?_
      fun part hpart => ⟨hn, fun t ht => hts t (mem_of_mem_splitCommas hpart ht)⟩
    intro k1 _ part hpart
    split
    · exact .throw
    · exact hP.makes_arrange hpart.1 hpart.2

end Closed

end Build

end ArmaScript
