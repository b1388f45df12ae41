import Mathlib.Tactic.Lemma

/-!
# Taking computations apart

A computation with state that ends well went through each of its steps. The lemmas here give the
steps back, one bind at a time, so that no proof has to unfold the monad. What every step keeps, the
computation keeps, also if it fails halfway: `Maintains` says so, with a lemma for each way in which
computations are put together. `Obeys` does the same for relations between the states before and
behind a computation.
-/

namespace ArmaScript

open List

variable {ε σ α β : Type} {x : EStateM ε σ α} {f : α → EStateM ε σ β} {s s'' s' : σ} {a : α} {e : ε}

variable {b : β}

lemma bind_eq_ok : (x >>= f) s = .ok b s'' ↔ ∃ a s', x s = .ok a s' ∧ f a s' = .ok b s'' := by
  change EStateM.bind x f s = .ok b s'' ↔ _
  unfold EStateM.bind
  constructor
  · intro h
    cases hx : x s with
    | ok a s' =>
      rw [hx] at h
      exact ⟨a, s', rfl, h⟩
    | error e s' =>
      rw [hx] at h
      cases h
  · rintro ⟨a, s', hx, hf⟩
    rw [hx]
    exact hf

/-- A computation goes on from where its first step ends. -/
lemma bind_of_eq_ok (h : x s = .ok a s') : (x >>= f) s = f a s' := by
  change EStateM.bind x f s = f a s'
  unfold EStateM.bind
  rw [h]

lemma bind_eq {r : EStateM.Result ε σ β} (h : x s = .ok a s') (hf : f a s' = r) : (x >>= f) s = r :=
  (bind_of_eq_ok h).trans hf

/-- A computation ends well from a state, and what it gives and the state behind it are as told. -/
def Ends (x : EStateM ε σ α) (s : σ) (p : α → σ → Prop) : Prop :=
  ∃ a s', x s = .ok a s' ∧ p a s'

namespace Ends

variable {p : α → σ → Prop} {q : β → σ → Prop}

lemma of_eq (h : x s = .ok a s') (hp : p a s') : Ends x s p :=
  ⟨a, s', h, hp⟩

lemma bind (h : Ends x s p) (hf : ∀ a s', p a s' → Ends (f a) s' q) : Ends (x >>= f) s q := by
  obtain ⟨a, s', hx, hp⟩ := h
  obtain ⟨b, s'', hb, hq⟩ := hf a s' hp
  exact ⟨b, s'', bind_eq hx hb, hq⟩

lemma mono (h : Ends x s p) {p' : α → σ → Prop} (hp : ∀ a s', p a s' → p' a s') : Ends x s p' := by
  obtain ⟨a, s', hx, ha⟩ := h
  exact ⟨a, s', hx, hp a s' ha⟩

lemma map {g : α → β} (h : Ends x s fun a => q (g a)) : Ends (g <$> x) s q := by
  obtain ⟨a, s', hx, hq⟩ := h
  exact ⟨g a, s', bind_eq hx rfl, hq⟩

lemma step (h : x s = .ok a s') (hf : Ends (f a) s' q) : Ends (x >>= f) s q := by
  obtain ⟨b, s'', hb, hq⟩ := hf
  exact ⟨b, s'', bind_eq h hb, hq⟩

end Ends

lemma bind_eq_error : (x >>= f) s = .error e s'' ↔
      x s = .error e s'' ∨ ∃ a s', x s = .ok a s' ∧ f a s' = .error e s'' := by
  change EStateM.bind x f s = .error e s'' ↔ _
  unfold EStateM.bind
  cases hx : x s with
  | ok a s' =>
    constructor
    · exact fun h => .inr ⟨a, s', rfl, h⟩
    · rintro (h | ⟨b, t, hb, h⟩)
      · cases h
      · cases hb
        exact h
  | error e' s' =>
    constructor
    · intro h
      cases h
      exact .inl rfl
    · rintro (h | ⟨b, t, hb, h⟩)
      · cases h
        rfl
      · cases hb

/-- A computation fails where its first step does. -/
lemma bind_of_eq_error (h : x s = .error e s') : (x >>= f) s = .error e s' := by
  change EStateM.bind x f s = .error e s'
  unfold EStateM.bind
  rw [h]

lemma map_eq_ok {f : α → β} : (f <$> x) s = .ok b s' ↔ ∃ a, x s = .ok a s' ∧ b = f a := by
  change EStateM.map f x s = .ok b s' ↔ _
  unfold EStateM.map
  constructor
  · intro h
    cases hx : x s with
    | ok a s1 =>
      rw [hx] at h
      cases h
      exact ⟨a, rfl, rfl⟩
    | error e s1 =>
      rw [hx] at h
      cases h
  · rintro ⟨a, hx, rfl⟩
    rw [hx]

lemma pure_eq_ok {b : α} : (pure a : EStateM ε σ α) s = .ok b s' ↔ a = b ∧ s = s' := by
  change EStateM.Result.ok a s = .ok b s' ↔ _
  simp

lemma mapM_cons_eq_ok {as : List α} {bs : List β} : (a :: as).mapM f s = .ok bs s'' ↔
      ∃ b s' cs, f a s = .ok b s' ∧ as.mapM f s' = .ok cs s'' ∧ bs = b :: cs := by
  rw [mapM_cons]
  constructor
  · intro h
    obtain ⟨b, s1, hb, hrest⟩ := bind_eq_ok.mp h
    obtain ⟨cs, s2, hcs, hpure⟩ := bind_eq_ok.mp hrest
    obtain ⟨rfl, rfl⟩ := pure_eq_ok.mp hpure
    exact ⟨b, s1, cs, hb, hcs, rfl⟩
  · rintro ⟨b, s', cs, hb, hcs, rfl⟩
    exact bind_eq hb (bind_eq hcs rfl)

lemma throw_ne_ok : (throw e : EStateM ε σ α) s ≠ .ok a s' := by
  intro h
  cases h

lemma get_eq_ok {a : σ} : (get : EStateM ε σ σ) s = .ok a s' ↔ a = s ∧ s' = s := by
  change EStateM.Result.ok s s = .ok a s' ↔ _
  simp [eq_comm]

/-- An outcome without state that is good went through each of its steps as well. -/
lemma except_bind_eq_ok {x : Except ε α} {f : α → Except ε β} :
    (x >>= f) = .ok b ↔ ∃ a, x = .ok a ∧ f a = .ok b := by
  constructor
  · intro h
    cases x with
    | error e => cases h
    | ok a => exact ⟨a, rfl, h⟩
  · rintro ⟨a, rfl, h⟩
    exact h

lemma exists_eq_ok_of_any {x : Except ε α} {p : α → Bool} (h : x.toOption.any p = true) :
    ∃ a, x = .ok a ∧ p a = true := by
  cases x with
  | error e => cases h
  | ok a => exact ⟨a, rfl, h⟩

/-- Whether a computation ended well, with a result and a state that pass a test. -/
def endsWell (t : α → σ → Bool) : EStateM.Result ε σ α → Bool
  | .ok a s => t a s
  | .error .. => false

lemma exists_of_endsWell {t : α → σ → Bool} (h : endsWell t (x s) = true) :
    Ends x s fun a s' => t a s' = true := by
  cases hx : x s with
  | ok a s' =>
    rw [hx] at h
    exact ⟨a, s', hx, h⟩
  | error e s' =>
    rw [hx] at h
    cases h

/-- Whether an outcome is a given failure. -/
def failsWith [DecidableEq ε] (e : ε) : Except ε α → Bool
  | .error e' => e' = e
  | .ok _ => false

lemma eq_error_of_failsWith [DecidableEq ε] {x : Except ε α} (h : failsWith e x = true) :
    x = .error e := by
  cases x with
  | error e' => rw [of_decide_eq_true h]
  | ok a => cases h

/-- A way to judge computations: they behave in some way, and give only results with a property. What is
judged well can be put together. -/
structure Judgement (ε σ : Type) where
  Holds {α : Type} : EStateM ε σ α → (α → Prop) → Prop
  pure {α : Type} {a : α} {post : α → Prop} : post a → Holds (pure a) post
  throw {α : Type} {post : α → Prop} (e : ε) : Holds (throw e) post
  bind {α β : Type} {x : EStateM ε σ α} {f : α → EStateM ε σ β} {post : α → Prop}
    {post2 : β → Prop} : Holds x post → (∀ a, post a → Holds (f a) post2) → Holds (x >>= f) post2

namespace Judgement.Holds

variable {J : Judgement ε σ} {x : EStateM ε σ α} {post : α → Prop} {post2 : β → Prop}

lemma pure (h : post a) : J.Holds (Pure.pure a) post :=
  J.pure h

lemma bind (hx : J.Holds x post) (hf : ∀ a, post a → J.Holds (f a) post2) :
    J.Holds (x >>= f) post2 :=
  J.bind hx hf

lemma throw (e : ε) : J.Holds (MonadExcept.throw e : EStateM ε σ α) post :=
  J.throw e

lemma throw_bind (e : ε) (f : α → EStateM ε σ β) : J.Holds (MonadExcept.throw e >>= f) post2 :=
  J.bind (J.throw e) fun _ (h : False) => h.elim

lemma seq_pure {f : α → β} (hx : J.Holds x post) :
    J.Holds (x >>= fun a => Pure.pure (f a)) fun _ => True :=
  hx.bind fun _ _ => .pure trivial

lemma map {f : α → β} (hx : J.Holds x post) (hf : ∀ a, post a → post2 (f a)) :
    J.Holds (f <$> x) post2 := by
  rw [map_eq_pure_bind]
  exact hx.bind fun a ha => .pure (hf a ha)

lemma discard (hx : J.Holds x post) : J.Holds (discard x) fun _ => True :=
  hx.map fun _ _ => trivial

lemma ite {c : Prop} [Decidable c] {y : EStateM ε σ α} (hx : c → J.Holds x post)
    (hy : ¬c → J.Holds y post) : J.Holds (if c then x else y) post := by
  split
  · exact hx ‹_›
  · exact hy ‹_›

/-- A computation that stops under a condition, or else goes on. -/
lemma guard {c : Prop} [Decidable c] {stop : EStateM ε σ PUnit} {rest : PUnit → EStateM ε σ α}
    (hstop : J.Holds stop fun _ => False) (hrest : ¬c → J.Holds (rest ⟨⟩) post) :
    J.Holds (if c then stop >>= rest else rest ⟨⟩) post :=
  .ite (fun _ => hstop.bind fun _ h => h.elim) hrest

lemma mapM {f : β → EStateM ε σ α} {bs : List β} (hf : ∀ b ∈ bs, J.Holds (f b) post) :
    J.Holds (bs.mapM f) fun as => ∀ a ∈ as, post a := by
  induction bs with
  | nil => exact .pure nofun
  | cons b bs ih =>
    obtain ⟨hb, hbs⟩ := forall_mem_cons.mp hf
    rw [mapM_cons]
    refine hb.bind fun a ha => (ih hbs).bind fun as has => .pure ?_
    exact forall_mem_cons.mpr ⟨ha, has⟩

variable {as : List α}

lemma filterM {p : α → EStateM ε σ Bool} (hp : ∀ a ∈ as, J.Holds (p a) fun _ => True) :
    J.Holds (as.filterM p) fun bs => ∀ b ∈ bs, b ∈ as := by
  have haux (kept : List α) (cs : List α) (hcs : ∀ c ∈ cs, c ∈ as) (hkept : ∀ c ∈ kept, c ∈ as) :
      J.Holds (cs.filterAuxM p kept) fun bs => ∀ b ∈ bs, b ∈ as := by
    induction cs generalizing kept with
    | nil => exact .pure hkept
    | cons c cs ih =>
      obtain ⟨hc, hcs⟩ := forall_mem_cons.mp hcs
      refine (hp c hc).bind fun b _ => ih _ hcs ?_
      cases b with
      | true => exact forall_mem_cons.mpr ⟨hc, hkept⟩
      | false => exact hkept
  refine (haux [] as (fun _ h => h) nofun).bind fun bs hbs => .pure fun b hb => ?_
  exact hbs b (mem_reverse.mp hb)

lemma foldlM {f : β → α → EStateM ε σ β} {b : β}
    (hf : ∀ b, ∀ a ∈ as, post2 b → J.Holds (f b a) post2) (hb : post2 b) :
    J.Holds (as.foldlM f b) post2 := by
  induction as generalizing b with
  | nil => exact .pure hb
  | cons a as ih =>
    rw [foldlM_cons]
    refine (hf b a mem_cons_self hb).bind fun b' hb' => ih (fun c a ha => ?_) hb'
    exact hf c a (mem_cons_of_mem _ ha)

lemma forIn {f : α → PUnit → EStateM ε σ (ForInStep PUnit)}
    (hf : ∀ a ∈ as, J.Holds (f a ⟨⟩) fun _ => True) : J.Holds (forIn as ⟨⟩ f) fun _ => True := by
  induction as with
  | nil => exact .pure trivial
  | cons a as ih =>
    obtain ⟨ha, has⟩ := forall_mem_cons.mp hf
    rw [forIn_cons]
    refine ha.bind fun step _ => ?_
    cases step with
    | done _ => exact .pure trivial
    | yield _ => exact ih has

end Judgement.Holds

/-- A computation that keeps an invariant of the state and gives only results with a property, unless
it fails, which it does only in some ways. -/
def Ensures (I : σ → Prop) (F : ε → σ → Prop) (x : EStateM ε σ α) (post : α → Prop) : Prop :=
  ∀ ⦃s⦄, I s → match x s with
    | .ok a s' => I s' ∧ post a
    | .error e s' => F e s'

namespace Ensures

variable {I : σ → Prop} {F : ε → σ → Prop} {x : EStateM ε σ α} {p : α → Prop} {q : β → Prop}

lemma of_ok (h : Ensures I F x p) (hs : I s) (hx : x s = .ok a s') : I s' ∧ p a := by
  have hmatch := h hs
  rwa [hx] at hmatch

lemma pure (h : p a) : Ensures I F (pure a) p :=
  fun _ hs => ⟨hs, h⟩

lemma throw (h : ∀ {s}, I s → F e s) : Ensures I F (throw e : EStateM ε σ α) p :=
  fun _ hs => h hs

lemma get : Ensures I F (get : EStateM ε σ σ) I :=
  fun _ hs => ⟨hs, hs⟩

lemma modify {f : σ → σ} (hf : ∀ s, I s → I (f s)) :
    Ensures I F (modify f : EStateM ε σ PUnit) fun _ => True :=
  fun s hs => ⟨hf s hs, trivial⟩

lemma bind (hx : Ensures I F x p) (hf : ∀ a, p a → Ensures I F (f a) q) :
    Ensures I F (x >>= f) q := by
  intro s hs
  change match EStateM.bind x f s with
    | .ok b s' => I s' ∧ q b
    | .error e s' => F e s'
  unfold EStateM.bind
  have hfirst := hx hs
  cases hxs : x s with
  | ok a s' =>
    rw [hxs] at hfirst
    exact hf a hfirst.2 hfirst.1
  | error e s' =>
    rw [hxs] at hfirst
    exact hfirst

lemma seq_pure {f : α → β} (hx : Ensures I F x p) :
    Ensures I F (x >>= fun a => Pure.pure (f a)) fun _ => True :=
  hx.bind fun _ _ => .pure trivial

lemma map {f : α → β} (hx : Ensures I F x p) (hf : ∀ a, p a → q (f a)) :
    Ensures I F (f <$> x) q := by
  rw [map_eq_pure_bind]
  exact hx.bind fun a ha => .pure (hf a ha)

lemma mono (hx : Ensures I F x p) {r : α → Prop} (h : ∀ a, p a → r a) : Ensures I F x r := by
  rw [← id_map x]
  exact hx.map h

lemma discard (hx : Ensures I F x p) : Ensures I F (discard x) fun _ => True :=
  hx.map fun _ _ => trivial

lemma ite {c : Prop} [Decidable c] {y : EStateM ε σ α} (hx : c → Ensures I F x p)
    (hy : ¬c → Ensures I F y p) : Ensures I F (if c then x else y) p := by
  split
  · exact hx ‹_›
  · exact hy ‹_›

lemma guard {c : Prop} [Decidable c] {stop : EStateM ε σ PUnit} {rest : PUnit → EStateM ε σ α}
    (hstop : Ensures I F stop fun _ => False) (hrest : ¬c → Ensures I F (rest ⟨⟩) p) :
    Ensures I F (if c then stop >>= rest else rest ⟨⟩) p :=
  .ite (fun _ => hstop.bind fun _ h => h.elim) hrest

end Ensures

/-- A computation that keeps an invariant of the state, whether it ends well or fails. -/
abbrev Maintains (I : σ → Prop) (x : EStateM ε σ α) (post : α → Prop) : Prop :=
  Ensures I (fun _ => I) x post

/-- Keeping an invariant is a way to judge computations. -/
def Judgement.maintaining (I : σ → Prop) : Judgement ε σ :=
  ⟨Maintains I, .pure, fun _ => .throw id, .bind⟩

/-- How the states before and behind a computation are related, if it returns and if it fails. -/
structure Conduct (σ : Type) where
  Returned : σ → σ → Prop
  Failed : σ → σ → Prop
  refl (s : σ) : Returned s s
  trans {s t u : σ} : Returned s t → Returned t u → Returned s u
  failed {s t : σ} : Returned s t → Failed s t
  failed_trans {s t u : σ} : Failed s t → Failed t u → Failed s u

/-- The conduct that asks nothing of a computation that fails. -/
def Conduct.ofReturned (R : σ → σ → Prop) (refl : ∀ s, R s s)
    (trans : ∀ s t u, R s t → R t u → R s u) : Conduct σ where
  Returned := R
  Failed _ _ := True
  refl := refl
  trans := trans _ _ _
  failed _ := trivial
  failed_trans _ _ := trivial

/-- The conduct that asks of a computation that returns no more than of one that fails. -/
def Conduct.lenient (C : Conduct σ) : Conduct σ where
  Returned := C.Failed
  Failed := C.Failed
  refl s := C.failed (C.refl s)
  trans := C.failed_trans
  failed := id
  failed_trans := C.failed_trans

/-- A computation across which states are always related. -/
structure Obeys (C : Conduct σ) (x : EStateM ε σ α) : Prop where
  of_ok {s t : σ} {a : α} : x s = .ok a t → C.Returned s t
  of_error {s t : σ} {e : ε} : x s = .error e t → C.Failed s t

namespace Obeys

variable {C : Conduct σ} {x : EStateM ε σ α}

lemma lenient (h : Obeys C x) : Obeys C.lenient x :=
  ⟨fun hx => C.failed (h.of_ok hx), h.of_error⟩

/-- A computation that changes the state in one way, whether it returns or fails. -/
lemma of_change (h : ∀ s, match x s with
    | .ok _ t => C.Returned s t
    | .error _ t => C.Returned s t) : Obeys C x := by
  constructor
  · intro s t a hx
    have hs := h s
    rwa [hx] at hs
  · intro s t e hx
    have hs := h s
    rw [hx] at hs
    exact C.failed hs

lemma pure (a : α) : Obeys C (pure a : EStateM ε σ α) :=
  .of_change C.refl

lemma throw (e : ε) : Obeys C (throw e : EStateM ε σ α) :=
  .of_change C.refl

lemma throw_bind (e : ε) (f : α → EStateM ε σ β) : Obeys C (MonadExcept.throw e >>= f) :=
  .of_change C.refl

lemma get : Obeys C (get : EStateM ε σ σ) :=
  .of_change C.refl

lemma modify {f : σ → σ} (hf : ∀ s, C.Returned s (f s)) : Obeys C (modify f : EStateM ε σ PUnit) :=
  .of_change hf

lemma bind (hx : Obeys C x) (hf : ∀ a, Obeys C (f a)) : Obeys C (x >>= f) := by
  constructor
  · intro s u b h
    obtain ⟨a, t, hst, htu⟩ := bind_eq_ok.mp h
    exact C.trans (hx.of_ok hst) ((hf a).of_ok htu)
  · intro s u e h
    obtain h | ⟨a, t, hst, htu⟩ := bind_eq_error.mp h
    · exact hx.of_error h
    · exact C.failed_trans (C.failed (hx.of_ok hst)) ((hf a).of_error htu)

lemma seq_pure {f : α → β} (hx : Obeys C x) : Obeys C (x >>= fun a => Pure.pure (f a)) :=
  hx.bind fun _ => .pure _

lemma map {f : α → β} (hx : Obeys C x) : Obeys C (f <$> x) := by
  rw [map_eq_pure_bind]
  exact hx.seq_pure

lemma discard (hx : Obeys C x) : Obeys C (discard x) :=
  hx.map

lemma ite {c : Prop} [Decidable c] {y : EStateM ε σ α} (hx : Obeys C x) (hy : Obeys C y) :
    Obeys C (if c then x else y) := by
  split
  · exact hx
  · exact hy

/-- A failure that is caught. What catches it may fail as well, and what it returns to must be related
to the state before all. -/
lemma tryCatch {handle : ε → EStateM ε σ α} (hx : Obeys C x)
    (hhandle : ∀ e, Obeys C.lenient (handle e))
    (hreturn : ∀ {s t u e a}, C.Failed s t → handle e t = .ok a u → C.Returned s u) :
    Obeys C (tryCatch x handle) := by
  have hcatch (s : σ) : MonadExcept.tryCatch x handle s = EStateM.tryCatch x handle s := rfl
  constructor
  · intro s u a h
    rw [hcatch] at h
    unfold EStateM.tryCatch at h
    cases hxs : x s with
    | ok b t =>
      rw [hxs] at h
      cases h
      exact hx.of_ok hxs
    | error e t =>
      rw [hxs] at h
      exact hreturn (hx.of_error hxs) h
  · intro s u e h
    rw [hcatch] at h
    unfold EStateM.tryCatch at h
    cases hxs : x s with
    | ok b t =>
      rw [hxs] at h
      cases h
    | error e t =>
      rw [hxs] at h
      exact C.failed_trans (hx.of_error hxs) ((hhandle e).of_error h)

/-- A computation that stops under a condition, or else goes on. -/
lemma guard {c : Prop} [Decidable c] {stop : EStateM ε σ PUnit} {rest : PUnit → EStateM ε σ α}
    (hstop : Obeys C stop) (hrest : Obeys C (rest ⟨⟩)) :
    Obeys C (if c then stop >>= rest else rest ⟨⟩) :=
  .ite (hstop.bind fun _ => hrest) hrest

lemma mapM {f : β → EStateM ε σ α} (hf : ∀ b, Obeys C (f b)) (bs : List β) :
    Obeys C (bs.mapM f) := by
  induction bs with
  | nil => exact .pure _
  | cons b bs ih =>
    rw [mapM_cons]
    exact (hf b).bind fun _ => ih.bind fun _ => .pure _

lemma foldlM {f : β → α → EStateM ε σ β} (hf : ∀ b a, Obeys C (f b a)) (as : List α) (b : β) :
    Obeys C (as.foldlM f b) := by
  induction as generalizing b with
  | nil => exact .pure _
  | cons a as ih =>
    rw [foldlM_cons]
    exact (hf b a).bind fun b => ih b

lemma forIn {f : α → β → EStateM ε σ (ForInStep β)} (hf : ∀ a b, Obeys C (f a b)) (as : List α)
    (b : β) : Obeys C (forIn as b f) := by
  induction as generalizing b with
  | nil => exact .pure _
  | cons a as ih =>
    rw [forIn_cons]
    refine (hf a b).bind fun step => ?_
    cases step with
    | done b => exact .pure b
    | yield b => exact ih b

end Obeys

end ArmaScript
