import ArmaScript.Proofs.Running
import ArmaScript.Proofs.ScopeCorrespondence
import ArmaScript.Proofs.StoreCorrespondence
import Mathlib.Logic.Function.Basic

/-!
# Worlds that correspond

Worlds of a single machine without a network are alike if their stores are, and if their machines have
the same current namespace and stacks that are alike. Runs from worlds that are alike end alike: the
steps of a run, the parameters of code, the code itself, and the loops and choices that run it.
-/

namespace ArmaScript

open Stored List

/-- Machines with the same current namespace and stacks that are alike. -/
structure Machine.Alike (layers : Space → Layers) (κ : Link) (m m' : Machine) : Prop where
  current : m.current = m'.current
  stack : ∀ space, Stack.Alike κ (layers space) (m.spaces.stack space) (m'.spaces.stack space)

/-- Worlds of a single machine, without a network, that correspond. -/
structure World.Alike (layers : Space → Layers) (κ : Link) (w w' : World) : Prop where
  store : Store.Alike κ w.store w'.store
  machines : ∃ m m', w.machines = #[m] ∧ w'.machines = #[m'] ∧ m.Alike layers κ m'
  active : w.active = 0 ∧ w'.active = 0
  network : w.network = none ∧ w'.network = none

variable {layers layers' : Space → Layers} {κ κ' : Link} {α β : Type}

lemma Machine.Alike.mono (hκ : κ ≤ κ') {m m' : Machine} (h : Alike layers κ m m') :
    Alike layers κ' m m' :=
  ⟨h.current, fun space => (h.stack space).mono hκ⟩

lemma World.Alike.exists_machine {w w' : World} (h : Alike layers κ w w') :
    ∃ m m', w.machines[w.active]? = some m ∧ w'.machines[w'.active]? = some m' ∧
      m.Alike layers κ m' := by
  obtain ⟨m, m', hm, hm', hmm⟩ := h.machines
  refine ⟨m, m', ?_, ?_, hmm⟩
  · rw [hm, h.active.1]
    rfl
  · rw [hm', h.active.2]
    rfl

lemma World.Alike.setStore (hκ : κ ≤ κ') {w w' : World} (h : Alike layers κ w w') {s t : Store}
    (hst : Store.Alike κ' s t) : Alike layers κ' { w with store := s } { w' with store := t } := by
  obtain ⟨m, m', hm, hm', hmm⟩ := h.machines
  exact ⟨hst, ⟨m, m', hm, hm', hmm.mono hκ⟩, h.active, h.network⟩

lemma World.Alike.modify {w w' : World} (h : Alike layers κ w w') {f g : Machine → Machine}
    (hfg : ∀ m m', m.Alike layers κ m' → (f m).Alike layers' κ (g m')) :
    Alike layers' κ { w with machines := w.machines.modify w.active f }
      { w' with machines := w'.machines.modify w'.active g } := by
  obtain ⟨m, m', hm, hm', hmm⟩ := h.machines
  refine ⟨h.store, ⟨f m, g m', ?_, ?_, hfg m m' hmm⟩, h.active, h.network⟩
  · rw [hm, h.active.1]
    rfl
  · rw [hm', h.active.2]
    rfl

namespace Run

/-- Computations of running that end alike. -/
abbrev Alike {α : Type} (layers : Space → Layers) (κ : Link) (x y : Run α)
    (post : Link → α → α → Prop) : Prop :=
  ArmaScript.Alike False (World.Alike layers) κ x y post

/-- Computations of running that end alike and change nothing. -/
abbrev Reads {α : Type} (layers : Space → Layers) (κ : Link) (x y : Run α) (post : α → α → Prop) :
    Prop :=
  ReadAlike (World.Alike layers) κ x y post

variable {v v' w w' : Value} {x y : Run α} {P : Link → α → α → Prop}

/-! ### Single steps -/

lemma reads_get : Reads layers κ get get (World.Alike layers κ) :=
  fun w w' h => .inl ⟨w, w', rfl, rfl, h⟩

lemma reads_lift {e f : Except Fault α} {P : α → α → Prop}
    (h : (∃ a b, e = .ok a ∧ f = .ok b ∧ P a b) ∨ ∃ d d', e = .error d ∧ f = .error d') :
    Reads layers κ (lift e) (lift f) P := by
  rcases h with ⟨a, b, rfl, rfl, hab⟩ | ⟨d, d', rfl, rfl⟩
  · exact .pure hab
  · exact .throw

lemma reads_lift_same (e : Except Fault α) : Reads layers κ (lift e) (lift e) Eq := by
  cases e with
  | ok a => exact .pure rfl
  | error d => exact .throw

lemma alike_stored {x y : Stored α} (h : ArmaScript.Alike False Store.Alike κ x y P) :
    Alike layers κ (stored x) (stored y) P := by
  intro w w' hw
  have hst := h w.store w'.store hw.store
  unfold stored
  dsimp only
  revert hst
  generalize x w.store = r
  generalize y w'.store = r'
  rintro (⟨hκ, hheld, hrel, hpost⟩ | - | hlax | hlax)
  · exact .ok hκ hheld (hw.setStore hκ hrel) hpost
  · exact .error
  · exact hlax.elim
  · exact hlax.elim

lemma reads_stored {x y : Stored α} {P : α → α → Prop} (h : ReadAlike Store.Alike κ x y P) :
    Reads layers κ (stored x) (stored y) P := by
  intro w w' hw
  unfold stored
  dsimp only
  obtain ⟨a, b, hx, hy, hab⟩ | ⟨e, f, s, t, hx, hy⟩ := h w.store w'.store hw.store
  · rw [hx, hy]
    exact .inl ⟨a, b, rfl, rfl, hab⟩
  · rw [hx, hy]
    exact .inr ⟨e, f, _, _, rfl, rfl⟩

lemma reads_machine : Reads layers κ machine machine (Machine.Alike layers κ) := by
  intro w w' h
  obtain ⟨m, m', hm, hm', hmm⟩ := h.exists_machine
  exact .inl ⟨m, m', machine_eq_ok.mpr ⟨hm, rfl⟩, machine_eq_ok.mpr ⟨hm', rfl⟩, hmm⟩

lemma reads_current : Reads layers κ current current Eq :=
  reads_machine.read_bind fun _ _ h => .pure h.current

lemma alike_setCurrent (space : Space) :
    Alike layers κ (setCurrent space) (setCurrent space) Done :=
  fun _ _ h => .ok κ.le_refl rfl (h.modify fun _ _ hm => ⟨rfl, hm.stack⟩) trivial

lemma alikeTo_modifyStack {space : Space} {n : Layers}
    {f g : Stack Value → Except Fault (Stack Value)}
    (hfg : ∀ s t, Stack.Alike κ (layers space) s t →
      ∃ s' t', f s = .ok s' ∧ g t = .ok t' ∧ Stack.Alike κ n s' t') :
    AlikeTo False (World.Alike layers) (World.Alike (Function.update layers space n)) κ
      (modifyStack space f) (modifyStack space g) Done := by
  intro w w' h
  obtain ⟨m, m', hm, hm', hmm⟩ := h.exists_machine
  obtain ⟨s', t', hs, ht, hst⟩ := hfg _ _ (hmm.stack space)
  rw [(modifyStack_eq_ok (u := ())).mpr ⟨m, s', hm, hs, rfl⟩,
    (modifyStack_eq_ok (u := ())).mpr ⟨m', t', hm', ht, rfl⟩]
  refine .ok κ.le_refl rfl (h.modify fun m m' hm => ⟨hm.current, fun other => ?_⟩) trivial
  rw [Namespaces.stack_setStack, Namespaces.stack_setStack, Function.update_apply]
  split
  · exact hst
  · exact hm.stack other

lemma alike_modifyStack {space : Space} {f g : Stack Value → Except Fault (Stack Value)}
    (hfg : ∀ s t, Stack.Alike κ (layers space) s t →
      ∃ s' t', f s = .ok s' ∧ g t = .ok t' ∧ Stack.Alike κ (layers space) s' t') :
    Alike layers κ (modifyStack space f) (modifyStack space g) Done := by
  have h := alikeTo_modifyStack hfg
  rwa [Function.update_eq_self] at h

lemma alike_assign (space : Space) (name : String) (hv : Value.Alike κ v w) :
    Alike layers κ (assign space name v) (assign space name w) Done :=
  alike_modifyStack fun _ _ hst => hst.assign name hv

lemma alike_assignTop (name : String) (hv : Value.Alike κ v w) :
    Alike layers κ (assignTop name v) (assignTop name w) Done := by
  refine reads_current.bind_same fun space => ?_
  refine alike_modifyStack fun s t hst => ?_
  obtain ⟨k, l, hk, hl, halike⟩ := hst.assignTop name hv
  refine ⟨_, _, ?_, ?_, halike⟩
  · rw [hk]
    rfl
  · rw [hl]
    rfl

lemma reads_find? (space : Space) (name : String) :
    Reads layers κ (find? space name) (find? space name) (Value.AlikeOption κ) := by
  refine reads_machine.read_bind fun m m' hm => reads_lift (.inl ?_)
  exact (hm.stack space).find? name

lemma alike_nothing : Alike layers κ nothing nothing Value.Alike :=
  alike_stored Stored.alike_nothing

lemma alike_valueOfName (space : Space) (name : String) :
    Alike layers κ (valueOfName space name) (valueOfName space name) Value.Alike := by
  refine (reads_find? space name).bind fun o p hop => ?_
  cases hop with
  | none => exact alike_nothing
  | some hv => exact .pure hv

lemma alike_readVariable (space : Space) (name : String) :
    Alike layers κ (readVariable space name) (readVariable space name) Value.Alike :=
  (alike_valueOfName space name).bind fun _ _ _ _ hv => .ite (by rw [hv.kind]) (.pure hv) .throw

lemma alike_valueOf (hv : Value.Alike κ v w) :
    Alike layers κ (valueOf v) (valueOf w) Value.Alike := by
  unfold valueOf
  rw [hv.varName?]
  cases w.varName? with
  | none => exact .pure hv
  | some name =>
    refine reads_current.bind_same fun space => ?_
    exact alike_readVariable _ name

lemma reads_contentOf (hv : Value.Alike κ v w) :
    Reads layers κ (contentOf v) (contentOf w) (Content.Alike κ) :=
  reads_stored (alike_contentOf hv)

def Fails (x : Run α) : Prop :=
  ∀ w, ∃ e w', x w = .error e w'

lemma Fails.throw (e : Fault) : Fails (throw e : Run α) :=
  fun w => ⟨e, w, rfl⟩

lemma Fails.of_bind {f : α → Run β} (hf : ∀ a, Fails (f a)) : Fails (x >>= f) := by
  intro w
  change ∃ e w', EStateM.bind x f w = .error e w'
  unfold EStateM.bind
  cases x w with
  | ok a w' => exact hf a w'
  | error e w' => exact ⟨e, w', rfl⟩

lemma Fails.bind {f : α → Run β} (hx : Fails x) : Fails (x >>= f) := by
  intro w
  obtain ⟨e, w', hw⟩ := hx w
  exact ⟨e, w', bind_of_eq_error hw⟩

lemma Fails.map {f : α → β} (hx : Fails x) : Fails (f <$> x) := by
  rw [map_eq_pure_bind]
  exact hx.bind

lemma Fails.discard (hx : Fails x) : Fails (discard x) :=
  hx.map

lemma alike_of_fails (hx : Fails x) (hy : Fails y) : Alike layers κ x y P := by
  intro w w' _
  obtain ⟨e, s, hs⟩ := hx w
  obtain ⟨f, t, ht⟩ := hy w'
  rw [hs, ht]
  exact .error

lemma fails_failAt (v : Value) (text : String) : Fails (failAt v text : Run α) :=
  .of_bind fun _ => .throw _

lemma fails_meaningless (t : Tree) : Fails (meaningless t : Run α) :=
  .of_bind fun _ => .throw _

lemma alike_failAt {text text' : String} : Alike layers κ (failAt v text) (failAt w text') P :=
  alike_of_fails (fails_failAt _ _) (fails_failAt _ _)

lemma alike_meaningless : Alike layers κ (meaningless t) (meaningless u) P :=
  alike_of_fails (fails_meaningless _) (fails_meaningless _)

/-! ### Parameters -/

/-- Corresponding items are gone through side by side. -/
lemma alike_forIn {γ : Type} {R : Link → γ → γ → Prop} {f g : γ → PUnit → Run (ForInStep PUnit)}
    (hmono : ∀ {κ κ' : Link} {c d : γ}, κ ≤ κ' → R κ c d → R κ' c d)
    (hfg : ∀ ⦃κ'⦄, κ ≤ κ' → ∀ c d, R κ' c d →
      Alike layers κ' (f c ⟨⟩) (g d ⟨⟩) fun _ p q => p = .yield ⟨⟩ ∧ q = .yield ⟨⟩)
    {cs ds : List γ} (h : Forall₂ (R κ) cs ds) :
    Alike layers κ (forIn cs ⟨⟩ f) (forIn ds ⟨⟩ g) Done := by
  induction cs generalizing κ ds with
  | nil =>
    cases h
    exact .pure trivial
  | cons c cs ih =>
    cases h with
    | cons hcd hcs =>
      rw [forIn_cons, forIn_cons]
      refine (hfg κ.le_refl _ _ hcd).bind fun κ1 h1 p q hpq => ?_
      obtain ⟨rfl, rfl⟩ := hpq
      exact ih (fun κ' hκ' => hfg (Link.le_trans h1 hκ')) (hcs.imp fun _ _ => hmono h1)

lemma alike_privateName (hv : Value.Alike κ v w) :
    Alike layers κ (privateName v) (privateName w) Equal := by
  cases hv with
  | @atom i j a hij ha =>
    cases a with
    | string q =>
      cases q with
      | none => exact .throw
      | some q =>
        refine .ite Iff.rfl (.pure rfl) alike_failAt
    | _ => exact alike_failAt
  | _ => exact alike_failAt

lemma alike_addPrivates {vs ws : List Value} (h : Value.AlikeList κ vs ws) :
    Alike layers κ (addPrivates vs) (addPrivates ws) Done := by
  refine Alike.bind (P := Done) (alike_forIn (R := Value.Alike) (fun hκ hv => hv.mono hκ) ?_ h)
    fun _ _ _ _ _ => .pure trivial
  intro κ1 h1 v w hv
  refine (alike_privateName hv).bind fun κ2 h2 name _ hname => ?_
  subst hname
  refine alike_nothing.bind fun κ3 h3 v w hv => (alike_assignTop name hv).bind fun _ _ _ _ _ => ?_
  exact .pure ⟨rfl, rfl⟩

variable {given given' : Option Value}

lemma argumentOr_alike (hv : Value.Alike κ v w) (hgiven : Value.AlikeOption κ given given') :
    Value.Alike κ (argumentOr v given) (argumentOr w given') := by
  cases hgiven with
  | none => exact hv
  | some h =>
    rw [argumentOr, argumentOr, h.isNothing]
    split
    · exact hv
    · exact h

lemma alike_addDefault (hgiven : Value.AlikeOption κ given given') {parts parts' : List Value}
    (hparts : Value.AlikeList κ parts parts') :
    Alike layers κ (addDefault given v parts) (addDefault given' w parts') Done := by
  obtain _ | ⟨hname, _ | ⟨hdefault, _⟩⟩ := hparts
  · exact alike_failAt
  · exact alike_failAt
  · refine (alike_addPrivates (.cons hname .nil)).bind fun κ1 h1 _ _ _ => ?_
    refine (reads_contentOf (hname.mono h1)).bind fun c d hcd => ?_
    cases hcd with
    | list _ => exact .throw
    | plain hc =>
      cases c with
      | text n =>
        refine reads_current.bind_same fun space => ?_
        refine (alike_assign _ n (hdefault.mono h1)).bind fun κ2 h2 _ _ _ => ?_
        exact alike_assignTop n ((argumentOr_alike hdefault hgiven).mono (Link.le_trans h1 h2))
      | _ => exact .throw

lemma alike_zipIdx {vs ws : List Value} (h : Value.AlikeList κ vs ws) (k : Nat) :
    Forall₂ (fun p q => Value.Alike κ p.1 q.1 ∧ p.2 = q.2) (vs.zipIdx k) (ws.zipIdx k) := by
  induction h generalizing k with
  | nil => exact .nil
  | cons hv _ ih => exact .cons ⟨hv, rfl⟩ (ih (k + 1))

lemma alike_argumentsOf : Alike layers κ (argumentsOf none) (argumentsOf none) Value.AlikeList := by
  have hthis : Alike layers κ (givenOrCalled none) (givenOrCalled none) Value.Alike := by
    refine reads_current.bind_same fun space => ?_
    exact alike_valueOfName _ _
  refine hthis.bind fun κ1 h1 this this' hthis => (reads_contentOf hthis).bind fun c d hcd => ?_
  cases hcd with
  | list h => exact .pure h
  | plain hc =>
    cases c with
    | list vs => exact absurd rfl (hc vs)
    | _ => exact .pure (.cons hthis .nil)

lemma alike_addParam (parameters parameters' : Value) {p p' : Value} (hp : Value.Alike κ p p')
    (hgiven : Value.AlikeOption κ given given') :
    Alike layers κ (addParam parameters p given) (addParam parameters' p' given') Done := by
  cases hp with
  | @atom i j a hkl ha =>
    cases a with
    | string q =>
      refine .ite Iff.rfl ?_ (.pure trivial)
      refine (alike_addPrivates (.cons (.atom hkl ha) .nil)).bind fun κ1 h1 _ _ _ => ?_
      cases hgiven with
      | none =>
        exact alike_of_fails (.of_bind fun _ => .of_bind fun _ => .throw _)
          (.of_bind fun _ => .of_bind fun _ => .throw _)
      | some hab => exact alike_assignTop _ (hab.mono h1)
    | _ => exact alike_failAt
  | array hkl =>
    refine (reads_stored (alike_elements hkl)).bind fun parts parts' hparts => ?_
    refine .ite (by rw [hparts.length_eq]) (alike_addDefault hgiven hparts) ?_
    exact alike_failAt
  | _ => exact alike_failAt

lemma alike_addParams (hv : Value.Alike κ v w) :
    Alike layers κ (addParams v none) (addParams w none) Done := by
  cases hv with
  | array hij =>
    refine alike_argumentsOf.bind fun κ1 h1 given given' hgiven => ?_
    refine (reads_stored (alike_elements (h1.1 _ _ hij))).bind fun listed listed' hlisted => ?_
    refine .ite (by rw [hgiven.length_eq, hlisted.length_eq]) ?_ ?_
    · exact alike_of_fails (.of_bind fun _ => .bind (.throw _)) (.of_bind fun _ => .bind (.throw _))
    · refine Alike.bind (P := Done) (alike_forIn
        (R := fun κ (p q : Value × Nat) => Value.Alike κ p.1 q.1 ∧ p.2 = q.2)
        (fun hκ hpq => ⟨hpq.1.mono hκ, hpq.2⟩) ?_ (alike_zipIdx hlisted 0))
        fun _ _ _ _ _ => .pure trivial
      rintro κ2 h2 ⟨p, k⟩ ⟨p', _⟩ ⟨hp, rfl⟩
      exact (alike_addParam _ _ hp ((hgiven.mono h2).getElem? k)).bind fun _ _ _ _ _ =>
        .pure ⟨rfl, rfl⟩
  | _ => exact .throw

/-! ### Code -/

end Run

/-- Requests that are alike. A file is not asked for by another part of a script. -/
inductive Request.Alike (κ : Link) : Request → Request → Prop
  | code {i j : NodeId} {cs ds : List Tree} {vars vars' : List (String × Value)} {space : Space}
      (h : κ.ids i j) (hcs : Tree.AlikeList κ.ids cs ds) (hvars : AlikeVariables κ vars vars') :
      Alike κ (.code ⟨i, cs, false⟩ vars space) (.code ⟨j, ds, false⟩ vars' space)
  | node {t u : Tree} (h : Tree.Alike κ.ids t u) : Alike κ (.node t) (.node u)
  | statement {t u : Tree} (h : Tree.Alike κ.ids t u) : Alike κ (.statement t) (.statement u)

def Answer.Alike (answer : Answer) : Prop :=
  ∀ ⦃layers : Space → Layers⦄ ⦃κ : Link⦄ ⦃r r' : Request⦄, Request.Alike κ r r' →
    Run.Alike layers κ (answer r) (answer r') Value.Alike

namespace Run

section

variable {answer : Answer} (hanswer : answer.Alike)
include hanswer

lemma alike_code (hv : Value.Alike κ v w) {vars vars' : List (String × Value)}
    (hvars : AlikeVariables κ vars vars') (space : Space) :
    Alike layers κ (code answer v vars space) (code answer w vars' space) Value.Alike := by
  cases hv with
  | code h hcs => exact hanswer (.code h hcs hvars)
  | _ => exact .throw

lemma alike_plainCode (hv : Value.Alike κ v w) :
    Alike layers κ (plainCode answer v) (plainCode answer w) Value.Alike :=
  alike_code hanswer hv .nil .mission

/-! ### Loops and choices -/

omit hanswer in
lemma alike_discard (h : Alike layers κ x y P) : Alike layers κ (discard x) (discard y) Done :=
  h.map fun _ _ _ _ => trivial

omit hanswer in
lemma reads_isFalse (hv : Value.Alike κ v w) : Reads layers κ (isFalse v) (isFalse w) Eq := by
  refine (reads_contentOf hv).read_bind fun c d hcd => ?_
  cases hcd with
  | list _ => exact .pure rfl
  | plain _ => split <;> exact .pure rfl

variable {c c' b b' o o' s s' : Value}

lemma alike_whileLoop {next next' : Option Value} (hc : Value.Alike κ c c')
    (hb : Value.Alike κ b b') (hnext : Value.AlikeOption κ next next') (ho : Value.Alike κ o o')
    (fuel : Nat) :
    Alike layers κ (whileLoop answer c b next fuel o) (whileLoop answer c' b' next' fuel o')
      Value.Alike := by
  induction fuel generalizing κ o o' with
  | zero => exact .throw
  | succ fuel ih =>
    refine (alike_plainCode hanswer hc).bind fun κ1 h1 v w hv => ?_
    refine (reads_isFalse hv).bind_same fun stop => ?_
    refine .ite Iff.rfl (.pure (ho.mono h1)) ?_
    refine (alike_plainCode hanswer (hb.mono h1)).bind fun κ2 h2 o o' ho => ?_
    have hle := Link.le_trans h1 h2
    cases hnext with
    | none => exact ih (hc.mono hle) (hb.mono hle) .none ho
    | some hn =>
      refine (alike_discard (alike_plainCode hanswer (hn.mono hle))).bind fun κ3 h3 _ _ _ => ?_
      have hle := Link.le_trans hle h3
      exact ih (hc.mono hle) (hb.mono hle) (.some (hn.mono hle)) (ho.mono h3)

lemma alike_whileDo (hc : Value.Alike κ c c') (hb : Value.Alike κ b b') :
    Alike layers κ (whileDo answer c b) (whileDo answer c' b') Value.Alike :=
  alike_nothing.bind fun _ h _ _ ho =>
    alike_whileLoop hanswer (hc.mono h) (hb.mono h) .none ho loopLimit

lemma alike_forSpecDo {i j : NodeId} (hij : κ.ids i j) (hb : Value.Alike κ b b') :
    Alike layers κ (forSpecDo answer i b) (forSpecDo answer j b') Value.Alike := by
  refine (reads_stored (alike_element hij 0)).bind fun s s' hs => ?_
  refine (reads_stored (alike_element hij 1)).bind fun c c' hc => ?_
  refine (reads_stored (alike_element hij 2)).bind fun n n' hn => ?_
  refine alike_nothing.bind fun κ1 h1 o o' ho => ?_
  obtain ⟨hid, -⟩ | ⟨k, l, -, rfl, rfl⟩ := hs.id
  · refine (alike_stored (alike_copyPlace (h1.1 _ _ hid) ho)).bind fun κ2 h2 _ _ _ => ?_
    have hle := Link.le_trans h1 h2
    refine (alike_discard (alike_plainCode hanswer (hs.mono hle))).bind fun κ3 h3 _ _ _ => ?_
    have hle := Link.le_trans hle h3
    exact alike_whileLoop hanswer (hc.mono hle) (hb.mono hle) (.some (hn.mono hle))
      (ho.mono (Link.le_trans h2 h3)) loopLimit
  · -- nothing may have a place or not, but it is no code
    have hcode (id : NodeId) : Fails (plainCode answer (.atom id .nothing)) := .throw _
    exact alike_of_fails (.of_bind fun _ => (hcode k).discard.bind)
      (.of_bind fun _ => (hcode l).discard.bind)

omit hanswer in
lemma alike_required {o o' : Option Value} (ho : Value.AlikeOption κ o o') :
    Reads layers κ (required o) (required o') (Value.Alike κ) := by
  cases ho with
  | none => exact .throw
  | some hv => exact .pure hv

omit hanswer in
lemma reads_bound {c d : Content} (hcd : Content.Alike κ c d) :
    Reads layers κ (bound c) (bound d) Eq := by
  cases hcd with
  | list _ => exact .throw
  | plain _ =>
    unfold bound
    split
    · exact .pure rfl
    · exact .throw

lemma alike_countLoop (name : String) (hb : Value.Alike κ b b') (ho : Value.Alike κ o o')
    (step : Int) (rounds : Nat) (i : Int) : Alike layers κ (countLoop answer name b step rounds i o)
      (countLoop answer name b' step rounds i o') Value.Alike := by
  induction rounds generalizing κ i o o' with
  | zero => exact .pure ho
  | succ rounds ih =>
    refine (alike_stored (alike_number _)).bind fun κ1 h1 n n' hn => ?_
    refine (alike_code hanswer (hb.mono h1) (.cons name hn .nil) .mission).bind
      fun κ2 h2 o o' ho => ?_
    exact ih (hb.mono (Link.le_trans h1 h2)) ho (i + step)

/-- The body of the loop must not be nothing, because its place is looked up even if it is not run. -/
lemma alike_forDo {n n' : Value} {first first' last last' : Option Value}
    (hn : Value.Alike κ n n') (hfirst : Value.AlikeOption κ first first')
    (hlast : Value.AlikeOption κ last last') (hs : Value.Alike κ s s') (hb : Value.Alike κ b b')
    (hkind : b.kind ≠ .nothing) :
    Alike layers κ (forDo answer n first last s b) (forDo answer n' first' last' s' b')
      Value.Alike := by
  refine (reads_contentOf hn).bind fun counter counter' hcounter => ?_
  refine (alike_required hfirst).bind fun first first' hfirst => ?_
  refine (reads_contentOf hfirst).bind fun first first' hfirst => ?_
  refine (alike_required hlast).bind fun last last' hlast => ?_
  refine (reads_contentOf hlast).bind fun last last' hlast => ?_
  refine (reads_contentOf hs).bind fun step step' hstep => ?_
  refine alike_nothing.bind fun κ1 h1 o o' ho => ?_
  obtain ⟨hid, -⟩ | ⟨k, l, -, rfl, -⟩ := hb.id
  · refine (alike_stored (alike_copyPlace (h1.1 _ _ hid) ho)).bind fun κ2 h2 _ _ _ => ?_
    have hle := Link.le_trans h1 h2
    refine (reads_bound (hfirst.mono hle)).bind_same fun first => ?_
    refine (reads_bound (hlast.mono hle)).bind_same fun last => ?_
    refine (reads_bound (hstep.mono hle)).bind_same fun step => ?_
    refine .ite Iff.rfl .bind_of_throw ?_
    cases hcounter with
    | list _ => exact .throw
    | plain _ =>
      split
      · exact alike_countLoop hanswer _ (hb.mono hle) (ho.mono h2) _ _ _
      · exact .throw
  · exact absurd rfl hkind

lemma alike_eachLoop (hb : Value.Alike κ b b') {i j : Nat} (hij : κ.ids i j)
    (ho : Value.Alike κ o o') (fuel k : Nat) :
    Alike layers κ (eachLoop answer b i fuel k o) (eachLoop answer b' j fuel k o') Value.Alike := by
  induction fuel generalizing κ k o o' with
  | zero => exact .throw
  | succ fuel ih =>
    refine reads_get.bind fun w w' hw => ?_
    have helement := (hw.store.buffers hij).bind fun _ _ hvs => hvs.getElem? k
    obtain ⟨hs, ht⟩ | ⟨v, v', hs, ht, hv⟩ := helement.eq_or_exists
    · rw [hs, ht]
      exact .pure ho
    · rw [hs, ht]
      refine (alike_stored (alike_number _)).bind fun κ1 h1 n n' hn => ?_
      refine (alike_code hanswer (hb.mono h1) (.cons _ (hv.mono h1) (.cons _ hn .nil))
        .mission).bind fun κ2 h2 o o' ho => ?_
      have hle := Link.le_trans h1 h2
      exact ih (hb.mono hle) (hle.1 _ _ hij) ho (k + 1)

lemma alike_forEach (hb : Value.Alike κ b b') {i j : NodeId} (hij : κ.ids i j) :
    Alike layers κ (forEach answer b i) (forEach answer b' j) Value.Alike := by
  refine alike_nothing.bind fun κ1 h1 o o' ho => ?_
  refine (reads_stored (alike_bufferOf (h1.1 _ _ hij))).bind fun k l hkl => ?_
  exact alike_eachLoop hanswer (hb.mono h1) hkl ho loopLimit 0

lemma alike_choose {f f' : Value} {s s' : Option Value} (hc : Value.Alike κ c c')
    (hf : Value.Alike κ f f') (hs : Value.AlikeOption κ s s') :
    Alike layers κ (choose answer c f s) (choose answer c' f' s') Value.Alike := by
  refine (reads_contentOf hc).bind fun content content' hcontent => ?_
  cases hcontent with
  | list _ => exact .throw
  | plain _ =>
    cases content with
    | bool b =>
      cases hf with
      | code h hcs =>
        refine .ite Iff.rfl (alike_plainCode hanswer (.code h hcs)) ?_
        cases hs with
        | none => exact alike_nothing
        | some hv => exact alike_plainCode hanswer hv
      | _ => exact .throw
    | _ => exact .throw

inductive Branch.Alike (κ : Link) : Branch → Branch → Prop
  | default {b b' : Value} (hb : Value.Alike κ b b') : Alike κ (.default b) (.default b')
  | case {c c' : Value} {b b' : Option Value} (hc : Value.Alike κ c c')
      (hb : Value.AlikeOption κ b b') : Alike κ (.case c b) (.case c' b')

omit hanswer in
lemma Branch.Alike.mono {b b' : Branch} (hκ : κ ≤ κ') (h : Branch.Alike κ b b') :
    Branch.Alike κ' b b' := by
  cases h with
  | default hb => exact .default (hb.mono hκ)
  | case hc hb => exact .case (hc.mono hκ) (hb.imp fun _ _ hv => hv.mono hκ)

lemma alike_switchValue {t u : Tree} (h : Tree.Alike κ.ids t u) :
    Alike layers κ (switchValue answer t) (switchValue answer u) Value.Alike := by
  have hvalue : Alike layers κ (valueOf (.ofTree t)) (valueOf (.ofTree u)) Value.Alike :=
    alike_valueOf (.ofTree h)
  cases h with
  | statement h hcs =>
    exact (hanswer (.statement (.statement h hcs))).bind fun _ _ _ _ hv => alike_valueOf hv
  | _ => exact hvalue

lemma alike_branch (i j : NodeId) (hasDefault : Bool) {t u : Tree} (h : Tree.Alike κ.ids t u) :
    Alike layers κ (branch answer i hasDefault t) (branch answer j hasDefault u) Branch.Alike := by
  refine (Alike.mapM (R := fun κ => Tree.Alike κ.ids) (P := Value.Alike)
    (fun hκ h => h.mono hκ.1) (fun hκ hv => hv.mono hκ)
    (fun κ' _ t u h => alike_switchValue hanswer h) h.base).bind fun κ1 h1 vs ws hvs => ?_
  have hfails (p q : NodeId) (text : String) : Alike layers κ1
      (do throw (.error (← stored (.placeOf p)) text) : Run Branch)
      (do throw (.error (← stored (.placeOf q)) text)) Branch.Alike :=
    alike_of_fails (.of_bind fun _ => .throw _) (.of_bind fun _ => .throw _)
  cases hvs with
  | nil => exact .throw
  | cons hv hvs =>
    cases hv with
    | switchOf _ hsubject =>
      refine .ite Iff.rfl (.ite Iff.rfl ?_ ?_) ?_
      · exact alike_of_fails (.of_bind fun _ => .bind (.throw _)) (.of_bind fun _ => .bind (.throw _))
      · cases hsubject with
        | code h hcs => exact .pure (.default (.code h hcs))
        | _ => exact .throw
      · obtain _ | ⟨hcolon, _ | ⟨hbody, _ | ⟨_, _⟩⟩⟩ := hvs
        · exact .pure (.case hsubject .none)
        · exact .throw
        · exact .ite (by rw [hcolon.isKeyword]) (.pure (.case hsubject (.some hbody))) .throw
        · exact .throw
    | _ => exact hfails _ _ _

omit hanswer in
lemma any_isDefault {bs bs' : List Branch} (h : Forall₂ (Branch.Alike κ) bs bs') :
    bs.any Branch.isDefault = bs'.any Branch.isDefault := by
  induction h with
  | nil => rfl
  | cons hb _ ih =>
    rw [any_cons, any_cons, ih]
    cases hb <;> rfl

lemma alike_branches (i j : NodeId) {ts us : List Tree} (h : Tree.AlikeList κ.ids ts us) :
    Alike layers κ (branches answer i ts) (branches answer j us)
      fun κ' => Forall₂ (Branch.Alike κ') := by
  refine Alike.foldlM (R := fun κ => Tree.Alike κ.ids)
    (P := fun κ => Forall₂ (Branch.Alike κ)) (fun hκ h => h.mono hκ.1) ?_ h .nil
  intro κ1 h1 bs bs' t u hbs htu
  rw [any_isDefault hbs]
  refine (alike_branch hanswer i j _ htu).bind fun κ2 h2 b b' hb => ?_
  exact .pure (rel_append (hbs.imp fun _ _ h => h.mono h2) (.cons hb .nil))

lemma alike_runCases (hs : Value.Alike κ s s') {bs bs' : List Branch}
    (hbs : Forall₂ (Branch.Alike κ) bs bs') (falling : Bool) :
    Alike layers κ (runCases answer s bs falling) (runCases answer s' bs' falling)
      Value.AlikeOption := by
  have hrun {κ : Link} {b b' : Value} (hb : Value.Alike κ b b') : Alike layers κ
      (do return some (← plainCode answer b)) (do return some (← plainCode answer b'))
      Value.AlikeOption :=
    (alike_plainCode hanswer hb).bind fun _ _ _ _ hv => .pure (.some hv)
  induction bs generalizing κ bs' falling with
  | nil =>
    cases hbs
    exact .pure .none
  | cons b bs ih =>
    obtain _ | @⟨_, _, _, bs', hb, hbs⟩ := hbs
    cases hb with
    | default _ => exact ih hs hbs falling
    | @case c c' b b' hc hb =>
      have hbs {κ1 : Link} (h1 : κ ≤ κ1) : Forall₂ (Branch.Alike κ1) bs bs' :=
        hbs.imp fun _ _ h => h.mono h1
      -- the condition is tested, and `x` and `y` are run if it fits
      have htest {x y : Run (Option Value)}
          (hfit : ∀ ⦃κ1⦄, κ ≤ κ1 → Alike layers κ1 x y Value.AlikeOption) (falling : Bool) :
          Alike layers κ (do
            let v ← valueOf c
            if (← get).store.same v s then x else runCases answer s bs falling) (do
            let v ← valueOf c'
            if (← get).store.same v s' then y else runCases answer s' bs' falling)
            Value.AlikeOption := by
        refine (alike_valueOf hc).bind fun κ1 h1 v w hv => reads_get.bind fun _ _ hw => ?_
        exact .ite (by rw [hw.store.same hv (hs.mono h1)]) (hfit h1) (ih (hs.mono h1) (hbs h1) falling)
      cases hb with
      | none => exact htest (fun κ1 h1 => ih (hs.mono h1) (hbs h1) true) falling
      | some hb =>
        cases falling with
        | true => exact hrun hb
        | false => exact htest (fun κ1 h1 => hrun (hb.mono h1)) false

lemma alike_switchDo (hs : Value.Alike κ s s') (i j : NodeId) {ts us : List Tree}
    (h : Tree.AlikeList κ.ids ts us) :
    Alike layers κ (switchDo answer s i ts) (switchDo answer s' j us) Value.Alike := by
  refine (alike_branches hanswer i j h).bind fun κ1 h1 bs bs' hbs => ?_
  refine (alike_runCases hanswer (hs.mono h1) hbs false).bind fun κ2 h2 o o' ho => ?_
  cases ho with
  | some hv => exact .pure hv
  | none =>
    have hdefault : Value.AlikeOption κ2
        (bs.findSome? Branch.default?) (bs'.findSome? Branch.default?) := by
      induction hbs with
      | nil => exact .none
      | cons hb _ ih =>
        cases hb with
        | default hb => exact .some (hb.mono h2)
        | case hc hb => exact ih
    dsimp only
    obtain ⟨hs, ht⟩ | ⟨b, b', hs, ht, hb⟩ := hdefault.eq_or_exists
    · rw [hs, ht]
      exact alike_stored (alike_boolean _)
    · rw [hs, ht]
      exact alike_plainCode hanswer hb

end

end Run

end ArmaScript
