import ArmaScript.Proofs.Candidates
import ArmaScript.Proofs.RunCorrespondence

/-!
# Statements that correspond

Commands, statements and nodes that are alike are run alike, and so are all requests, at every depth of
nesting.
-/

namespace ArmaScript

open Stored List

variable {layers : Space → Layers} {κ : Link} {α β : Type}

lemma Content.Alike.eq_or_list {c d : Content} (h : Content.Alike κ c d) :
    c = d ∨ ∃ vs ws, c = .list vs ∧ d = .list ws := by
  cases h with
  | plain _ => exact .inl rfl
  | list _ => exact .inr ⟨_, _, rfl, rfl⟩

lemma Value.kind_operand (v : Value) : v.operand.kind = v.kind := by
  unfold operand
  split <;> rfl

namespace Run

variable {v v' w w' : Value} {i j k l : NodeId}

/-! ### Numbers, texts and truth values -/

lemma alike_ofBool (b : Bool) : Alike layers κ (ofBool b) (ofBool b) Value.Alike :=
  alike_stored (alike_boolean b)

lemma alike_ofNum (n : Num) : Alike layers κ (ofNum n) (ofNum n) Value.Alike :=
  alike_stored (alike_number n)

lemma alike_ofInt (n : Int) : Alike layers κ (ofInt n) (ofInt n) Value.Alike :=
  alike_ofNum _

lemma reads_numberOf (hv : Value.Alike κ v w) : Reads layers κ (numberOf v) (numberOf w) Eq := by
  refine (reads_contentOf hv).read_bind fun c d hcd => ?_
  obtain rfl | ⟨vs, ws, rfl, rfl⟩ := hcd.eq_or_list
  · split
    · exact .pure rfl
    · exact .throw
  · exact .throw

lemma reads_textOf (hv : Value.Alike κ v w) : Reads layers κ (textOf v) (textOf w) Eq := by
  refine (reads_contentOf hv).read_bind fun c d hcd => ?_
  obtain rfl | ⟨vs, ws, rfl, rfl⟩ := hcd.eq_or_list
  · split
    · exact .pure rfl
    · exact .throw
  · exact .throw

lemma reads_spaceOf (hv : Value.Alike κ v w) : Reads layers κ (spaceOf v) (spaceOf w) Eq := by
  refine (reads_textOf hv).read_bind fun name _ hname => ?_
  subst hname
  exact reads_lift_same _

lemma alike_compare (op : Comparison) (hv : Value.Alike κ v w) (hv' : Value.Alike κ v' w') :
    Alike layers κ (compare op v v') (compare op w w') Value.Alike := by
  refine (reads_contentOf hv).bind fun c d hcd => (reads_contentOf hv').bind fun c' d' hcd' => ?_
  have hequal := hcd.same hcd'
  cases op with
  | equal | unequal =>
    dsimp only
    rw [hequal]
    exact alike_ofBool _
  | isEqualTo => exact .throw
  | configChild => exact .throw
  | _ =>
    obtain rfl | ⟨vs, ws, rfl, rfl⟩ := hcd.eq_or_list
    · obtain rfl | ⟨vs', ws', rfl, rfl⟩ := hcd'.eq_or_list
      · cases c <;> cases c' <;> first | exact alike_ofBool _ | exact .throw
      · cases c <;> exact .throw
    · exact .throw

lemma alike_compute (op : Arithmetic) (hv : Value.Alike κ v w) (hv' : Value.Alike κ v' w') :
    Alike layers κ (compute op v v') (compute op w w') Value.Alike := by
  refine (reads_numberOf hv).bind fun m _ hm => (reads_numberOf hv').bind fun n _ hn => ?_
  subst hm hn
  have hcomputed (r : Except Fault Num) : Alike layers κ (do ofNum (← lift r))
      (do ofNum (← lift r)) Value.Alike := by
    refine (reads_lift_same r).bind_same fun n => ?_
    exact alike_ofNum n
  cases op with
  | max => exact alike_ofNum _
  | floor => exact .throw
  | _ => exact hcomputed _

variable {c d : Content} {t u : Tree} {o o' : Value}

lemma truth_alike (h : Content.Alike κ c d) : truth c = truth d := by
  cases h <;> rfl

lemma alike_joinTexts (hv : Value.Alike κ v w) (hv' : Value.Alike κ v' w') :
    Alike layers κ (joinTexts v v') (joinTexts w w') Value.Alike := by
  cases hv with
  | @atom i j a h ha =>
    cases a with
    | string q =>
      cases q with
      | none => exact .throw
      | some q =>
        refine (reads_textOf hv').bind_same fun text => ?_
        exact alike_stored (alike_string _ _)
    | _ => exact .throw
  | _ => exact .throw

lemma alike_toArray (hv : Value.Alike κ v w) :
    Alike layers κ (toArray v) (toArray w) Value.Alike := by
  refine (reads_textOf hv).bind_same fun text => ?_
  refine (Alike.mapM (R := fun _ (c d : Char) => c = d) (P := Value.Alike) (fun _ h => h)
    (fun hκ hv => hv.mono hκ) ?_ (forall₂_refl text.toList)).bind fun _ _ vs ws hvs => ?_
  · intro κ' _ c d hcd
    subst hcd
    exact alike_ofInt _
  · exact alike_stored (alike_array hvs)

lemma alike_charOf (h : Content.Alike κ c d) : Alike layers κ (charOf c) (charOf d) Equal := by
  unfold charOf
  rw [h.whole]
  refine (reads_lift_same _).bind_same fun n => ?_
  exact .ite Iff.rfl .bind_of_throw (.ite Iff.rfl .bind_of_throw (.pure rfl))

lemma alike_toText (hij : κ.ids i j) : Alike layers κ (toText i) (toText j) Value.Alike := by
  refine (reads_stored (alike_elements hij)).bind fun vs ws hvs => ?_
  refine (Alike.mapM (R := Value.Alike) (P := Equal) (fun hκ hv => hv.mono hκ) (fun _ h => h)
    (fun _ _ v w hv => ?_) hvs).bind fun _ _ cs ds hcs => ?_
  · exact (reads_contentOf hv).bind fun _ _ hcd => alike_charOf hcd
  · rw [forall₂_eq_eq_eq] at hcs
    subst hcs
    exact alike_stored (alike_string _ _)

/-! ### Arrays -/

lemma alike_select (hij : κ.ids i j) (hv : Value.Alike κ v w) :
    Alike layers κ (select i v) (select j w) Value.Alike := by
  refine (reads_contentOf hv).bind fun c d hcd => ?_
  dsimp only
  rw [hcd.number?]
  cases d.number? with
  | none => exact .bind_of_throw
  | some n =>
    refine Alike.bind (P := Equal) (.pure rfl) fun κ1 h1 n _ hn => ?_
    subst hn
    refine (reads_lift_same n.round).bind_same fun k => ?_
    refine (reads_stored (alike_elements (h1.1 _ _ hij))).bind fun vs ws hvs => ?_
    rw [hvs.length_eq]
    have helement : Value.AlikeOption κ1 ((index? ws.length k).bind (vs[·]?))
        ((index? ws.length k).bind (ws[·]?)) := by
      cases index? ws.length k with
      | none => exact .none
      | some p => exact hvs.getElem? p
    obtain ⟨hs, ht⟩ | ⟨v, w, hs, ht, hv⟩ := helement.eq_or_exists
    · rw [hs, ht]
      exact alike_failAt
    · rw [hs, ht]
      exact .pure hv

lemma alike_selectRange (hij : κ.ids i j) (hkl : κ.ids k l) :
    Alike layers κ (selectRange i k) (selectRange j l) Value.Alike := by
  refine (reads_stored (alike_element hkl 0)).bind fun _ _ hv => ?_
  refine (reads_contentOf hv).bind fun start start' hstart => ?_
  refine (reads_stored (alike_element hkl 1)).bind fun _ _ hv => ?_
  refine (reads_contentOf hv).bind fun count count' hcount => ?_
  refine (reads_stored (alike_elements hij)).bind fun vs ws hvs => ?_
  refine (reads_stored (alike_comparable hstart)).bind_same fun first => ?_
  refine .ite (by rw [hvs.length_eq]) ?_ ?_
  · exact alike_of_fails (.bind (fails_failAt _ _)) (.bind (fails_failAt _ _))
  · refine (reads_stored (alike_comparable hcount)).bind_same fun n => ?_
    refine (reads_lift_same _).bind_same fun last => ?_
    split
    · refine alike_stored (alike_array ?_)
      unfold slice
      rw [hvs.length_eq]
      exact forall₂_take _ (forall₂_drop _ hvs)
    · exact .throw

lemma reads_plainContent (hv : Value.Alike κ v w) : Reads layers κ (plainContent v) (plainContent w)
      fun c d => c = d ∧ (v.isNothing = true → c = .none) := by
  obtain ⟨-, hkind⟩ | ⟨i, j, -, rfl, rfl⟩ := hv.id
  · refine (reads_contentOf hv).read_bind fun c d hcd => ?_
    have hnothing : v.isNothing = true → c = .none := fun h => absurd (eq_of_beq h) hkind
    cases hcd with
    | list _ => exact .throw
    | plain hc =>
      cases c with
      | list vs => exact absurd rfl (hc vs)
      | _ => exact .pure ⟨rfl, hnothing⟩
  · exact fun _ _ _ => .inl ⟨.none, .none, rfl, rfl, rfl, fun _ => rfl⟩

lemma alike_filterM {p q : Value → Run Bool}
    (hpq : ∀ ⦃κ'⦄, κ ≤ κ' → ∀ v w, Value.Alike κ' v w → Alike layers κ' (p v) (q w) Equal)
    {vs ws : List Value} (h : Value.AlikeList κ vs ws) :
    Alike layers κ (vs.filterM p) (ws.filterM q) Value.AlikeList := by
  have haux {us xs : List Value} (hus : Value.AlikeList κ us xs) :
      Alike layers κ (vs.filterAuxM p us) (ws.filterAuxM q xs) Value.AlikeList := by
    induction vs generalizing κ ws us xs with
    | nil =>
      cases h
      exact .pure hus
    | cons v vs ih =>
      cases h with
      | cons hv h =>
        refine (hpq κ.le_refl _ _ hv).bind fun κ1 h1 b _ hb => ?_
        subst hb
        refine ih (fun κ' hκ' => hpq (Link.le_trans h1 hκ')) (Value.AlikeList.mono h1 h) ?_
        cases b with
        | false => exact hus.mono h1
        | true => exact .cons (hv.mono h1) (hus.mono h1)
  exact (haux .nil).bind fun _ _ _ _ hvs => .pure (rel_reverse hvs)

/-- What two elements that are alike are compared by: their identities and their contents. The
identity of nothing does not matter, because all of them have the same content. -/
def Compared (κ : Link) (p q : NodeId × Content) : Prop :=
  ∃ v w, Value.Alike κ v w ∧ p.1 = v.id ∧ q.1 = w.id ∧ p.2 = q.2 ∧
    (v.isNothing = true → p.2 = .none)

lemma any_compared {s t : Store} (h : Store.Alike κ s t) {ps qs : List (NodeId × Content)}
    (hps : Forall₂ (Compared κ) ps qs) (hv : Value.Alike κ v w)
    (hc : v.isNothing = true → c = .none) : (ps.any fun (id, d) => id == v.id || c.same d) =
      qs.any fun (id, d) => id == w.id || c.same d := by
  induction hps with
  | nil => rfl
  | @cons p q ps qs hpq _ ih =>
    obtain ⟨id, d⟩ := p
    obtain ⟨id', d'⟩ := q
    obtain ⟨u, u', hu, rfl, rfl, rfl, hd⟩ := hpq
    rw [any_cons, any_cons, ih]
    congr 1
    obtain hid | ⟨hnothing, hnothing'⟩ := h.beq_id hu hv
    · dsimp only
      rw [hid]
    · obtain rfl : c = .none := hc hnothing'
      obtain rfl : d = .none := hd hnothing
      simp [Content.same]

lemma alike_subtractArrays (hij : κ.ids i j) (hkl : κ.ids k l) :
    Alike layers κ (subtractArrays i k) (subtractArrays j l) Value.Alike := by
  refine (reads_stored (alike_elements hkl)).bind fun vs ws hvs => ?_
  refine (Alike.mapM (R := Value.Alike) (P := Compared) (fun hκ hv => hv.mono hκ) ?_
    (fun _ _ v w hv => ?_) hvs).bind fun κ1 h1 ps qs hps => ?_
  · rintro κ κ' p q hκ ⟨v, w, hv, hpq⟩
    exact ⟨v, w, hv.mono hκ, hpq⟩
  · exact (reads_plainContent hv).bind fun c d hcd => .pure ⟨v, w, hv, rfl, rfl, hcd⟩
  · refine (reads_stored (alike_elements (h1.1 _ _ hij))).bind fun vs ws hvs => ?_
    refine (alike_filterM (fun κ2 h2 v w hv => ?_) hvs).bind fun _ _ us us' hus =>
      alike_stored (alike_array hus)
    refine (reads_plainContent hv).bind fun c d hcd s t hst => ?_
    obtain ⟨rfl, hc⟩ := hcd
    refine Alike.pure (P := Equal) ?_ s t hst
    have hps := hps.imp fun p q hpq => show Compared κ2 p q by
      obtain ⟨v, w, hv, hpq⟩ := hpq
      exact ⟨v, w, hv.mono h2, hpq⟩
    rw [any_compared hst.store hps hv hc]

lemma reads_holds (hij : κ.ids i j) (hv : Value.Alike κ v w) :
    Reads layers κ (holds i v) (holds j w) Eq := by
  refine reads_get.read_bind fun s t hst => ?_
  refine (reads_stored (alike_elements hij)).read_bind fun vs ws hvs => .pure ?_
  induction hvs with
  | nil => rfl
  | cons hu _ ih => rw [any_cons, any_cons, ih, hst.store.same hu hv]

lemma reads_find (hij : κ.ids i j) (hv : Value.Alike κ v w) :
    Reads layers κ (find i v) (find j w) Eq := by
  refine reads_get.read_bind fun s t hst => ?_
  refine (reads_stored (alike_elements hij)).read_bind fun vs ws hvs => ?_
  have hindex : vs.findIdx? (s.store.same · v) = ws.findIdx? (t.store.same · w) := by
    induction hvs with
    | nil => rfl
    | cons hu _ ih => rw [findIdx?_cons, findIdx?_cons, ih, hst.store.same hu hv]
  rw [hindex]
  split <;> exact .pure rfl

lemma alike_pushBack (hij : κ.ids i j) (hv : Value.Alike κ v w) :
    Alike layers κ (pushBack i v) (pushBack j w) Equal := by
  refine (alike_stored (alike_append hij hv)).bind fun _ h _ _ _ => ?_
  refine (reads_stored (alike_length (h.1 _ _ hij))).bind_same fun n => ?_
  exact .pure rfl

/-! ### Namespaces -/

lemma alike_nameOf (command : String) (hv : Value.Alike κ v w) :
    Alike layers κ (nameOf command v) (nameOf command w) Done :=
  .ite (by rw [hv.kind]) alike_failAt (.pure trivial)

lemma alike_setVariable (hv : Value.Alike κ v w) (hij : κ.ids i j) :
    Alike layers κ (setVariable v i) (setVariable w j) Done := by
  refine (reads_stored (alike_elements hij)).bind fun vs ws hvs => ?_
  refine .ite (by rw [hvs.length_eq]) ?_ ?_
  · exact alike_of_fails (.bind (fails_failAt _ _)) (.bind (fails_failAt _ _))
  · refine (reads_stored (alike_element hij 0)).bind fun name name' hname => ?_
    refine (alike_nameOf _ hname).bind fun κ1 h1 _ _ _ => ?_
    refine (reads_stored (alike_element (h1.1 _ _ hij) 1)).bind fun u u' hu => ?_
    refine (reads_spaceOf (hv.mono h1)).bind_same fun space => ?_
    refine (reads_textOf (hname.mono h1)).bind_same fun text => ?_
    exact alike_assign space text hu

lemma alike_getVariable (hv : Value.Alike κ v w) (hv' : Value.Alike κ v' w') :
    Alike layers κ (getVariable v v') (getVariable w w') Value.Alike := by
  obtain ⟨hid, -⟩ | ⟨i, j, -, rfl, rfl⟩ := hv'.id
  · refine ((reads_stored (alike_placeOf hid)).read_map
      (Q := fun _ _ => True) fun _ _ _ => trivial).bind fun _ _ _ => ?_
    refine (reads_spaceOf hv).bind_same fun space => ?_
    refine (reads_textOf hv').bind_same fun text => ?_
    exact alike_readVariable space text
  · -- nothing may have a place or not, but it has no text
    have htext (id : NodeId) : Fails (textOf (.atom id .nothing)) := fun w => ⟨_, w, rfl⟩
    exact alike_of_fails (.of_bind fun _ => .of_bind fun _ => (htext i).bind)
      (.of_bind fun _ => .of_bind fun _ => (htext j).bind)

lemma alike_getVariableOr (hv : Value.Alike κ v w) (hij : κ.ids i j) :
    Alike layers κ (getVariableOr v i) (getVariableOr w j) Value.Alike := by
  refine (reads_stored (alike_elements hij)).bind fun vs ws hvs => ?_
  refine .ite (by rw [hvs.length_eq]) ?_ ?_
  · exact alike_of_fails (.bind (fails_failAt _ _)) (.bind (fails_failAt _ _))
  · refine (reads_stored (alike_element hij 0)).bind fun name name' hname => ?_
    refine (alike_nameOf _ hname).bind fun κ1 h1 _ _ _ => ?_
    refine (alike_getVariable (hv.mono h1) (hname.mono h1)).bind fun κ2 h2 u u' hu => ?_
    refine .ite (by rw [hu.isNothing]) ?_ (.pure hu)
    refine (reads_stored (alike_element (h2.1 _ _ (h1.1 _ _ hij)) 1)).alike fun _ _ h => h

lemma alike_of_network {x y : Run α} {P : Link → α → α → Prop} :
    Alike layers κ
      (do
        if (← get).network.isNone then throw .missingPart
        x)
      (do
        if (← get).network.isNone then throw .missingPart
        y) P := by
  refine reads_get.bind fun s t hst => ?_
  rw [hst.network.1, hst.network.2]
  exact .bind_of_throw

/-! ### All commands -/

section

variable {answer : Answer} (hanswer : answer.Alike)
include hanswer

lemma alike_logic (op : Logic) (hv : Value.Alike κ v w) (hv' : Value.Alike κ v' w') :
    Alike layers κ (logic answer op v v') (logic answer op w w') Value.Alike := by
  have hcombine {κ1 : Link} (h1 : κ ≤ κ1) {o o' : Value} (ho : Value.Alike κ1 o o') :
      Alike layers κ1
        (do stored (.boolean (combine op (truth (← contentOf v)) (truth (← contentOf o)))))
        (do stored (.boolean (combine op (truth (← contentOf w)) (truth (← contentOf o')))))
        Value.Alike := by
    refine (reads_contentOf (hv.mono h1)).bind fun c d hcd => ?_
    refine (reads_contentOf ho).bind fun c' d' hcd' => ?_
    rw [truth_alike hcd, truth_alike hcd']
    exact alike_stored (alike_boolean _)
  have hright := hv'
  cases hv' with
  | code h hcs =>
    refine (alike_plainCode hanswer (.code h hcs)).bind fun κ1 h1 o o' ho => ?_
    refine .ite (by rw [ho.kind]) ?_ (hcombine h1 ho)
    exact alike_of_fails (.bind (fails_failAt _ _)) (.bind (fails_failAt _ _))
  | _ => exact hcombine κ.le_refl hright

lemma alike_unary (c : Command) (hv : Value.Alike κ v w) :
    Alike layers κ (unary answer c v) (unary answer c w) Value.Alike := by
  unfold unary
  obtain ⟨hs, ht⟩ | ⟨x, y, hs, ht, hxy⟩ := (alike_unaryHelper c hv).eq_or_exists
  · rw [hs, ht]
    clear hs ht
    cases c with
    | params => exact (alike_addParams hv).bind fun _ _ _ _ _ => alike_nothing
    | call => exact alike_plainCode hanswer hv
    | negate =>
      refine (reads_numberOf hv).bind_same fun n => ?_
      exact alike_ofNum _
    | floor =>
      refine (reads_numberOf hv).bind_same fun n => ?_
      refine (reads_lift_same _).bind_same fun m => ?_
      exact alike_ofInt _
    | reverse =>
      cases hv with
      | array h =>
        exact (alike_stored (alike_reverse h)).bind fun _ _ _ _ _ => alike_nothing
      | _ => exact .throw
    | count =>
      cases hv with
      | array h =>
        refine (reads_stored (alike_length h)).bind_same fun n => ?_
        exact alike_ofInt _
      | _ => exact .throw
    | toArray => exact alike_toArray hv
    | toText =>
      cases hv with
      | array h => exact alike_toText h
      | _ => exact .throw
    | _ => exact .throw
  · rw [hs, ht]
    exact alike_stored hxy

omit hanswer in
lemma alike_some {x y : Run Value} (h : Alike layers κ x y Value.Alike) :
    Alike layers κ (do return some (← x)) (do return some (← y)) Value.AlikeOption :=
  h.bind fun _ _ _ _ hv => .pure (.some hv)

omit hanswer in
lemma alike_some_nothing {x y : Run Unit} (h : Alike layers κ x y Done) :
    Alike layers κ (do x; return some (← nothing)) (do y; return some (← nothing))
      Value.AlikeOption :=
  h.bind fun _ _ _ _ _ => alike_some alike_nothing

lemma alike_binary (c : Command) (hv : Value.Alike κ v w) (hv' : Value.Alike κ v' w')
    (hkind : c = .forDo → v'.kind ≠ .nothing) :
    Alike layers κ (binary answer c v v') (binary answer c w w') Value.AlikeOption := by
  unfold binary
  obtain ⟨hs, ht⟩ | ⟨x, y, hs, ht, hxy⟩ := (alike_binaryHelper c hv hv').eq_or_exists
  · rw [hs, ht]
    clear hs ht
    cases c with
    | withDo =>
      cases hv with
      | withOf _ hspace =>
        refine (reads_spaceOf hspace).bind_same fun space => ?_
        exact alike_some (alike_code hanswer hv' .nil space)
      | _ => exact .throw
    | catchCode | exitWith => exact alike_some alike_nothing
    | forEach =>
      cases hv' with
      | array h => exact alike_some (alike_forEach hanswer hv h)
      | _ => exact .throw
    | whileDo =>
      cases hv with
      | whileOf _ hc => exact alike_some (alike_whileDo hanswer hc hv')
      | _ => exact .throw
    | forDo =>
      cases hv with
      | forOf _ hname hfirst hlast hs =>
        exact alike_some (alike_forDo hanswer hname hfirst hlast hs hv' (hkind rfl))
      | _ => exact .throw
    | forSpecDo =>
      cases hv with
      | forSpecOf _ hparts =>
        cases hparts with
        | array h => exact alike_some (alike_forSpecDo hanswer h hv')
        | _ => exact .throw
      | _ => exact .throw
    | switchDo =>
      cases hv with
      | switchOf _ hsubject =>
        cases hv' with
        | code h hcs =>
          exact alike_some (alike_switchDo hanswer hsubject _ _
            (Tree.AlikeList.filter Tree.Alike.isBase hcs))
        | _ => exact .throw
      | _ => exact .throw
    | thenSpec =>
      cases hv with
      | ifOf _ hc =>
        cases hv' with
        | array h =>
          refine (reads_stored (alike_element h 0)).bind fun _ _ hfirst => ?_
          refine (reads_stored (alike_element h 1)).bind fun _ _ hsecond => ?_
          exact alike_some (alike_choose hanswer hc hfirst (.some hsecond))
        | _ => exact .throw
      | _ => exact .throw
    | thenElse =>
      cases hv with
      | ifOf _ hc =>
        cases hv' with
        | elseOf _ hfirst hsecond =>
          exact alike_some (alike_choose hanswer hc hfirst (.some hsecond))
        | _ => exact .throw
      | _ => exact .throw
    | thenCode =>
      cases hv with
      | ifOf _ hc => exact alike_some (alike_choose hanswer hc hv' .none)
      | _ => exact .throw
    | paramsOf => exact alike_some_nothing (alike_addParams hv')
    | callWith => exact alike_some (alike_code hanswer hv' (.cons _ hv .nil) .mission)
    | compare op => exact alike_some (alike_compare op hv hv')
    | arithmetic op => exact alike_some (alike_compute op hv hv')
    | logic op => exact alike_some (alike_logic hanswer op hv hv')
    | joinTexts => exact alike_some (alike_joinTexts hv hv')
    | findText =>
      refine (reads_textOf hv').bind_same fun part => ?_
      refine (reads_textOf hv).bind_same fun whole => ?_
      exact alike_some (alike_ofInt _)
    | set =>
      cases hv with
      | array h =>
        cases hv' with
        | array h' => exact alike_some_nothing (alike_stored (alike_setBy h h'))
        | _ => exact .throw
      | _ => exact .throw
    | resize =>
      cases hv with
      | array h =>
        refine (reads_contentOf hv').bind fun _ _ hcd => ?_
        exact alike_some_nothing (alike_stored (alike_resize h hcd))
      | _ => exact .throw
    | isIn =>
      cases hv' with
      | array h =>
        refine (reads_holds h hv).bind_same fun b => ?_
        exact alike_some (alike_ofBool b)
      | _ => exact .throw
    | select =>
      cases hv with
      | array h => exact alike_some (alike_select h hv')
      | _ => exact .throw
    | selectRange =>
      cases hv with
      | array h =>
        cases hv' with
        | array h' => exact alike_some (alike_selectRange h h')
        | _ => exact .throw
      | _ => exact .throw
    | find =>
      cases hv with
      | array h =>
        refine (reads_find h hv').bind_same fun n => ?_
        exact alike_some (alike_ofInt n)
      | _ => exact .throw
    | pushBack =>
      cases hv with
      | array h =>
        refine (alike_pushBack h hv').bind fun _ _ n _ hn => ?_
        subst hn
        exact alike_some (alike_ofInt n)
      | _ => exact .throw
    | pushBackUnique =>
      cases hv with
      | array h =>
        refine (reads_holds h hv').bind_same fun b => ?_
        refine .ite Iff.rfl (alike_some (alike_ofInt _)) ?_
        refine (alike_pushBack h hv').bind fun _ _ n _ hn => ?_
        subst hn
        exact alike_some (alike_ofInt n)
      | _ => exact .throw
    | append =>
      cases hv with
      | array h =>
        cases hv' with
        | array h' =>
          refine (reads_stored (alike_elements h')).bind fun _ _ hvs => ?_
          exact alike_some_nothing (alike_stored (alike_appendAll h hvs))
        | _ => exact .throw
      | _ => exact .throw
    | joinArrays =>
      cases hv with
      | array h =>
        cases hv' with
        | array h' =>
          refine (reads_stored (alike_elements h)).bind fun _ _ hvs => ?_
          refine (reads_stored (alike_elements h')).bind fun _ _ hvs' => ?_
          exact alike_stored ((alike_array (rel_append hvs hvs')).bind
            fun _ _ _ _ hv => .pure (.some hv))
        | _ => exact .throw
      | _ => exact .throw
    | subtractArrays =>
      cases hv with
      | array h =>
        cases hv' with
        | array h' => exact alike_some (alike_subtractArrays h h')
        | _ => exact .throw
      | _ => exact .throw
    | setVariable =>
      cases hv' with
      | array h => exact alike_some_nothing (alike_setVariable hv h)
      | _ => exact .throw
    | getVariable => exact alike_some (alike_getVariable hv hv')
    | getVariableOr =>
      cases hv' with
      | array h => exact alike_some (alike_getVariableOr hv h)
      | _ => exact .throw
    | listen => exact Alike.bind (P := Done) alike_of_network fun _ _ _ _ _ => .pure .none
    | _ => exact .throw
  · rw [hs, ht]
    exact alike_some (alike_stored hxy)

end

/-! ### Statements -/

variable {answer : Answer}

lemma alike_sendVariable (name name' : String) (audience audience' : Audience) :
    Alike layers κ (sendVariable answer name audience) (sendVariable answer name' audience') Done :=
  alike_of_network

lemma alike_publicVariable (t u : Tree) (hv : Value.Alike κ v w) (audience : Audience) :
    Alike layers κ (publicVariable answer t v audience) (publicVariable answer u w audience)
      Done := by
  cases hv with
  | @atom i j a h ha =>
    cases a with
    | string q =>
      cases q with
      | none => exact alike_meaningless
      | some q =>
        refine .ite Iff.rfl ?_ (alike_sendVariable _ _ _ _)
        exact alike_of_fails (.bind (fails_meaningless _)) (.bind (fails_meaningless _))
    | _ => exact alike_meaningless
  | _ => exact alike_meaningless

lemma alike_publicVariableClient (t u : Tree) (hv : Value.Alike κ v w)
    (hv' : Value.Alike κ v' w') (kind : Kind) :
    Alike layers κ (publicVariableClient answer t v v' kind)
      (publicVariableClient answer u w w' kind) Done := by
  refine .ite Iff.rfl ?_ ?_
  · exact alike_of_fails (.bind (fails_meaningless _)) (.bind (fails_meaningless _))
  · refine (reads_textOf hv').bind_same fun name => ?_
    refine .ite Iff.rfl ?_ ?_
    · exact alike_of_fails (.bind (fails_meaningless _)) (.bind (fails_meaningless _))
    · exact (reads_contentOf hv).bind fun _ _ _ => alike_sendVariable _ _ _ _

lemma alike_declareVariable (h : Tree.Alike κ.ids t u) (ho : Value.Alike κ o o') :
    Alike layers κ (declareVariable t o) (declareVariable u o') Value.Alike := by
  have hbase := h.base
  unfold declareVariable
  revert hbase
  generalize t.base = ts
  generalize u.base = us
  intro hbase
  cases h with
  | statement h hcs =>
    obtain _ | ⟨hfirst, hrest⟩ := hbase
    · exact .throw
    · cases hfirst with
      | @atom i j a hij ha =>
        cases a with
        | var name =>
          refine (alike_stored (alike_string _ _)).bind fun κ1 h1 _ _ htext => ?_
          refine (alike_addPrivates (.cons htext .nil)).bind fun κ2 h2 _ _ _ => ?_
          refine (alike_stored alike_fresh).bind fun κ3 h3 _ _ hid => ?_
          have hle := Link.le_trans (Link.le_trans h1 h2) h3
          exact .pure (.privateOf hid (.atom (hle.1 _ _ hij) ha.1))
        | _ => exact .pure ho
      | _ => exact .pure ho
  | _ => exact .pure ho

lemma alike_declare (h : Tree.Alike κ.ids t u) (hv : Value.Alike κ v w) (ho : Value.Alike κ o o') :
    Alike layers κ (declare t v o) (declare u w o') Value.Alike := by
  cases hv with
  | @atom i j a hij ha =>
    cases a with
    | string q =>
      exact (alike_addPrivates (.cons (.atom hij ha) .nil)).bind fun _ h1 _ _ _ =>
        .pure (ho.mono h1)
    | _ => exact alike_declareVariable h ho
  | array hij =>
    refine (reads_stored (alike_elements hij)).bind fun _ _ hvs => ?_
    exact (alike_addPrivates hvs).bind fun _ h1 _ _ _ => .pure (ho.mono h1)
  | _ => exact alike_declareVariable h ho

lemma reads_assignedName (h : Tree.Alike κ.ids t u) (hv : Value.Alike κ v w) :
    Reads layers κ (assignedName t v) (assignedName u w) Eq := by
  -- any value but that of `private` leaves the name to the leading node
  have hleading : Reads layers κ (assignedName t (.atom 0 .anything))
      (assignedName u (.atom 0 .anything)) Eq := by
    unfold assignedName
    dsimp only
    obtain ⟨ht, hu⟩ | ⟨first, first', ht, hu, hfirst⟩ := h.leading?.eq_or_exists
    · rw [ht, hu]
      exact .throw
    · rw [ht, hu]
      cases hfirst with
      | @atom i j a hij ha => cases a <;> exact .pure rfl
      | _ => exact .pure rfl
  cases hv with
  | privateOf _ hname => exact .pure hname.varName?
  | _ => exact hleading

lemma alike_assignTo (s s' : Tree) (h : Tree.Alike κ.ids t u) {l l' r r' : Value}
    (hl : Value.Alike κ l l') (hr : Value.Alike κ r r') (hv : Value.Alike κ v w) :
    Alike layers κ (assignTo s t l r v) (assignTo s' u l' r' w) Value.Alike := by
  refine (reads_assignedName h hl).bind_same fun name => ?_
  cases name with
  | none => exact alike_meaningless
  | some name =>
    refine .ite (by rw [hv.kind]) ?_ ?_
    · exact alike_of_fails (.bind (fails_meaningless _)) (.bind (fails_meaningless _))
    · refine reads_current.bind_same fun space => ?_
      exact (alike_assign space name hv).bind fun _ h1 _ _ _ => .pure (hr.mono h1)

lemma alike_runOther (s s' : Tree) {ts us : List Tree} (hts : Tree.AlikeList κ.ids ts us)
    {tokens tokens' values values' : List Value} (htokens : Value.AlikeList κ tokens tokens')
    (hvalues : Value.AlikeList κ values values') (ho : Value.Alike κ o o') :
    Alike layers κ (runOther answer s ts tokens values o) (runOther answer s' us tokens' values' o')
      Value.Alike := by
  have hfails : Alike layers κ (meaningless s) (meaningless s') Value.Alike :=
    alike_meaningless
  have hreturn {x y : Run Unit} (h : Alike layers κ x y Done) :
      Alike layers κ (do x; return o) (do y; return o') Value.Alike :=
    h.bind fun _ h1 _ _ _ => .pure (ho.mono h1)
  unfold runOther
  split
  · obtain _ | ⟨-, _ | ⟨hnode, _ | _⟩⟩ := hts
    obtain _ | ⟨hword, _ | ⟨htoken, _ | _⟩⟩ := htokens
    obtain _ | ⟨-, _ | ⟨hvalue, _ | _⟩⟩ := hvalues
    refine .ite (by rw [hword.isKeyword]) (hreturn (alike_publicVariable s s' htoken _)) ?_
    refine .ite (by rw [hword.isKeyword]) (hreturn (alike_publicVariable s s' htoken _)) ?_
    exact .ite (by rw [hword.isKeyword]) (alike_declare hnode hvalue ho) hfails
  · obtain _ | ⟨htarget, _ | ⟨-, _ | ⟨-, _ | _⟩⟩⟩ := hts
    obtain _ | ⟨hleft, _ | ⟨hword, _ | ⟨hright, _ | _⟩⟩⟩ := htokens
    obtain _ | ⟨hclient, _ | ⟨-, _ | ⟨hvalue, _ | _⟩⟩⟩ := hvalues
    refine .ite (by rw [hword.isKeyword]) (alike_assignTo s s' htarget hleft hright hvalue) ?_
    rw [hclient.kind]
    refine .ite (by rw [hword.isKeyword]) (hreturn ?_) hfails
    exact alike_publicVariableClient s s' hleft hright _
  · obtain _ | ⟨-, _ | _⟩ := htokens
    obtain _ | ⟨hvalue, _ | _⟩ := hvalues
    rcases us with _ | ⟨_, _ | ⟨_, _ | ⟨_, _ | _⟩⟩⟩ <;> exact .pure hvalue
  · rename_i hone htwo hthree
    split
    · obtain _ | ⟨-, _ | ⟨-, _ | _⟩⟩ := hts
      obtain _ | ⟨-, _ | ⟨-, _ | _⟩⟩ := htokens
      obtain _ | ⟨-, _ | ⟨-, _ | _⟩⟩ := hvalues
      exact (htwo _ _ _ _ _ _ rfl rfl rfl).elim
    · obtain _ | ⟨-, _ | ⟨-, _ | ⟨-, _ | _⟩⟩⟩ := hts
      obtain _ | ⟨-, _ | ⟨-, _ | ⟨-, _ | _⟩⟩⟩ := htokens
      obtain _ | ⟨-, _ | ⟨-, _ | ⟨-, _ | _⟩⟩⟩ := hvalues
      exact (hthree _ _ _ _ _ _ _ _ _ rfl rfl rfl).elim
    · obtain _ | ⟨-, _ | _⟩ := htokens
      obtain _ | ⟨-, _ | _⟩ := hvalues
      exact (hone _ _ rfl rfl).elim
    · exact hfails

/-- A loop that counts is only run if its body is code. -/
lemma kind_of_forDo {entry : Entry} {o1 o2 o3 : Operand}
    (h : (Index.interpreted.lookup [o1, o2, o3]).find? (·.signature.accepts [o1, o2, o3]) =
      some entry) (hentry : entry.command = .forDo) : o3.kind = .code := by
  have hmem : entry ∈ Entry.interpreted := by
    have hlookup := mem_of_find?_eq_some h
    cases hword : Operand.firstWord? [o1, o2, o3] with
    | none =>
      rw [Index.lookup_eq_nil hword] at hlookup
      cases hlookup
    | some word =>
      rw [Index.interpreted, Index.lookup_ofEntries hword] at hlookup
      exact (Entry.mem_candidates.mp hlookup).1
  have hcontrol : ∀ e ∈ Entry.control, e.command = .forDo →
      e.signature = .binary .forHelper "do" .code none := by decide
  have hexecutable : ∀ e ∈ Entry.executable, e.command = .forDo →
      e.signature = .binary .forHelper "do" .code none := by decide
  have hsignature := (Entry.mem_of_mem_override hmem).elim (hcontrol entry · hentry)
    (hexecutable entry · hentry)
  have haccepts := find?_some h
  obtain ⟨a, keyword, b, r, heq, -, -, hkind⟩ := Signature.accepts_three haccepts
  rw [hsignature] at heq
  cases heq
  simpa [Kind.isA] using hkind

section

variable (hanswer : answer.Alike)
include hanswer

variable {t u s s' : Tree} {o o' : Value} {ts us : List Tree} {vars vars' : List (String × Value)}

lemma alike_part (h : Tree.Alike κ.ids t u) : Alike layers κ (part answer t) (part answer u)
      fun κ' p q => Value.Alike κ' p.1 q.1 ∧ Value.Alike κ' p.2 q.2 := by
  refine (hanswer (.node h)).bind fun κ1 h1 v w hv => (alike_valueOf hv).bind fun _ h2 _ _ hv' => ?_
  exact .pure ⟨hv.mono h2, hv'⟩

lemma alike_outcomeOf (h : Tree.Alike κ.ids s s') {tokens tokens' values values' : List Value}
    (htokens : Value.AlikeList κ tokens tokens') (hvalues : Value.AlikeList κ values values')
    (ho : Value.Alike κ o o') :
    Alike layers κ (outcomeOf answer s tokens values o) (outcomeOf answer s' tokens' values' o')
      Value.AlikeOption := by
  have hoperands : values.map Value.operand = values'.map Value.operand := by
    clear htokens
    induction hvalues with
    | nil => rfl
    | cons hv _ ih => rw [map_cons, map_cons, hv.operand, ih]
  unfold outcomeOf
  rw [hoperands]
  split
  · rename_i entry hentry
    obtain _ | ⟨hv1, _ | ⟨hv2, _ | ⟨hv3, _ | _⟩⟩⟩ := hvalues
    · exact .throw
    · exact .throw
    · exact (alike_unary hanswer _ hv2).map fun _ _ _ hv => .some hv
    · refine alike_binary hanswer _ hv1 hv3 fun hcommand => ?_
      have hkind := kind_of_forDo hentry hcommand
      rw [Value.kind_operand, ← hv3.kind] at hkind
      rw [hkind]
      exact nofun
    · exact .throw
  · exact (alike_runOther s s' h.base htokens hvalues ho).map fun _ _ _ hv => .some hv

omit hanswer in
lemma alike_checkOutcome (h : Tree.Alike κ.ids s s') (hv : Value.Alike κ v w)
    {o o' : Option Value} (ho : Value.AlikeOption κ o o') :
    Alike layers κ (checkOutcome s v o) (checkOutcome s' w o') Value.Alike := by
  have hended : isEnded s = isEnded s' := by cases h <;> rfl
  have houtcome : Value.AlikeOption κ (if isEnded s' then some v else o)
      (if isEnded s' then some w else o') := by
    split
    · exact .some hv
    · exact ho
  unfold checkOutcome
  rw [hended]
  revert houtcome
  generalize (if isEnded s' then some v else o) = p
  generalize (if isEnded s' then some w else o') = p'
  intro houtcome
  cases houtcome with
  | none => exact .throw
  | some hv =>
    refine .ite (by rw [hv.kind]) (reads_get.bind fun _ _ hw => ?_) (.pure hv)
    rw [hw.store.isUndefined hv]
    refine (reads_lift_same _).bind_same fun b => ?_
    exact .ite Iff.rfl .bind_of_throw (.pure hv)

lemma alike_runStatement (h : Tree.Alike κ.ids t u) :
    Alike layers κ (runStatement answer t) (runStatement answer u) Value.Alike := by
  rw [runStatement_eq, runStatement_eq]
  refine alike_nothing.bind fun κ1 h1 o o' ho => ?_
  refine (Alike.mapM (R := fun κ => Tree.Alike κ.ids)
    (P := fun κ p q => Value.Alike κ p.1 q.1 ∧ Value.Alike κ p.2 q.2) (fun hκ h => h.mono hκ.1)
    (fun hκ h => h.imp (·.mono hκ) (·.mono hκ)) (fun _ _ _ _ h => alike_part hanswer h)
    (h.base.mono h1.1)).bind fun κ2 h2 ps qs hps => ?_
  have htokens : Value.AlikeList κ2 (ps.map Prod.fst) (qs.map Prod.fst) :=
    forall₂_map_left_iff.mpr (forall₂_map_right_iff.mpr (hps.imp fun _ _ h => h.1))
  have hvalues : Value.AlikeList κ2 (ps.map Prod.snd) (qs.map Prod.snd) :=
    forall₂_map_left_iff.mpr (forall₂_map_right_iff.mpr (hps.imp fun _ _ h => h.2))
  have hle := Link.le_trans h1 h2
  refine (alike_outcomeOf hanswer (h.mono hle.1) htokens hvalues (ho.mono h2)).bind
    fun κ3 h3 _ _ houtcome => ?_
  exact alike_checkOutcome (h.mono (Link.le_trans hle h3).1) (ho.mono (Link.le_trans h2 h3)) houtcome

lemma alike_runNode (h : Tree.Alike κ.ids t u) :
    Alike layers κ (runNode answer t) (runNode answer u) Value.Alike := by
  have hplace {κ1 : Link} (h1 : κ ≤ κ1) {v w : Value} (hv : Value.Alike κ1 v w) :
      Alike layers κ1 (do stored (.copyPlace t.id v.id); return v)
        (do stored (.copyPlace u.id w.id); return w) Value.Alike :=
    (alike_stored (alike_copyPlace (h1.1 _ _ h.id) hv)).bind fun _ h2 _ _ _ =>
      .pure (hv.mono h2)
  have htree := h
  cases h with
  | statement h hcs => exact (hanswer (.statement htree)).bind fun _ h1 _ _ hv => hplace h1 hv
  | array h hcs =>
    refine (Alike.mapM (R := fun κ => Tree.Alike κ.ids) (P := Value.Alike)
      (fun hκ h => h.mono hκ.1) (fun hκ hv => hv.mono hκ) (fun _ _ _ _ h => ?_)
      (Tree.AlikeList.filter (fun h => ?_) htree.elements)).bind fun κ1 h1 vs ws hvs => ?_
    · exact (hanswer (.node h)).bind fun _ _ _ _ hv => alike_valueOf hv
    · rw [h.children.isEmpty]
    · exact (alike_stored (alike_array hvs)).bind fun κ2 h2 _ _ hv =>
        hplace (Link.le_trans h1 h2) hv
  | atom h ha =>
    refine .ite Iff.rfl (reads_get.bind fun _ _ hw => ?_) (hplace κ.le_refl (.atom h ha.1))
    rw [hw.network.1, hw.network.2]
    exact .bind_of_throw
  | _ => exact hplace κ.le_refl (.ofTree htree)

/-! ### Running code -/

/-- The statements of code are run one after the other. -/
lemma alike_statements (hts : Tree.AlikeList κ.ids ts us) (ho : Value.Alike κ o o') :
    Alike layers κ (ts.foldlM (fun _ t => do valueOf (← answer (.node t))) o)
      (us.foldlM (fun _ t => do valueOf (← answer (.node t))) o') Value.Alike :=
  Alike.foldlM (R := fun κ => Tree.Alike κ.ids) (P := Value.Alike) (fun hκ h => h.mono hκ.1)
    (fun _ _ _ _ _ _ _ h => (hanswer (.node h)).bind fun _ _ _ _ hv => alike_valueOf hv) hts ho

omit hanswer in
lemma alikeTo_push (space : Space) (hvars : AlikeVariables κ vars vars') :
    AlikeTo False (World.Alike layers)
      (World.Alike (Function.update layers space (layers space).push)) κ
      (modifyStack space fun s => return s.push vars)
      (modifyStack space fun s => return s.push vars') Done :=
  alikeTo_modifyStack fun _ _ hst => ⟨_, _, rfl, rfl, hst.push hvars⟩

omit hanswer in
lemma alikeTo_pop (space : Space) :
    AlikeTo False (World.Alike (Function.update layers space (layers space).push))
      (World.Alike layers) κ (modifyStack space (·.pop)) (modifyStack space (·.pop)) Done := by
  have hpop : AlikeTo False (World.Alike (Function.update layers space (layers space).push))
      (World.Alike (Function.update (Function.update layers space (layers space).push) space
        (layers space))) κ (modifyStack space (·.pop)) (modifyStack space (·.pop)) Done := by
    refine alikeTo_modifyStack fun s t hst => ?_
    rw [Function.update_self] at hst
    exact hst.pop
  rwa [Function.update_idem, Function.update_eq_self] at hpop

lemma alike_runCode (hij : κ.ids i j) (hts : Tree.AlikeList κ.ids ts us)
    (hvars : AlikeVariables κ vars vars') (space : Space) :
    Alike layers κ (runCode answer ⟨i, ts, false⟩ vars space)
      (runCode answer ⟨j, us, false⟩ vars' space) Value.Alike := by
  refine reads_current.bind_same fun previous => ?_
  refine (alike_setCurrent space).bind fun κ1 h1 _ _ _ => ?_
  have hvars := hvars.imp fun _ _ h => h.imp_right (·.mono h1)
  refine AlikeTo.bind (alikeTo_push space hvars) fun κ2 h2 _ _ _ => ?_
  refine AlikeTo.bind alike_nothing fun κ3 h3 o o' ho => ?_
  have hle := Link.le_trans (Link.le_trans h1 h2) h3
  refine AlikeTo.bind (alike_stored (alike_copyPlace (hle.1 _ _ hij) ho))
    fun κ4 h4 _ _ _ => ?_
  have hbase := Tree.AlikeList.filter Tree.Alike.isBase (hts.mono (Link.le_trans hle h4).1)
  refine AlikeTo.bind (alike_statements hanswer hbase (ho.mono h4)) fun κ5 h5 o o' ho => ?_
  refine AlikeTo.bind (alikeTo_pop space) fun κ6 h6 _ _ _ => ?_
  exact (alike_setCurrent previous).bind fun κ7 h7 _ _ _ => .pure (ho.mono (Link.le_trans h6 h7))

lemma alike_step : (step answer).Alike := by
  intro layers κ r r' hr
  cases hr with
  | code hij hts hvars => exact alike_runCode hanswer hij hts hvars _
  | node h => exact alike_runNode hanswer h
  | statement h => exact alike_runStatement hanswer h

end

lemma alike_answerWithin (depth : Nat) : (answerWithin depth).Alike := by
  induction depth with
  | zero => exact fun _ _ _ _ _ => .throw
  | succ depth ih => exact alike_step ih

end Run

end ArmaScript
