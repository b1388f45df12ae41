import ArmaScript.Proofs.Correspondence
import ArmaScript.Value.Array
import ArmaScript.Value.Helper

/-!
# Stores that correspond

Stores are alike under a link if what is stored for linked identities is alike: both have a place or
none, both are arrays of elements that are alike or none, and both are buffers of such elements or
none. All computations on a store keep stores alike. Where a value stands is not compared, only whether
it has a place at all, because a computation fails if it has none.
-/

namespace ArmaScript

open Store

structure ArrayCell.Alike (κ : Link) (c d : ArrayCell) : Prop where
  buffer : Option.Rel κ.ids c.buffer d.buffer
  shown : Value.AlikeList κ c.shown d.shown

/-- Nothing is stored for an identity. -/
structure Store.Blank (s : Store) (i : Nat) : Prop where
  places : s.places.contains i = false
  arrays : s.arrays[i]? = none
  buffers : s.buffers[i]? = none

/-- Stores in which what is stored for linked identities is alike. What the second one holds has a
place and is neither an array nor a buffer. -/
structure Store.Alike (κ : Link) (s t : Store) : Prop where
  fits : κ.Fits s.nextId t.nextId
  places : ∀ {i j : Nat}, κ.ids i j → s.places.contains i = t.places.contains j
  arrays : ∀ {i j : Nat}, κ.ids i j → Option.Rel (ArrayCell.Alike κ) s.arrays[i]? t.arrays[j]?
  buffers : ∀ {i j : Nat}, κ.ids i j → Option.Rel (Value.AlikeList κ) s.buffers[i]? t.buffers[j]?
  blank_left : ∀ {i : Nat}, s.nextId ≤ i → s.Blank i
  blank_right : ∀ {j : Nat}, t.nextId ≤ j → t.Blank j
  held : ∀ {j : Nat}, κ.held j →
    t.places.contains j = true ∧ t.arrays[j]? = none ∧ t.buffers[j]? = none

namespace ArrayCell

lemma Alike.mono {κ κ' : Link} (hκ : κ ≤ κ') {c d : ArrayCell} (h : Alike κ c d) : Alike κ' c d :=
  ⟨h.buffer.imp hκ.1, h.shown.mono hκ⟩

end ArrayCell

namespace Store

variable {κ : Link} {s t : Store} {i j : Nat}

namespace Alike

/-! ### What can be read -/

lemma elements? (h : Alike κ s t) (hij : κ.ids i j) :
    Option.Rel (Value.AlikeList κ) (s.elements? i) (t.elements? j) :=
  (h.arrays hij).bind fun _ _ hcell => hcell.buffer.bind fun _ _ => h.buffers

lemma shown (h : Alike κ s t) (hij : κ.ids i j) : Value.AlikeList κ (s.shown i) (t.shown j) := by
  unfold Store.shown
  obtain ⟨hs, ht⟩ | ⟨c, d, hs, ht, hcell⟩ := (h.arrays hij).eq_or_exists
  · rw [hs, ht]
    exact .nil
  · rw [hs, ht]
    exact hcell.shown

variable {v w v' w' : Value} {eq eq' : Value → Value → Bool}

lemma content (h : Alike κ s t) (hv : Value.Alike κ v w) :
    Content.Alike κ (s.content v) (t.content w) := by
  cases hv with
  | array hij =>
    obtain ⟨hs, ht⟩ | ⟨vs, ws, hs, ht, hvs⟩ := (h.elements? hij).eq_or_exists
    · simp only [content, hs, ht]
      exact .plain nofun
    · simp only [content, hs, ht]
      exact .list hvs
  | @atom i j a hij ha =>
    refine .plain fun vs (hvs : atomContent a = .list vs) => ?_
    unfold atomContent at hvs
    split at hvs <;> cases hvs
  | _ => exact .plain nofun

lemma isUndefined (h : Alike κ s t) :
    ∀ {v w : Value}, Value.Alike κ v w → s.isUndefined v = t.isUndefined w
  | _, _, .nothing _ => rfl
  | _, _, .atom (a := a) _ _ => by cases a <;> rfl
  | _, _, .code _ _ => rfl
  | _, _, .array hij => by rw [Store.isUndefined, Store.isUndefined, (h.elements? hij).isNone]
  | _, _, .privateOf _ hv | _, _, .whileOf _ hv | _, _, .forSpecOf _ hv | _, _, .switchOf _ hv
  | _, _, .ifOf _ hv | _, _, .tryOf _ hv | _, _, .withOf _ hv => by
    rw [Store.isUndefined, Store.isUndefined, h.isUndefined hv]
  | _, _, .forOf _ hv .none .none _ => by
    simp only [Store.isUndefined, h.isUndefined hv]
  | _, _, .forOf _ hv .none (.some hlast) _ => by
    simp only [Store.isUndefined, h.isUndefined hv, h.isUndefined hlast]
  | _, _, .forOf _ hv (.some hfirst) .none _ => by
    simp only [Store.isUndefined, h.isUndefined hv, h.isUndefined hfirst]
  | _, _, .forOf _ hv (.some hfirst) (.some hlast) _ => by
    simp only [Store.isUndefined, h.isUndefined hv, h.isUndefined hfirst, h.isUndefined hlast]
  | _, _, .elseOf _ hv hs => by
    rw [Store.isUndefined, Store.isUndefined, h.isUndefined hv, h.isUndefined hs]
  | _, _, .node ht => by cases ht <;> rfl

/-! ### Equality -/

lemma sameItems (heq : ∀ v w v' w', Value.Alike κ v w → Value.Alike κ v' w' → eq v v' = eq' w w')
    {vs ws vs' ws' : List Value} (h : Value.AlikeList κ vs ws) (h' : Value.AlikeList κ vs' ws') :
    sameItems eq vs vs' = sameItems eq' ws ws' := by
  induction h generalizing vs' ws' with
  | nil => cases h' <;> rfl
  | cons hv _ ih =>
    cases h' with
    | nil => rfl
    | cons hv' hvs' => rw [Store.sameItems, Store.sameItems, heq _ _ _ _ hv hv', ih hvs']

lemma sameOption (heq : ∀ v w v' w', Value.Alike κ v w → Value.Alike κ v' w' → eq v v' = eq' w w')
    {o p o' p' : Option Value} (h : Value.AlikeOption κ o p) (h' : Value.AlikeOption κ o' p') :
    sameOption eq o o' = sameOption eq' p p' := by
  cases h with
  | none => cases h' <;> rfl
  | some hv =>
    cases h' with
    | none => rfl
    | some hv' => exact heq _ _ _ _ hv hv'

lemma sameParts (h : Alike κ s t)
    (heq : ∀ v w v' w', Value.Alike κ v w → Value.Alike κ v' w' → eq v v' = eq' w w')
    (hv : Value.Alike κ v w) (hv' : Value.Alike κ v' w') :
    s.sameParts eq v v' = t.sameParts eq' w w' := by
  cases hv <;> cases hv' <;> try rfl
  case code.code hcs _ _ _ _ _ _ hcs' =>
    rw [sameParts, sameParts, Tree.AlikeList.same h.fits.unique hcs hcs']
  case array.array hij _ _ hij' =>
    have hshown := sameItems heq (h.shown hij) (h.shown hij')
    obtain ⟨hs, ht⟩ | ⟨vs, ws, hs, ht, hvs⟩ := (h.elements? hij).eq_or_exists <;>
      obtain ⟨hs', ht'⟩ | ⟨vs', ws', hs', ht', hvs'⟩ := (h.elements? hij').eq_or_exists
    · simp only [sameParts, hs, ht, hs', ht', hshown]
    · simp only [sameParts, hs, ht, hs', ht', hshown]
    · simp only [sameParts, hs, ht, hs', ht', hshown]
    · simp only [sameParts, hs, ht, hs', ht', hshown, sameItems heq hvs hvs']
  case privateOf.privateOf hv _ _ _ _ _ hv' => exact heq _ _ _ _ hv hv'
  case whileOf.whileOf hv _ _ _ _ _ hv' => exact heq _ _ _ _ hv hv'
  case forOf.forOf hv hfirst hlast hs _ _ _ _ _ _ _ _ _ _ _ hv' hfirst' hlast' hs' =>
    rw [sameParts, sameParts, heq _ _ _ _ hv hv', heq _ _ _ _ hs hs',
      sameOption heq hfirst hfirst', sameOption heq hlast hlast']
  case forSpecOf.forSpecOf hv _ _ _ _ _ hv' => exact heq _ _ _ _ hv hv'
  case switchOf.switchOf hv _ _ _ _ _ _ hv' =>
    rw [sameParts, sameParts, heq _ _ _ _ hv hv']
  case ifOf.ifOf hv _ _ _ _ _ hv' => exact heq _ _ _ _ hv hv'
  case elseOf.elseOf hv hs _ _ _ _ _ _ _ hv' hs' =>
    rw [sameParts, sameParts, heq _ _ _ _ hv hv', heq _ _ _ _ hs hs']
  case tryOf.tryOf hv _ _ _ _ _ hv' => exact heq _ _ _ _ hv hv'
  case withOf.withOf hv _ _ _ _ _ hv' => exact heq _ _ _ _ hv hv'
  case node.node ht _ _ ht' => exact ht.same h.fits.unique ht'

/-- Two values have the same identity in both runs or in none, unless both are nothing. -/
lemma beq_id (h : Alike κ s t) (hv : Value.Alike κ v w) (hv' : Value.Alike κ v' w') :
    (v.id == v'.id) = (w.id == w'.id) ∨ v.isNothing = true ∧ v'.isNothing = true := by
  obtain ⟨hid, hkind⟩ | ⟨i, j, hij, rfl, rfl⟩ := hv.id <;>
    obtain ⟨hid', hkind'⟩ | ⟨i', j', hij', rfl, rfl⟩ := hv'.id
  · exact .inl (Tree.beq_eq h.fits.unique hid hid')
  · obtain ⟨hleft, hright⟩ := h.fits.apart hid hij'
    exact .inl ((beq_eq_false_iff_ne.mpr hleft).trans (beq_eq_false_iff_ne.mpr hright).symm)
  · obtain ⟨hleft, hright⟩ := h.fits.apart hid' hij
    exact .inl ((beq_eq_false_iff_ne.mpr hleft.symm).trans
      (beq_eq_false_iff_ne.mpr hright.symm).symm)
  · exact .inr ⟨rfl, rfl⟩

/-- Values are equal in both runs or in none. -/
lemma sameWithin (h : Alike κ s t) (depth : Nat) (hv : Value.Alike κ v w)
    (hv' : Value.Alike κ v' w') : s.sameWithin depth v v' = t.sameWithin depth w w' := by
  induction depth generalizing v w v' w' with
  | zero => rfl
  | succ depth ih =>
    rw [sameWithin, sameWithin, h.sameParts (fun _ _ _ _ hv hv' => ih hv hv') hv hv']
    obtain hid | ⟨hnothing, hnothing'⟩ := h.beq_id hv hv'
    · rw [hid]
    · obtain ⟨-, hkind⟩ | ⟨i, j, -, rfl, rfl⟩ := hv.id
      · exact absurd (eq_of_beq hnothing) hkind
      · obtain ⟨-, hkind'⟩ | ⟨i', j', -, rfl, rfl⟩ := hv'.id
        · exact absurd (eq_of_beq hnothing') hkind'
        · simp [Store.sameParts, Atom.same]

lemma same (h : Alike κ s t) (hv : Value.Alike κ v w) (hv' : Value.Alike κ v' w') :
    s.same v v' = t.same w w' :=
  h.sameWithin equalityDepth hv hv'

/-! ### What can be changed -/

/-- Both runs take an identity that nothing has yet. These two are linked at most. -/
lemma step {κ' : Link} (h : Alike κ s t) (hle : κ ≤ κ')
    (hfits : κ'.Fits (s.nextId + 1) (t.nextId + 1)) (hheld : ∀ {j : Nat}, κ'.held j → κ.held j)
    (hids : ∀ {i j : Nat}, κ'.ids i j → κ.ids i j ∨ i = s.nextId ∧ j = t.nextId) :
    Alike κ' { s with nextId := s.nextId + 1 } { t with nextId := t.nextId + 1 } := by
  have hs := h.blank_left (Nat.le_refl s.nextId)
  have ht := h.blank_right (Nat.le_refl t.nextId)
  refine ⟨hfits, fun hij => ?_, fun hij => ?_, fun hij => ?_, fun hi => ?_, fun hj => ?_,
    fun hj => h.held (hheld hj)⟩
  · obtain hij | ⟨rfl, rfl⟩ := hids hij
    · exact h.places hij
    · exact hs.places.trans ht.places.symm
  · obtain hij | ⟨rfl, rfl⟩ := hids hij
    · exact (h.arrays hij).imp fun _ _ hcell => hcell.mono hle
    · dsimp only
      rw [hs.arrays, ht.arrays]
      exact .none
  · obtain hij | ⟨rfl, rfl⟩ := hids hij
    · exact (h.buffers hij).imp fun _ _ hvs => hvs.mono hle
    · dsimp only
      rw [hs.buffers, ht.buffers]
      exact .none
  · exact { h.blank_left (Nat.le_of_succ_le hi) with }
  · exact { h.blank_right (Nat.le_of_succ_le hj) with }

/-- An identity that nothing has yet is linked to one of the other run. -/
lemma fresh (h : Alike κ s t) : Alike (κ.add s.nextId t.nextId)
    { s with nextId := s.nextId + 1 } { t with nextId := t.nextId + 1 } :=
  h.step (κ.le_add _ _) h.fits.add id id

/-- The identities of new values nothing are linked as such. -/
lemma freshNothing (h : Alike κ s t) : Alike (κ.addNothing s.nextId t.nextId)
    { s with nextId := s.nextId + 1 } { t with nextId := t.nextId + 1 } :=
  h.step (κ.le_addNothing _ _) h.fits.addNothing id .inl

lemma setPlace (h : Alike κ s t) (hv : Value.Alike κ v w) (p q : Position) :
    Alike κ { s with places := s.places.insert v.id p }
      { t with places := t.places.insert w.id q } := by
  have hlt : v.id < s.nextId ∧ w.id < t.nextId := by
    obtain ⟨hid, -⟩ | ⟨i, j, hij, rfl, rfl⟩ := hv.id
    · exact h.fits.ids_lt hid
    · exact h.fits.nothings_lt hij
  refine ⟨h.fits, fun {i j} hij => ?_, h.arrays, h.buffers, fun {i} hi => ?_, fun {j} hj => ?_,
    fun {j} hj => ?_⟩
  · have hbeq : (v.id == i) = (w.id == j) := by
      obtain ⟨hid, -⟩ | ⟨i', j', hij', rfl, rfl⟩ := hv.id
      · exact Tree.beq_eq h.fits.unique hid hij
      · obtain ⟨hleft, hright⟩ := h.fits.apart hij hij'
        exact (beq_eq_false_iff_ne.mpr hleft.symm).trans (beq_eq_false_iff_ne.mpr hright.symm).symm
    rw [Std.HashMap.contains_insert, Std.HashMap.contains_insert, hbeq, h.places hij]
  · obtain ⟨h1, h2, h3⟩ := h.blank_left hi
    refine ⟨?_, h2, h3⟩
    rw [Std.HashMap.contains_insert, h1, Bool.or_false]
    exact beq_eq_false_iff_ne.mpr (Nat.ne_of_lt (Nat.lt_of_lt_of_le hlt.1 hi))
  · obtain ⟨h1, h2, h3⟩ := h.blank_right hj
    refine ⟨?_, h2, h3⟩
    rw [Std.HashMap.contains_insert, h1, Bool.or_false]
    exact beq_eq_false_iff_ne.mpr (Nat.ne_of_lt (Nat.lt_of_lt_of_le hlt.2 hj))
  · obtain ⟨h1, h2, h3⟩ := h.held hj
    refine ⟨?_, h2, h3⟩
    rw [Std.HashMap.contains_insert, h1, Bool.or_true]

/-- What is stored for linked identities changes. It is as before for those that are new or held. -/
lemma changed {β : Type} {P : β → β → Prop} {f f' g g' : Nat → Option β} {c d : Option β}
    (h : Alike κ s t) (hij : κ.ids i j) (hfg : ∀ {i j : Nat}, κ.ids i j → Option.Rel P (f i) (g j))
    (hf : ∀ k, f' k = if i == k then c else f k) (hg : ∀ k, g' k = if j == k then d else g k)
    (hcd : Option.Rel P c d) :
    (∀ {i j : Nat}, κ.ids i j → Option.Rel P (f' i) (g' j)) ∧ (∀ {k}, s.nextId ≤ k → f' k = f k) ∧
      (∀ {k}, t.nextId ≤ k → g' k = g k) ∧ ∀ {k}, κ.held k → g' k = g k := by
  obtain ⟨hi, hj⟩ := h.fits.ids_lt hij
  refine ⟨fun hij' => ?_, fun hk => ?_, fun hk => ?_, fun {k} hk => ?_⟩
  · rw [hf, hg, Tree.beq_eq h.fits.unique hij hij']
    split
    · exact hcd
    · exact hfg hij'
  · rw [hf, if_neg (by simpa using Nat.ne_of_lt (Nat.lt_of_lt_of_le hi hk))]
  · rw [hg, if_neg (by simpa using Nat.ne_of_lt (Nat.lt_of_lt_of_le hj hk))]
  · have hne : j ≠ k := by
      rintro rfl
      exact (h.fits.free hk).1 hij
    rw [hg, if_neg (by simpa using hne)]

lemma setArray (h : Alike κ s t) (hij : κ.ids i j) {arrays arrays' : Std.HashMap NodeId ArrayCell}
    {c d : Option ArrayCell} (hs : ∀ k, arrays[k]? = if i == k then c else s.arrays[k]?)
    (ht : ∀ k, arrays'[k]? = if j == k then d else t.arrays[k]?)
    (hcell : Option.Rel (ArrayCell.Alike κ) c d) :
    Alike κ { s with arrays := arrays } { t with arrays := arrays' } := by
  obtain ⟨hlinked, hleft, hright, hheld⟩ := h.changed hij h.arrays hs ht hcell
  refine ⟨h.fits, h.places, hlinked, h.buffers, fun hk => ?_, fun hk => ?_, fun hk => ?_⟩
  · exact { h.blank_left hk with arrays := (hleft hk).trans (h.blank_left hk).arrays }
  · exact { h.blank_right hk with arrays := (hright hk).trans (h.blank_right hk).arrays }
  · exact (h.held hk).imp_right (.imp_left (hheld hk).trans)

lemma setBuffer (h : Alike κ s t) (hij : κ.ids i j) {buffers buffers' : Std.HashMap Nat (List Value)}
    {c d : Option (List Value)} (hs : ∀ k, buffers[k]? = if i == k then c else s.buffers[k]?)
    (ht : ∀ k, buffers'[k]? = if j == k then d else t.buffers[k]?)
    (hvs : Option.Rel (Value.AlikeList κ) c d) :
    Alike κ { s with buffers := buffers } { t with buffers := buffers' } := by
  obtain ⟨hlinked, hleft, hright, hheld⟩ := h.changed hij h.buffers hs ht hvs
  refine ⟨h.fits, h.places, h.arrays, hlinked, fun hk => ?_, fun hk => ?_, fun hk => ?_⟩
  · exact { h.blank_left hk with buffers := (hleft hk).trans (h.blank_left hk).buffers }
  · exact { h.blank_right hk with buffers := (hright hk).trans (h.blank_right hk).buffers }
  · exact (h.held hk).imp_right (.imp_right (hheld hk).trans)

end Alike

end Store

/-- Nothing is asked of results that carry no information. -/
abbrev Done (_ : Link) (_ _ : Unit) : Prop := True

abbrev Equal {α : Type} (_ : Link) (a b : α) : Prop := a = b

namespace Stored

variable {κ : Link} {α : Type} {i j : Nat}

/-! ### New values and places -/

lemma alike_fresh : Alike False Store.Alike κ fresh fresh fun κ' => κ'.ids :=
  fun _ _ h => .ok (κ.le_add _ _) rfl h.fresh (κ.add_self _ _)

lemma alike_nothing : Alike False Store.Alike κ (atom .nothing) (atom .nothing) Value.Alike :=
  fun _ _ h => .ok (κ.le_addNothing _ _) rfl h.freshNothing (.nothing (κ.addNothing_self _ _))

lemma alike_atom {a : Atom} (ha : a.kind ≠ .nothing) :
    Alike False Store.Alike κ (atom a) (atom a) Value.Alike :=
  alike_fresh.bind fun _ _ _ _ hij => .pure (.atom hij ha)

lemma alike_number (n : Num) : Alike False Store.Alike κ (number n) (number n) Value.Alike :=
  alike_atom nofun

lemma alike_boolean (b : Option Bool) : Alike False Store.Alike κ (boolean b) (boolean b) Value.Alike :=
  alike_atom nofun

lemma alike_string (quote : Char) (body : String) :
    Alike False Store.Alike κ (string quote body) (string quote body) Value.Alike :=
  alike_atom nofun

lemma alike_placeOf (hij : κ.ids i j) :
    ReadAlike Store.Alike κ (placeOf i) (placeOf j) fun _ _ => True := by
  refine ReadAlike.get.read_bind fun s t h => ?_
  have hplaces := h.places hij
  rw [Std.HashMap.contains_eq_isSome_getElem?, Std.HashMap.contains_eq_isSome_getElem?] at hplaces
  cases hs : s.places[i]? <;> cases ht : t.places[j]? <;> simp [hs, ht] at hplaces
  · exact .throw
  · exact .pure trivial

variable {v w : Value} {c d : Content} {vs ws : List Value}

lemma alike_setPlace (hv : Value.Alike κ v w) (p q : Position) :
    Alike False Store.Alike κ (setPlace v.id p) (setPlace w.id q) Done :=
  fun _ _ h => .ok κ.le_refl rfl (h.setPlace hv p q) trivial

lemma alike_copyPlace (hij : κ.ids i j) (hv : Value.Alike κ v w) :
    Alike False Store.Alike κ (copyPlace i v.id) (copyPlace j w.id) Done :=
  (alike_placeOf hij).bind fun p q _ => alike_setPlace hv p q

/-! ### Reading arrays -/

lemma alike_elements (hij : κ.ids i j) :
    ReadAlike Store.Alike κ (elements i) (elements j) (Value.AlikeList κ) := by
  refine ReadAlike.get.read_bind fun s t h => ?_
  obtain ⟨hs, ht⟩ | ⟨vs, ws, hs, ht, hvs⟩ := (h.elements? hij).eq_or_exists
  · rw [hs, ht]
    exact .throw
  · rw [hs, ht]
    exact .pure hvs

lemma alike_bufferOf (hij : κ.ids i j) :
    ReadAlike Store.Alike κ (bufferOf i) (bufferOf j) κ.ids := by
  refine ReadAlike.get.read_bind fun s t h => ?_
  have hbuffer := (h.arrays hij).bind (q := κ.ids) fun _ _ hcell => hcell.buffer
  obtain ⟨hs, ht⟩ | ⟨b, c, hs, ht, hbc⟩ := hbuffer.eq_or_exists
  · rw [hs, ht]
    exact .throw
  · rw [hs, ht]
    exact .pure hbc

lemma alike_contentOf (hv : Value.Alike κ v w) :
    ReadAlike Store.Alike κ (contentOf v) (contentOf w) (Content.Alike κ) :=
  fun s t h => .inl ⟨s.content v, t.content w, rfl, rfl, h.content hv⟩

lemma alike_lift (x : Except Fault α) : ReadAlike Store.Alike κ (lift x) (lift x) Eq := by
  cases x with
  | ok a => exact .pure rfl
  | error e => exact .throw

lemma alike_length (hij : κ.ids i j) : ReadAlike Store.Alike κ (length i) (length j) Eq :=
  (alike_elements hij).read_bind fun _ _ hvs => .pure hvs.length_eq

lemma alike_element (hij : κ.ids i j) (k : Int) :
    ReadAlike Store.Alike κ (element i k) (element j k) (Value.Alike κ) := by
  refine (alike_elements hij).read_bind fun vs ws hvs => ?_
  rw [hvs.length_eq]
  have helement : Value.AlikeOption κ ((index? ws.length k).bind (vs[·]?))
      ((index? ws.length k).bind (ws[·]?)) := by
    cases index? ws.length k with
    | none => exact .none
    | some i => exact hvs.getElem? i
  obtain ⟨hs, ht⟩ | ⟨v, w, hs, ht, hv⟩ := helement.eq_or_exists
  · rw [hs, ht]
    exact .throw
  · rw [hs, ht]
    exact .pure hv

lemma alike_comparable (hc : Content.Alike κ c d) :
    ReadAlike Store.Alike κ (comparable c) (comparable d) Eq := by
  unfold comparable
  rw [hc.number?]
  cases d.number? with
  | none => exact .throw
  | some n => exact .pure rfl

/-! ### Changing arrays -/

lemma alike_array (hvs : Value.AlikeList κ vs ws) :
    Alike False Store.Alike κ (array vs) (array ws) Value.Alike := by
  refine .ite (by rw [hvs.isEmpty]) .bind_of_throw (alike_fresh.bind fun κ1 h1 i j hij => ?_)
  refine alike_fresh.bind fun κ2 h2 b c hbc => Alike.bind (P := Done) ?_ fun κ3 h3 _ _ _ => ?_
  · intro s t h
    have hij := h2.1 _ _ hij
    have hvs := hvs.mono (Link.le_trans h1 h2)
    refine .ok κ2.le_refl rfl ?_ trivial
    exact (h.setArray hij (fun _ => Std.HashMap.getElem?_insert) (fun _ => Std.HashMap.getElem?_insert)
      (.some ⟨.some hbc, hvs⟩)).setBuffer hbc (fun _ => Std.HashMap.getElem?_insert)
      (fun _ => Std.HashMap.getElem?_insert) (.some hvs)
  · exact .pure (.array (h3.1 _ _ (h2.1 _ _ hij)))

lemma alike_refresh (hij : κ.ids i j) : Alike False Store.Alike κ (refresh i) (refresh j) Done := by
  refine (alike_elements hij).bind fun vs ws hvs => ?_
  refine .ite (by rw [hvs.isEmpty]) .bind_of_throw fun s t h => .ok κ.le_refl rfl ?_ trivial
  refine h.setArray hij (fun _ => Std.HashMap.getElem?_modify) (fun _ => Std.HashMap.getElem?_modify)
    ((h.arrays hij).map fun _ _ hcell => ⟨hcell.buffer, hvs⟩)

lemma alike_change (hij : κ.ids i j) {f g : List Value → List Value}
    (hfg : ∀ vs ws, Value.AlikeList κ vs ws → Value.AlikeList κ (f vs) (g ws)) :
    Alike False Store.Alike κ (change i f) (change j g) Done := by
  refine (alike_bufferOf hij).bind fun b c hbc => Alike.bind (P := Done) (fun s t h => ?_)
    fun κ1 h1 _ _ _ => alike_refresh (h1.1 _ _ hij)
  refine .ok κ.le_refl rfl ?_ trivial
  exact h.setBuffer hbc (fun _ => Std.HashMap.getElem?_modify) (fun _ => Std.HashMap.getElem?_modify)
    ((h.buffers hbc).map hfg)

lemma alike_rebuild (hij : κ.ids i j) (hvs : Value.AlikeList κ vs ws) :
    Alike False Store.Alike κ (rebuild i vs) (rebuild j ws) Done := by
  refine alike_fresh.bind fun κ1 h1 b c hbc => Alike.bind (P := Done) (fun s t h => ?_)
    fun κ2 h2 _ _ _ => alike_refresh (h2.1 _ _ (h1.1 _ _ hij))
  refine .ok κ1.le_refl rfl ?_ trivial
  have hij := h1.1 _ _ hij
  refine (h.setArray hij (fun _ => Std.HashMap.getElem?_modify) (fun _ => Std.HashMap.getElem?_modify)
    ((h.arrays hij).map fun _ _ hcell => ?_)).setBuffer hbc (fun _ => Std.HashMap.getElem?_insert)
    (fun _ => Std.HashMap.getElem?_insert) (.some (hvs.mono h1))
  exact ⟨.some hbc, hcell.shown⟩

lemma alike_append (hij : κ.ids i j) (hv : Value.Alike κ v w) :
    Alike False Store.Alike κ (append i v) (append j w) Done :=
  alike_change hij fun _ _ hvs => List.rel_append hvs (.cons hv .nil)

lemma alike_appendAll (hij : κ.ids i j) {us : List Value} (hus : Value.AlikeList κ us vs) :
    Alike False Store.Alike κ (appendAll i us) (appendAll j vs) Done :=
  alike_change hij fun _ _ hvs => List.rel_append hvs hus

lemma alike_reverse (hij : κ.ids i j) : Alike False Store.Alike κ (reverse i) (reverse j) Done :=
  alike_change hij fun _ _ hvs => List.rel_reverse hvs

lemma alike_extend (hij : κ.ids i j) (hc : Content.Alike κ c d) :
    Alike False Store.Alike κ (extend i c) (extend j d) Done := by
  refine (alike_elements hij).bind fun vs ws hvs => alike_nothing.bind fun κ1 h1 v w hv => ?_
  rw [hc.whole, hvs.length_eq]
  refine (alike_lift _).bind fun n n' hn => ?_
  subst hn
  refine .ite Iff.rfl .bind_of_throw (alike_change (h1.1 _ _ hij) fun us us' hus => ?_)
  exact List.rel_append hus (.replicate hv _)

lemma alike_resize (hij : κ.ids i j) (hc : Content.Alike κ c d) :
    Alike False Store.Alike κ (resize i c) (resize j d) Done := by
  refine (alike_elements hij).bind fun vs ws hvs => (alike_comparable hc).bind fun n n' hn => ?_
  subst hn
  rw [hvs.length_eq]
  refine .ite Iff.rfl ?_ ?_
  · cases n with
    | int m => exact alike_extend hij (.plain nofun)
    | double x => exact .throw
  · cases n with
    | int m =>
      refine alike_rebuild hij ?_
      unfold slice
      rw [hvs.length_eq]
      exact List.forall₂_take _ (List.forall₂_drop _ hvs)
    | double x => exact .throw

lemma alike_put (hij : κ.ids i j) (hc : Content.Alike κ c d) (hv : Value.Alike κ v w) :
    Alike False Store.Alike κ (put i c v) (put j d w) Done := by
  unfold put
  rw [hc.whole]
  refine (alike_lift _).bind fun k k' hk => (alike_elements hij).bind fun vs ws hvs => ?_
  subst hk
  rw [hvs.length_eq]
  cases index? ws.length k with
  | none => exact .throw
  | some p => exact alike_change hij fun _ _ hus => hus.set hv p

lemma alike_set (hij : κ.ids i j) (hc : Content.Alike κ c d) (hv : Value.Alike κ v w) :
    Alike False Store.Alike κ (set i c v) (set j d w) Done := by
  refine (alike_elements hij).bind fun vs ws hvs => (alike_comparable hc).bind fun n n' hn => ?_
  subst hn
  rw [hvs.length_eq]
  refine .ite Iff.rfl ((alike_extend hij hc).bind fun κ' h' _ _ _ => ?_) (alike_put hij hc hv)
  exact alike_put (h'.1 _ _ hij) (hc.mono h') (hv.mono h')

lemma alike_setBy (hij : κ.ids i j) {k l : Nat} (hkl : κ.ids k l) :
    Alike False Store.Alike κ (setBy i k) (setBy j l) Done := by
  refine ((alike_elements hij).read_map (Q := fun _ _ => True) fun _ _ _ => trivial).bind
    fun _ _ _ => ?_
  refine ReadAlike.get.bind fun s t h => ?_
  obtain ⟨hs, ht⟩ | ⟨vs, ws, hs, ht, hvs⟩ := (h.elements? hkl).eq_or_exists
  · rw [hs, ht]
    exact .bind_of_throw
  · rw [hs, ht]
    refine Alike.bind (P := Value.AlikeList) (.pure hvs) fun κ1 h1 vs ws hvs => ?_
    cases hvs with
    | nil => exact .throw
    | cons hi hvs =>
      cases hvs with
      | nil => exact .throw
      | cons hv _ =>
        exact (alike_contentOf hi).bind fun _ _ hc => alike_set (h1.1 _ _ hij) hc hv

/-! ### Helpers -/

lemma alike_unaryHelper (c : Command) (hv : Value.Alike κ v w) :
    Option.Rel (fun x y => Alike False Store.Alike κ x y Value.Alike) (unaryHelper? c v)
      (unaryHelper? c w) := by
  cases c with
  | caseOf | defaultOf | switchOn =>
    exact .some (alike_fresh.bind fun _ h _ _ hij => .pure (.switchOf hij (hv.mono h)))
  | withSpace => exact .some (alike_fresh.bind fun _ h _ _ hij => .pure (.withOf hij (hv.mono h)))
  | tryCode => exact .some (alike_fresh.bind fun _ h _ _ hij => .pure (.tryOf hij (hv.mono h)))
  | whileCond => exact .some (alike_fresh.bind fun _ h _ _ hij => .pure (.whileOf hij (hv.mono h)))
  | forVar =>
    refine .some (alike_fresh.bind fun _ h _ _ hij => (alike_number _).bind fun _ h' _ _ hs => ?_)
    exact .pure (.forOf (h'.1 _ _ hij) (hv.mono (Link.le_trans h h')) .none .none hs)
  | forSpec => exact .some (alike_fresh.bind fun _ h _ _ hij => .pure (.forSpecOf hij (hv.mono h)))
  | ifCond => exact .some (alike_fresh.bind fun _ h _ _ hij => .pure (.ifOf hij (hv.mono h)))
  | _ => exact .none

lemma alike_binaryHelper (c : Command) {v' w' : Value} (hv : Value.Alike κ v w)
    (hv' : Value.Alike κ v' w') :
    Option.Rel (fun x y => Alike False Store.Alike κ x y Value.Alike) (binaryHelper? c v v')
      (binaryHelper? c w w') := by
  cases c with
  | forFrom =>
    cases hv with
    | forOf _ hname _ _ _ =>
      refine .some (alike_fresh.bind fun _ h _ _ hij => (alike_number _).bind fun _ h' _ _ hs => ?_)
      have hle := Link.le_trans h h'
      exact .pure (.forOf (h'.1 _ _ hij) (hname.mono hle) (.some (hv'.mono hle)) .none hs)
    | _ => exact .none
  | forTo =>
    cases hv with
    | forOf _ hname hfirst _ _ =>
      refine .some (alike_fresh.bind fun _ h _ _ hij => (alike_number _).bind fun _ h' _ _ hs => ?_)
      have hle := Link.le_trans h h'
      exact .pure (.forOf (h'.1 _ _ hij) (hname.mono hle) (hfirst.imp fun _ _ hv => hv.mono hle)
        (.some (hv'.mono hle)) hs)
    | _ => exact .none
  | forStep =>
    cases hv with
    | forOf _ hname hfirst hlast _ =>
      refine .some (alike_fresh.bind fun _ h _ _ hij => ?_)
      exact .pure (.forOf hij (hname.mono h) (hfirst.imp fun _ _ hv => hv.mono h)
        (hlast.imp fun _ _ hv => hv.mono h) (hv'.mono h))
    | _ => exact .none
  | elseCode =>
    exact .some (alike_fresh.bind fun _ h _ _ hij => .pure (.elseOf hij (hv.mono h) (hv'.mono h)))
  | _ => exact .none

end Stored

end ArmaScript
