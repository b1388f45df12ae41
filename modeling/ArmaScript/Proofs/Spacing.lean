import ArmaScript.Proofs.InStep

/-!
# Rows that differ in the size of their gaps

Between two items of a row there may be a gap: blanks, one or more. Whether there is one can be seen in
how the row is arranged, because an item is put into a group with the blanks beside it. How many blanks
there are cannot: rows that only differ in the size of their gaps are arranged in step, and the arranged
rows differ in the same way.
-/

namespace ArmaScript

open List

variable {α β : Type}

/-- Some items in a row that are all blank. -/
def Gap (p : α → Prop) (as : List α) : Prop :=
  as ≠ [] ∧ ∀ a ∈ as, p a

/-- Lists of corresponding items with gaps between them. The gaps are in the same places, but they may
be of different size. -/
inductive Spaced (p : α → Prop) (r : α → α → Prop) : List α → List α → Prop
  | nil : Spaced p r [] []
  | cons {a b : α} {as bs : List α} (h : r a b) (hs : Spaced p r as bs) :
      Spaced p r (a :: as) (b :: bs)
  | gap {cs ds as bs : List α} (hcs : Gap p cs) (hds : Gap p ds) (hs : Spaced p r as bs) :
      Spaced p r (cs ++ as) (ds ++ bs)

lemma gap_singleton {p : α → Prop} {a : α} (h : p a) : Gap p [a] :=
  ⟨cons_ne_nil _ _, forall_mem_singleton.mpr h⟩

lemma Gap.append {p : α → Prop} {as bs : List α} (has : Gap p as) (hbs : Gap p bs) :
    Gap p (as ++ bs) :=
  ⟨append_ne_nil_of_left_ne_nil has.1 _, forall_mem_append.mpr ⟨has.2, hbs.2⟩⟩

namespace Spaced

variable {p : α → Prop} {r : α → α → Prop} {as bs cs ds : List α}

lemma append (h : Spaced p r as bs) (h' : Spaced p r cs ds) : Spaced p r (as ++ cs) (bs ++ ds) := by
  induction h with
  | nil => exact h'
  | cons h _ ih => exact .cons h ih
  | gap hcs hds _ ih =>
    rw [append_assoc, append_assoc]
    exact .gap hcs hds ih

lemma of_gap (hcs : Gap p cs) (hds : Gap p ds) : Spaced p r cs ds := by
  have h := gap hcs hds (.nil (r := r))
  rwa [append_nil, append_nil] at h

lemma of_forall₂ (h : Forall₂ r as bs) : Spaced p r as bs := by
  induction h with
  | nil => exact .nil
  | cons h _ ih => exact .cons h ih

lemma isEmpty (h : Spaced p r as bs) : as.isEmpty = bs.isEmpty := by
  cases h with
  | nil => rfl
  | cons => rfl
  | gap hcs hds =>
    rw [isEmpty_eq_false_iff.mpr (append_ne_nil_of_left_ne_nil hcs.1 _),
      isEmpty_eq_false_iff.mpr (append_ne_nil_of_left_ne_nil hds.1 _)]

lemma eq_nil (h : Spaced p r [] bs) : bs = [] :=
  isEmpty_iff.mp h.isEmpty.symm

lemma map {p' : β → Prop} {r' : β → β → Prop} {f : α → β} (hp : ∀ a, p a → p' (f a))
    (hr : ∀ a b, r a b → r' (f a) (f b)) (h : Spaced p r as bs) :
    Spaced p' r' (as.map f) (bs.map f) := by
  have hgap {l : List α} (h : Gap p l) : Gap p' (l.map f) :=
    ⟨fun hnil => h.1 (map_eq_nil_iff.mp hnil), forall_mem_map.mpr fun a ha => hp a (h.2 a ha)⟩
  induction h with
  | nil => exact .nil
  | cons h _ ih => exact .cons (hr _ _ h) ih
  | gap hcs hds _ ih =>
    rw [map_append, map_append]
    exact .gap (hgap hcs) (hgap hds) ih

lemma imp {r' : α → α → Prop} (hr : ∀ a b, r a b → r' a b) (h : Spaced p r as bs) :
    Spaced p r' as bs := by
  induction h with
  | nil => exact .nil
  | cons h _ ih => exact .cons (hr _ _ h) ih
  | gap hcs hds _ ih => exact .gap hcs hds ih

section

variable {lay : α → Bool} (hp : ∀ a, p a → lay a = true) (hr : ∀ a b, r a b → lay a = lay b)
include hp hr

lemma takeWhile (h : Spaced p r as bs) : Spaced p r (as.takeWhile lay) (bs.takeWhile lay) := by
  induction h with
  | nil => exact .nil
  | cons h _ ih =>
    rw [takeWhile_cons, takeWhile_cons, hr _ _ h]
    split
    · exact .cons h ih
    · exact .nil
  | gap hcs hds _ ih =>
    rw [takeWhile_append_of_pos fun c hc => hp c (hcs.2 c hc),
      takeWhile_append_of_pos fun d hd => hp d (hds.2 d hd)]
    exact .gap hcs hds ih

/-- The first items behind the layout at the front of the lists. -/
lemma dropWhile (h : Spaced p r as bs) :
    (as.dropWhile lay = [] ∧ bs.dropWhile lay = []) ∨ ∃ a b as' bs', as.dropWhile lay = a :: as' ∧
      bs.dropWhile lay = b :: bs' ∧ r a b ∧ Spaced p r as' bs' := by
  induction h with
  | nil => exact .inl ⟨rfl, rfl⟩
  | cons h hs ih =>
    rw [dropWhile_cons, dropWhile_cons, hr _ _ h]
    split
    · exact ih
    · exact .inr ⟨_, _, _, _, rfl, rfl, h, hs⟩
  | gap hcs hds _ ih =>
    rw [dropWhile_append_of_pos fun c hc => hp c (hcs.2 c hc),
      dropWhile_append_of_pos fun d hd => hp d (hds.2 d hd)]
    exact ih

end

/-- The last items of the lists correspond, or are both blank. -/
lemma last (h : Spaced p r as bs) : (as = [] ∧ bs = []) ∨ ∃ as' bs' a b, as = as' ++ [a] ∧
    bs = bs' ++ [b] ∧ ((r a b ∧ Spaced p r as' bs') ∨ (p a ∧ p b)) := by
  induction h with
  | nil => exact .inl ⟨rfl, rfl⟩
  | @cons a b as bs h _ ih =>
    obtain ⟨rfl, rfl⟩ | ⟨as', bs', a', b', rfl, rfl, hlast⟩ := ih
    · exact .inr ⟨[], [], a, b, rfl, rfl, .inl ⟨h, .nil⟩⟩
    · refine .inr ⟨a :: as', b :: bs', a', b', rfl, rfl, ?_⟩
      exact hlast.imp_left (And.imp_right (.cons h))
  | @gap cs ds as bs hcs hds _ ih =>
    obtain ⟨rfl, rfl⟩ | ⟨as', bs', a', b', rfl, rfl, hlast⟩ := ih
    · refine .inr ⟨cs.dropLast, ds.dropLast, cs.getLast hcs.1, ds.getLast hds.1, ?_, ?_,
        .inr ⟨hcs.2 _ (getLast_mem _), hds.2 _ (getLast_mem _)⟩⟩
      · rw [append_nil, dropLast_append_getLast]
      · rw [append_nil, dropLast_append_getLast]
    · refine .inr ⟨cs ++ as', ds ++ bs', a', b', (append_assoc ..).symm, (append_assoc ..).symm, ?_⟩
      exact hlast.imp_left (And.imp_right (.gap hcs hds))

/-- The lists are single items, or gaps, or both are no single items. -/
lemma single_or_gap (h : Spaced p r as bs) :
    (∃ a b, as = [a] ∧ bs = [b] ∧ r a b) ∨ (Gap p as ∧ Gap p bs) ∨
      (as.length ≠ 1 ∧ bs.length ≠ 1) := by
  cases h with
  | nil => exact .inr (.inr ⟨nofun, nofun⟩)
  | @cons a b as bs h hs =>
    cases as with
    | nil =>
      rw [hs.eq_nil]
      exact .inl ⟨a, b, rfl, rfl, h⟩
    | cons a' as =>
      cases bs with
      | nil => cases hs.isEmpty
      | cons b' bs => exact .inr (.inr ⟨by simp, by simp⟩)
  | @gap cs ds as bs hcs hds hs =>
    cases as with
    | nil =>
      rw [hs.eq_nil, append_nil, append_nil]
      exact .inr (.inl ⟨hcs, hds⟩)
    | cons a as =>
      cases bs with
      | nil => cases hs.isEmpty
      | cons b bs =>
        have hcs := length_pos_iff.mpr hcs.1
        have hds := length_pos_iff.mpr hds.1
        refine .inr (.inr ⟨?_, ?_⟩)
        · rw [length_append, length_cons]
          omega
        · rw [length_append, length_cons]
          omega

end Spaced

namespace Precedence

/-- Layout at the end of a row is a single item or a group. -/
lemma ending_of_length_ne_one {l : List α} (h : l.length ≠ 1) :
    ending l = .group (l.map .leaf) := by
  rcases l with _ | ⟨a, _ | ⟨b, l⟩⟩
  · rfl
  · exact absurd rfl h
  · rfl

end Precedence

namespace Exp

/-- What becomes of a gap at the end of a row. -/
def IsGap (p : α → Prop) (e : Exp α) : Prop :=
  ∃ l, Gap p l ∧ e = Precedence.ending l

/-- Arranged rows of corresponding items with gaps in the same places. -/
inductive Spaced (p : α → Prop) (r : α → α → Prop) : Exp α → Exp α → Prop
  | leaf {a b : α} (h : r a b) : Spaced p r (.leaf a) (.leaf b)
  | blank {e f : Exp α} (he : e.IsGap p) (hf : f.IsGap p) : Spaced p r e f
  | group {es fs : List (Exp α)} (h : ArmaScript.Spaced (IsGap p) (Spaced p r) es fs) :
      Spaced p r (.group es) (.group fs)

lemma isGap_leaf {p : α → Prop} {a : α} (h : p a) : (leaf a).IsGap p :=
  ⟨[a], gap_singleton h, rfl⟩

end Exp

namespace Precedence

variable {items : Items α} {p : α → Prop} {r : α → α → Prop} {as bs : List α}

/-- Items that are not told apart when a row is arranged. -/
structure SameLook (items : Items α) (a b : α) : Prop where
  layout : items.isLayout a = items.isLayout b
  power : power (Text.lower (items.text a)) = power (Text.lower (items.text b))
  operand : (Vocabulary.isUnary (Text.lower (items.text a)) ||
      Vocabulary.unaryDirectives.contains (items.text a)) =
    (Vocabulary.isUnary (Text.lower (items.text b)) ||
      Vocabulary.unaryDirectives.contains (items.text b))
  define : (items.text a == "#define") = (items.text b == "#define")
  upper : Text.isUpper (items.text a) = Text.isUpper (items.text b)
  first : (items.text a).toList.head? = (items.text b).toList.head?

lemma SameLook.opening_eq {a b : α} {s t : Ahead α} (h : SameLook items a b)
    (hnext : Option.Rel (SameLook items) s.next t.next) : opening items a s = opening items b t := by
  unfold opening
  dsimp only
  rw [h.operand, h.define, h.upper]
  generalize s.next = next at hnext
  generalize t.next = next' at hnext
  cases hnext with
  | none => rfl
  | @some c d h =>
    have hfirst := h.first
    revert hfirst
    dsimp only
    generalize (items.text c).toList = cs
    generalize (items.text d).toList = ds
    intro hfirst
    cases cs <;> cases ds <;> cases hfirst <;> rfl

variable {l m : List α}

lemma spaced_leaves (h : Spaced p r l m) :
    Spaced (Exp.IsGap p) (Exp.Spaced p r) (l.map .leaf) (m.map .leaf) :=
  h.map (fun _ => Exp.isGap_leaf) fun _ _ => .leaf

lemma spaced_surround {l' m' : List α} {e f : Exp α} (h : Spaced p r l m)
    (he : Exp.Spaced p r e f) (h' : Spaced p r l' m') :
    Exp.Spaced p r (surround l e l') (surround m f m') := by
  unfold surround
  rw [h.isEmpty, h'.isEmpty]
  split
  · exact he
  · exact .group (((spaced_leaves h).append (.cons he .nil)).append (spaced_leaves h'))

lemma spaced_ending (h : Spaced p r l m) : Exp.Spaced p r (ending l) (ending m) := by
  obtain ⟨a, b, rfl, rfl, hab⟩ | ⟨hl, hm⟩ | ⟨hl, hm⟩ := h.single_or_gap
  · exact .leaf hab
  · exact .blank ⟨l, hl, rfl⟩ ⟨m, hm, rfl⟩
  · rw [ending_of_length_ne_one hl, ending_of_length_ne_one hm]
    exact .group (spaced_leaves h)

section

variable (hp : ∀ a, p a → items.isLayout a = true) (hr : ∀ a b, r a b → SameLook items a b)
include hp hr

lemma spaced_advance {s t : Ahead α} (h : Ahead.Rel r (Spaced p r) (Spaced p r) s t) :
    Ahead.Rel r (Spaced p r) (Spaced p r) (s.advance items) (t.advance items) := by
  have hskipped := h.skipped.append (h.rest.takeWhile hp fun _ _ hab => (hr _ _ hab).layout)
  unfold Ahead.advance
  obtain ⟨has, hbs⟩ | ⟨a, b, as, bs, has, hbs, hab, hrest⟩ :=
    h.rest.dropWhile hp fun _ _ hab => (hr _ _ hab).layout
  · rw [has, hbs]
    exact ⟨.none, hskipped, .nil⟩
  · rw [has, hbs]
    exact ⟨.some hab, hskipped, hrest⟩

/-- Rows that differ in the size of their gaps are arranged in step. -/
def spacedAlignment : Alignment items items where
  item := r
  gap := Spaced p r
  row := Spaced p r
  exp := Exp.Spaced p r
  advance := spaced_advance hp hr
  power_eq hab := (hr _ _ hab).power
  opening_eq := by
    intro a b s t hab hnext
    refine (hr a b hab).opening_eq ?_
    generalize s.next = next at hnext
    generalize t.next = next' at hnext
    cases hnext with
    | none => exact .none
    | some h => exact .some (hr _ _ h)
  gap_nil := .nil
  leaf := .leaf
  ending := spaced_ending
  surround := spaced_surround
  group h := .group (.of_forall₂ h)

omit hr in
lemma arrange_gap {l : List α} (h : Gap p l) : arrange items l = .ok (ending l) := by
  by_cases hone : l.length = 1
  · obtain ⟨a, rfl⟩ := length_eq_one_iff.mp hone
    rfl
  · have hall : ∀ a ∈ l, items.isLayout a = true := fun a ha => hp a (h.2 a ha)
    have hadvance : Ahead.advance items ⟨none, [], l⟩ = ⟨none, l, []⟩ := by
      rw [Ahead.advance, dropWhile_eq_nil_iff.mpr hall, takeWhile_eq_self_iff.mpr hall]
      rfl
    rw [arrange_of_length_ne_one hone, hadvance, operand_end]
    rfl

/-- Rows that differ in the size of their gaps are arranged into rows that do. -/
lemma arrange_spaced (h : Spaced p r as bs) :
    (∃ e f, arrange items as = .ok e ∧ arrange items bs = .ok f ∧ Exp.Spaced p r e f) ∨
      ∃ fault, arrange items as = .error fault ∧ arrange items bs = .error fault := by
  obtain ⟨a, b, rfl, rfl, hab⟩ | ⟨has, hbs⟩ | ⟨has, hbs⟩ := h.single_or_gap
  · exact .inl ⟨_, _, rfl, rfl, .leaf hab⟩
  · exact .inl ⟨_, _, arrange_gap hp has, arrange_gap hp hbs, .blank ⟨as, has, rfl⟩ ⟨bs, hbs, rfl⟩⟩
  · have houtcomes := Alignment.outcomes_operand (c := spacedAlignment hp hr) h
    rw [arrange_of_length_ne_one has, arrange_of_length_ne_one hbs]
    revert houtcomes
    generalize operand items _ 0 (Ahead.advance items ⟨none, [], as⟩) = x
    generalize operand items _ 0 (Ahead.advance items ⟨none, [], bs⟩) = y
    intro houtcomes
    cases houtcomes with
    | ok he _ => exact .inl ⟨_, _, rfl, rfl, he⟩
    | error fault => exact .inr ⟨fault, rfl, rfl⟩

end

end Precedence

end ArmaScript
