import ArmaScript.Proofs.Findings
import ArmaScript.Proofs.Pairing

/-!
# Empty elements of arrays

An array is cut at the commas outside the brackets in it. The reader refuses it if between two commas,
or between a comma and a bracket, there is no token at all. It does not ask what the tokens are: an
element of blanks and comments is taken.
-/

namespace ArmaScript

open Atom List

/-! ### Arrays and their elements -/

namespace Atom

def isFiller : Atom → Bool
  | .comment _ | .space | .tab | .lineEnd _ | .lineJoin => true
  | _ => false

/-- The number of open brackets behind a token. -/
def depthBehind (depth : Nat) (a : Atom) : Nat :=
  if a.opens?.isSome then depth + 1 else if a.closes?.isSome then depth - 1 else depth

variable {a : Atom}

lemma depthBehind_opening {k : Bracket} (h : a.opens? = some k) (depth : Nat) :
    a.depthBehind depth = depth + 1 := by
  simp [depthBehind, h]

lemma depthBehind_closing {k : Bracket} (h : a.closes? = some k) (depth : Nat) :
    a.depthBehind depth = depth - 1 := by
  simp [depthBehind, h, opens?_of_closes? h]

lemma depthBehind_token (ho : a.opens? = none) (hc : a.closes? = none) (depth : Nat) :
    a.depthBehind depth = depth := by
  simp [depthBehind, ho, hc]

/-- Cuts tokens at the commas outside brackets. `begun` has the tokens of the first element so far,
behind which `depth` brackets are open. -/
def elementsFrom : Nat → List Atom → List Atom → List (List Atom)
  | _, begun, [] => [begun]
  | depth, begun, a :: rest =>
    if depth = 0 ∧ a.isMark "," then begun :: elementsFrom 0 [] rest
    else elementsFrom (a.depthBehind depth) (begun ++ [a]) rest

/-- The elements of an array, by the tokens between its brackets. -/
def elements (tokens : List Atom) : List (List Atom) :=
  elementsFrom 0 [] tokens

lemma elementsFrom_of_ne (h : a ≠ .mark ",") (depth : Nat) (begun rest : List Atom) :
    elementsFrom depth begun (a :: rest) =
      elementsFrom (a.depthBehind depth) (begun ++ [a]) rest := by
  rw [elementsFrom, if_neg fun hcomma => h (eq_mark_of_isMark hcomma.2)]

/-- Inside brackets no comma is a cut. -/
lemma elementsFrom_paired {tokens : List Atom} (h : Paired tokens) (depth : Nat)
    (begun rest : List Atom) : elementsFrom (depth + 1) begun (tokens ++ rest) =
      elementsFrom (depth + 1) (begun ++ tokens) rest := by
  induction h generalizing depth begun rest with
  | nil => simp
  | token ho hc _ ih =>
    rw [cons_append, elementsFrom, if_neg (by simp), depthBehind_token ho hc, ih]
    simp
  | group ho hc _ _ ihinner ihrest =>
    rw [append_assoc, cons_append, cons_append, elementsFrom, if_neg (by simp),
      depthBehind_opening ho, ihinner, elementsFrom, if_neg (by simp), depthBehind_closing hc,
      Nat.add_sub_cancel, ihrest]
    simp

end Atom

/-- The tokens `inner` stand between an opening bracket and the `]` that closes it. Whatever the opening
bracket is, they are read as an array. -/
def IsArray (tokens inner : List Atom) : Prop :=
  ∃ before o k after, tokens = before ++ o :: inner ++ .mark "]" :: after ∧
    opens? o = some k ∧ Paired inner

/-- The tokens `element` are an element of an array that has a comma. -/
def IsArrayElement (tokens element : List Atom) : Prop :=
  ∃ inner, IsArray tokens inner ∧ .mark "," ∈ inner ∧ element ∈ elements inner

namespace IsArray

/-- An array is on one side of the end of paired tokens. -/
lemma append_cases {xs ys inner : List Atom} (hx : Paired xs) (h : IsArray (xs ++ ys) inner) :
    IsArray xs inner ∨ IsArray ys inner := by
  obtain ⟨before, o, k, after, heq, ho, hinner⟩ := h
  rw [append_assoc, cons_append] at heq
  obtain ⟨zs, rfl, rfl⟩ | ⟨zs, rfl, hzs⟩ := append_eq_append_iff.mp heq
  · exact .inr ⟨zs, o, k, after, by simp, ho, hinner⟩
  · cases zs with
    | nil => exact .inr ⟨[], o, k, after, by simpa using hzs.symm, ho, hinner⟩
    | cons z zs =>
      -- the bracket is closed before the paired tokens end
      obtain rfl : o = z := (cons.inj hzs).1
      have htail : inner ++ .mark "]" :: after = zs ++ ys := (cons.inj hzs).2
      obtain ⟨inner', c, rest, k', rfl, hinner', hc⟩ := hx.exists_closing rfl ho
      rw [append_assoc, cons_append] at htail
      obtain ⟨rfl, rfl, -⟩ :=
        Paired.eq_of_closing htail hinner hinner' (closes?_closingText .square) hc
      exact .inl ⟨before, o, k, rest, by simp, ho, hinner⟩

/-- An array in a group is all of it, or it is further in. -/
lemma group_cases {o c : Atom} {k : Bracket} {content inner : List Atom}
    (hc : c.closes? = some k) (hcontent : Paired content)
    (h : IsArray (o :: content ++ [c]) inner) :
    (inner = content ∧ c = .mark "]") ∨ IsArray content inner := by
  obtain ⟨before, o', l, after, heq, ho, hinner⟩ := h
  cases before with
  | nil =>
    obtain ⟨-, heq⟩ := cons.inj heq
    obtain ⟨rfl, rfl, -⟩ :=
      Paired.eq_of_closing heq hcontent hinner hc (closes?_closingText .square)
    exact .inl ⟨rfl, rfl⟩
  | cons b before =>
    have harray : IsArray (content ++ [c]) inner :=
      ⟨before, o', l, after, (cons.inj heq).2, ho, hinner⟩
    obtain h | ⟨before', o'', l', after', heq', -⟩ := harray.append_cases hcontent
    · exact .inr h
    · have := congrArg length heq'
      simp at this
      omega

end IsArray

namespace Item

variable {i : Item} {around : List Bracket} {is part : List Item} {σ σ' : BuildState}

lemma atoms_of_isMark {text : String} (h : i.isMark text = true) : atoms [i] = [.mark text] := by
  cases i with
  | token t =>
    cases t with
    | atom id a =>
      rw [← eq_mark_of_isMark h]
      rfl
    | _ => cases h
  | group o c content => cases h

/-- An item that is no comma is part of the element in which it starts. -/
lemma elementsFrom_atoms_item (hopen : i.Open around) (hcomma : i.isMark "," = false)
    (begun rest : List Atom) : elementsFrom 0 begun (atoms [i] ++ rest) =
      elementsFrom 0 (begun ++ atoms [i]) rest := by
  cases i with
  | token t =>
    obtain ⟨ho, hc⟩ := hopen
    cases t with
    | atom id a =>
      have hne : a ≠ .mark "," := by
        rintro rfl
        cases hcomma
      change elementsFrom 0 begun (a :: rest) = elementsFrom 0 (begun ++ [a]) rest
      rw [elementsFrom_of_ne hne, depthBehind_token ho hc]
    | _ =>
      change elementsFrom 0 begun rest = elementsFrom 0 (begun ++ []) rest
      rw [append_nil]
  | group o c content =>
    obtain ⟨k, ho, ⟨k', hc, -⟩, hcontent⟩ := hopen
    have hne : mark k.openingText ≠ .mark "," := by
      cases k <;> simp [Bracket.openingText]
    rw [atoms_group ho hc, append_assoc, cons_append, elementsFrom_of_ne hne,
      depthBehind_opening (opens?_openingText k),
      elementsFrom_paired (paired_atomsList content hcontent), singleton_append,
      elementsFrom, if_neg (by simp),
      depthBehind_closing (closes?_closingText k')]
    simp

/-- Items are cut at the same commas as their tokens. -/
lemma elementsFrom_atoms {rest : List (List Item)} (hopen : OpenList around is)
    (hparts : parts is = part :: rest) (begun : List Atom) :
    elementsFrom 0 begun (atoms is) = (begun ++ atoms part) :: rest.map atoms := by
  induction is generalizing part rest begun with
  | nil =>
    cases hparts
    simp [atoms, elementsFrom]
  | cons i is ih =>
    rw [OpenList] at hopen
    obtain ⟨part', rest', hparts'⟩ := exists_cons_of_ne_nil (parts_ne_nil is)
    have ih := ih hopen.2 hparts'
    rw [← singleton_append, atoms_append]
    cases hcomma : i.isMark "," with
    | true =>
      rw [parts_comma hcomma, hparts'] at hparts
      cases hparts
      rw [atoms_of_isMark hcomma, singleton_append, elementsFrom, if_pos ⟨rfl, rfl⟩, ih]
      simp [atoms]
    | false =>
      rw [parts_other hcomma hparts'] at hparts
      cases hparts
      rw [elementsFrom_atoms_item hopen.1 hcomma, ih, append_assoc, ← atoms_append,
        singleton_append]

lemma elements_atoms (hopen : OpenList around is) : elements (atoms is) = (parts is).map atoms := by
  obtain ⟨part, rest, hparts⟩ := exists_cons_of_ne_nil (parts_ne_nil is)
  rw [elements, elementsFrom_atoms hopen hparts, hparts]
  rfl

lemma mem_of_mem_parts (h : part ∈ parts is) (hi : i ∈ part) : i ∈ is := by
  induction is generalizing part with
  | nil =>
    rw [mem_singleton.mp h] at hi
    exact hi
  | cons j is ih =>
    obtain ⟨part', rest, hparts⟩ := exists_cons_of_ne_nil (parts_ne_nil is)
    rw [hparts] at ih
    cases hcomma : j.isMark "," with
    | true =>
      rw [parts_comma hcomma, hparts] at h
      obtain rfl | h := mem_cons.mp h
      · cases hi
      · exact mem_cons_of_mem j (ih h hi)
    | false =>
      rw [parts_other hcomma hparts] at h
      obtain rfl | h := mem_cons.mp h
      · obtain rfl | hi := mem_cons.mp hi
        · exact mem_cons_self
        · exact mem_cons_of_mem j (ih mem_cons_self hi)
      · exact mem_cons_of_mem j (ih (mem_cons_of_mem part' h) hi)

lemma flat_ne_nil (i : Item) : i.flat ≠ [] := by
  cases i <;> simp

lemma flat_subset_flatList (h : i ∈ is) : i.flat ⊆ flatList is := by
  induction is with
  | nil => cases h
  | cons j is ih =>
    rw [flatList_cons]
    obtain rfl | h := mem_cons.mp h
    · exact subset_append_left _ _
    · exact Subset.trans (ih h) (subset_append_right _ _)

/-- An element has no tokens if the part between commas has no items. -/
lemma nil_mem_elements_iff (hopen : OpenList around is) (htokens : ∀ t ∈ flatList is, t.IsToken) :
    [] ∈ elements (atoms is) ↔ [] ∈ parts is := by
  rw [elements_atoms hopen, mem_map]
  constructor
  · rintro ⟨part, hpart, hnil⟩
    cases part with
    | nil => exact hpart
    | cons i part =>
      obtain ⟨t, ht⟩ := exists_mem_of_ne_nil _ i.flat_ne_nil
      have hmem := flat_subset_flatList (mem_of_mem_parts hpart mem_cons_self) ht
      obtain ⟨id, a, rfl, -⟩ := htokens _ hmem
      have : a ∈ atoms (i :: part) :=
        mem_filterMap.mpr ⟨_, by rw [flatList_cons]; exact mem_append_left _ ht, rfl⟩
      rw [hnil] at this
      cases this
  · exact fun h => ⟨[], h, rfl⟩

/-! ### Arrays that are built -/

lemma ne_nil_of_arrayElements {row es : List Tree} {place : Position}
    (h : Build.arrayElements row place σ = .ok es σ') (hne : row ≠ []) :
    [] ∉ Build.splitCommas row := by
  unfold Build.arrayElements at h
  rw [if_neg (by simpa using hne)] at h
  generalize Build.splitCommas row = parts at h
  induction parts generalizing es σ σ' with
  | nil => simp
  | cons part parts ih =>
    obtain ⟨t, σ1, ts, ht, hts, -⟩ := mapM_cons_eq_ok.mp h
    split_ifs at ht with hempty
    · cases ht
    · rw [mem_cons, not_or]
      exact ⟨fun hnil => hempty (by rw [← hnil]; rfl), ih hts⟩

lemma exists_build_of_buildList {stop : Stop} {row statements : List Tree}
    {left : List Tree × List Tree} (h : buildList stop is row statements σ = .ok left σ')
    (hi : i ∈ is) : ∃ σ1 t σ2, i.build stop σ1 = .ok t σ2 := by
  induction is generalizing row statements σ with
  | nil => cases hi
  | cons j is ih =>
    rw [buildList_cons] at h
    obtain ⟨t, σ1, ht, h⟩ := bind_eq_ok.mp h
    obtain rfl | hi := mem_cons.mp hi
    · exact ⟨σ, t, σ1, ht⟩
    · split_ifs at h
      · obtain ⟨statements', σ2, -, h⟩ := bind_eq_ok.mp h
        exact ih h hi
      · exact ih h hi

/-- If a group that is an array with tokens is built, it has no element without any. -/
lemma nil_not_mem_parts {stop : Stop} {o c t : Tree} {k : Bracket} {content : List Item}
    (ho : o.opens? = some k) (hc : c.closes? = some .square) (hopen : OpenList around content)
    (htokens : ∀ t ∈ flatList content, t.IsToken) (h : (group o c content).build stop σ = .ok t σ')
    (hne : content ≠ []) : [] ∉ parts content := by
  rw [build, ho, hc] at h
  obtain ⟨left, σ1, hleft, hclose⟩ := bind_eq_ok.mp h
  change (if left.2.isEmpty then _ else _ : Build Tree) σ1 = .ok t σ' at hclose
  split_ifs at hclose with hnone
  · obtain ⟨es, σ2, hes, -⟩ := bind_eq_ok.mp hclose
    have hwritten := written_of_buildList hopen htokens hleft (by simpa using hnone)
    rw [Build.nil_mem_iff_of_forall₂ (written_parts hwritten)]
    refine ne_nil_of_arrayElements hes fun hrow => hne ?_
    rw [hrow] at hwritten
    exact forall₂_nil_right_iff.mp hwritten
  · cases hclose

mutual

theorem nil_not_mem_elements_item {around : List Bracket} (stop : Stop) :
    ∀ i : Item, i.Open around → (∀ t ∈ i.flat, t.IsToken) →
      (∃ σ t σ', i.build stop σ = .ok t σ') →
      ∀ inner, IsArray (atoms [i]) inner → inner ≠ [] → [] ∉ elements inner
  | .token t, hopen, htokens, _, inner, harray, _ => by
    obtain ⟨before, o, k, after, heq, -⟩ := harray
    obtain ⟨id, a, rfl, -⟩ := htokens t (by simp)
    have := congrArg length heq
    simp [atoms, Tree.atom?] at this
    omega
  | .group o c content, hopen, htokens, ⟨σ, t, σ', h⟩, inner, harray, hne => by
    obtain ⟨k, ho, ⟨k', hc, -⟩, hcontent⟩ := hopen
    have htokens : ∀ t ∈ flatList content, t.IsToken := fun t ht => htokens t (by simp [ht])
    rw [atoms_group ho hc] at harray
    obtain ⟨rfl, hsquare⟩ | harray := harray.group_cases (closes?_closingText k')
      (paired_atomsList content hcontent)
    · rw [nil_mem_elements_iff hcontent htokens]
      have hkind := congrArg closes? hsquare
      rw [closes?_closingText] at hkind
      exact nil_not_mem_parts ho (hc.trans hkind) hcontent htokens h
        fun hnil => hne (by rw [hnil]; rfl)
    · rw [build, ho, hc] at h
      obtain ⟨left, σ1, hleft, -⟩ := bind_eq_ok.mp h
      exact nil_not_mem_elements (stop.inside k) content hcontent htokens
        (fun i hi => exists_build_of_buildList hleft hi) inner harray hne

/-- Where items are built, no array with tokens has an element without any. -/
theorem nil_not_mem_elements {around : List Bracket} (stop : Stop) :
    ∀ is : List Item, OpenList around is → (∀ t ∈ flatList is, t.IsToken) →
      (∀ i ∈ is, ∃ σ t σ', i.build stop σ = .ok t σ') →
      ∀ inner, IsArray (atoms is) inner → inner ≠ [] → [] ∉ elements inner
  | [], _, _, _, inner, harray, _ => by
    obtain ⟨before, o, k, after, heq, -⟩ := harray
    simp [atoms] at heq
  | i :: is, hopen, htokens, h, inner, harray, hne => by
    rw [OpenList] at hopen
    rw [← singleton_append, atoms_append] at harray
    obtain harray | harray := harray.append_cases (paired_atoms i hopen.1)
    · exact nil_not_mem_elements_item stop i hopen.1 (fun t ht => htokens t (by simp [ht]))
        (h i mem_cons_self) inner harray hne
    · exact nil_not_mem_elements stop is hopen.2 (fun t ht => htokens t (by simp [ht]))
        (fun j hj => h j (mem_cons_of_mem i hj)) inner harray hne

end

lemma parts_eq_singleton (h : ∀ i ∈ is, i.isMark "," = false) : parts is = [is] := by
  induction is with
  | nil => rfl
  | cons i is ih =>
    rw [forall_mem_cons] at h
    exact parts_other h.1 (ih h.2)

/-- Only a comma makes an element empty. -/
lemma comma_mem_atoms (hempty : [] ∈ parts is) (hne : is ≠ []) : .mark "," ∈ atoms is := by
  by_contra hcomma
  have hother : ∀ i ∈ is, i.isMark "," = false := by
    intro i hi
    rw [Bool.eq_false_iff]
    intro hmark
    have hatom : mark "," ∈ i.flat.filterMap Tree.atom? := by
      have := atoms_of_isMark hmark
      simp only [atoms, flatList_cons, flatList_nil, append_nil] at this
      simp [this]
    exact hcomma (filterMap_subset _ (flat_subset_flatList hi) hatom)
  rw [parts_eq_singleton hother, mem_singleton] at hempty
  exact hne hempty.symm

end Item

namespace Script

/-- The array with an empty element that is reported. -/
lemma isArrayElement_of_reportable {tokens : List Atom} {firstId : NodeId}
    {before after : List Tree} {o c : Tree} {k : Bracket} {around : List Bracket}
    {content : List Item} (hrow : leaves firstId (tokens ++ [.fileEnd]) =
      before ++ o :: Item.flatList content ++ c :: after)
    (ho : o.opens? = some k) (hcontent : Item.OpenList around content)
    (hc : c.closes? = some .square) (hne : content ≠ []) (hempty : [] ∈ Item.parts content) :
    IsArrayElement tokens [] := by
  refine ⟨Item.atoms content, ?_, Item.comma_mem_atoms hempty hne, ?_⟩
  · obtain ⟨i, rfl⟩ := Build.eq_atom_of_opens? ho
    obtain ⟨j, rfl⟩ := Build.eq_atom_of_closes? hc
    have htokens := congrArg (List.filterMap Tree.atom?) hrow
    simp only [filterMap_leaves, filterMap_append, filterMap_cons, Tree.atom?] at htokens
    obtain hafter | ⟨rest, e, hafter⟩ := eq_nil_or_concat (after.filterMap Tree.atom?)
    · -- the closing bracket is not the end of the script
      rw [hafter] at htokens
      obtain ⟨-, hend⟩ := append_inj' htokens rfl
      cases singleton_inj.mp hend
    · rw [hafter, concat_eq_append, ← cons_append, ← append_assoc] at htokens
      obtain ⟨htokens, -⟩ := append_inj' htokens rfl
      exact ⟨_, _, k, rest, htokens, opens?_openingText k, Item.paired_atomsList content hcontent⟩
  · rw [Item.elements_atoms hcontent, mem_map]
    exact ⟨[], hempty, rfl⟩

lemma not_isArrayElement_nil {text : String} {tokens : List Atom} {firstId : NodeId}
    {script : Script} (hlex : lex text = .ok tokens)
    (hplain : ∀ a ∈ tokens, a.isReplacing = false) (hread : read text firstId = .ok script) :
    ¬ IsArrayElement tokens [] := by
  rintro ⟨inner, harray, hcomma, hmem⟩
  obtain ⟨content, hcontent⟩ := exists_outlined hlex hplain hread
  have htokens : ∀ t ∈ Item.flatList content, t.IsToken := by
    rw [hcontent.tokens]
    intro t ht
    refine isToken_of_mem_leaves (fun a ha => ⟨?_, ?_⟩) ht
    · exact text_ne_empty_of_lex hlex a ha
    · exact kind_ne_fileEnd_of_lex hlex a ha
  have hatoms : tokens = Item.atoms content := by
    rw [Item.atoms, hcontent.tokens, filterMap_leaves]
  obtain ⟨σ, left, σ1, _, _, _, hbuilt, -⟩ := hcontent.built
  rw [hatoms] at harray
  exact Item.nil_not_mem_elements .both content hcontent.fits htokens
    (fun i hi => Item.exists_build_of_buildList hbuilt hi) inner harray (ne_nil_of_mem hcomma) hmem

/-- A script that is read has no array with an element without tokens, and one is reported only if there
is such an element. So elements of white space and comments are the only blank ones in what is read. -/
theorem emptyElement_of_read {text : String} {tokens : List Atom} (firstId : NodeId)
    (hlex : Atom.lex text = .ok tokens) (hplain : ∀ a ∈ tokens, a.isReplacing = false) :
    (∀ script, read text firstId = .ok script →
      ¬ IsArrayElement tokens [] ∧
      ((∀ e, IsArrayElement tokens e → e.all Atom.isFiller = false) ↔
        ∀ e, IsArrayElement tokens e → e ≠ [] → e.all Atom.isFiller = false)) ∧
    ∀ place, read text firstId = .error (.error place "Array cannot have an empty element") →
      IsArrayElement tokens [] := by
  refine ⟨fun script hread => ?_, fun place hread => ?_⟩
  · have hnone := not_isArrayElement_nil hlex hplain hread
    refine ⟨hnone, fun h e he _ => h e he, fun h e he => h e he ?_⟩
    rintro rfl
    exact hnone he
  · have hreport := reportable_of_read hlex hplain hread
    generalize hd : (⟨.error, place, "Array cannot have an empty element"⟩ : Diagnostic) = d
      at hreport
    cases hreport with
    | emptyElement hrow ho hcontent hc hne hempty =>
      exact isArrayElement_of_reportable hrow ho hcontent hc hne hempty
    | statement _ _ text =>
      injection hd with _ _ hmessage
      have hletter := congrArg (·.toList[1]?) hmessage
      simp at hletter
    | unclosed => cases hd
    | unopened => cases hd

theorem emptyElement_of_read_nested :
    ∃ tokens script, Atom.lex "[\"a\",[(),\x7b\x7d]]" = .ok tokens ∧
      (∀ a ∈ tokens, a.isReplacing = false) ∧ read "[\"a\",[(),\x7b\x7d]]" 0 = .ok script ∧
      ¬ IsArrayElement tokens [] ∧
      ((∀ e, IsArrayElement tokens e → e.all Atom.isFiller = false) ↔
        ∀ e, IsArrayElement tokens e → e ≠ [] → e.all Atom.isFiller = false) := by
  obtain ⟨script, hread, -⟩ := exists_eq_ok_of_any
    (x := read "[\"a\",[(),\x7b\x7d]]" 0) (p := fun _ => true) (by decide +kernel)
  obtain ⟨tokens, hlex, htokens⟩ := exists_eq_ok_of_any
    (x := Atom.lex "[\"a\",[(),\x7b\x7d]]") (p := (·.all (!·.isReplacing))) (by decide +kernel)
  have hplain : ∀ a ∈ tokens, a.isReplacing = false := by simpa using htokens
  exact ⟨tokens, script, hlex, hplain, hread, (emptyElement_of_read 0 hlex hplain).1 script hread⟩

/-- A blank behind the last comma is taken for an element. -/
theorem read_array_blank_element :
    ∃ tokens script, Atom.lex "[\"a\", ]" = .ok tokens ∧ read "[\"a\", ]" 0 = .ok script ∧
      IsArrayElement tokens [.space] ∧ [Atom.space].all Atom.isFiller = true := by
  obtain ⟨script, hread, -⟩ := exists_eq_ok_of_any
    (x := read "[\"a\", ]" 0) (p := fun _ => true) (by decide +kernel)
  have hlex : Atom.lex "[\"a\", ]" =
      .ok [.mark "[", .string (some ⟨'"', "a"⟩), .mark ",", .space, .mark "]"] := rfl
  refine ⟨_, script, hlex, hread, ⟨[.string (some ⟨'"', "a"⟩), .mark ",", .space], ?_, ?_, ?_⟩, rfl⟩
  · exact ⟨[], .mark "[", .square, [], rfl, rfl, .token rfl rfl (.token rfl rfl (.token rfl rfl .nil))⟩
  · simp
  · exact mem_cons_of_mem _ mem_cons_self

end Script

end ArmaScript
