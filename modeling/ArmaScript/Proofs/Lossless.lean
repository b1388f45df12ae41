import ArmaScript.Proofs.Lexing
import ArmaScript.Proofs.Tokens

/-!
# What the tree of a script keeps of its text

The text of the tree is that of the script, with two exceptions. Layout behind an operator that has no
right operand is left out, and a group is written with brackets of the kind of its closing bracket.
Both can be told from the outline of the script, and where neither occurs nothing is lost.
-/

namespace ArmaScript

open Build Precedence List

namespace Item

def text (i : Item) : String :=
  Tree.textList i.flat

def isLayout : Item → Bool
  | .token t => t.isLayout
  | .group .. => false

def items : Items Item :=
  ⟨text, isLayout⟩

def isEnd (stop : Stop) : Item → Bool
  | .token t => stop.isEnd t
  | .group .. => false

def isMark (i : Item) (text : String) : Bool :=
  match i with
  | .token t => t.isMark text
  | .group .. => false

/-- The rows of statements, each with its ending. `row` has the items of the first row so far. -/
def rows (stop : Stop) : List Item → List Item → List (List Item)
  | row, [] => [row]
  | row, i :: is => if i.isEnd stop then (row ++ [i]) :: rows stop [] is else rows stop (row ++ [i]) is

/-- The rows between commas. -/
def parts : List Item → List (List Item)
  | [] => [[]]
  | i :: is =>
    match i.isMark ",", parts is with
    | true, rest => [] :: rest
    | false, part :: rest => (i :: part) :: rest
    | false, [] => [[i]]

/-- A row without the ending behind it. -/
def body (row : List Item) : List Item :=
  if row.getLast?.any fun i => i.isMark ";" || i.isMark "," then row.dropLast else row

/-- Whether layout at the end of a row is lost: it follows an operator without a right operand. -/
def loses (row : List Item) : Bool :=
  endsOpen items (body row) && (body row).getLast?.any isLayout

def rowsIn (stop : Stop) (k : Bracket) (content : List Item) : List (List Item) :=
  match k with
  | .square => parts content
  | _ => rows stop [] content

mutual

/-- Whether nothing of an item is lost: its brackets are of one kind, none of its rows loses layout, and
nothing is lost inside. -/
def isFaithful (stop : Stop) : Item → Bool
  | .token _ => true
  | .group o c content =>
    match o.opens?, c.closes? with
    | some k, some k' => k == k' && (rowsIn (stop.inside k) k' content).all (!loses ·) &&
        isFaithfulList (stop.inside k) content
    | _, _ => false

/-- Whether nothing is lost inside several items. -/
def isFaithfulList (stop : Stop) : List Item → Bool
  | [] => true
  | i :: is => i.isFaithful stop && isFaithfulList stop is

end

lemma isFaithfulList_iff {stop : Stop} {is : List Item} :
    isFaithfulList stop is = true ↔ ∀ i ∈ is, i.isFaithful stop = true := by
  induction is with
  | nil => simp [isFaithfulList]
  | cons i is ih => simp [isFaithfulList, ih]

end Item

/-- A text that stands for a source is no longer than it, and is the source itself exactly under a
condition. -/
structure Renders (text source : String) (condition : Prop) : Prop where
  length_le : text.length ≤ source.length
  eq_iff : text = source ↔ condition

namespace Renders

lemma refl (text : String) : Renders text text True :=
  ⟨Nat.le_refl _, by simp⟩

lemma append {t1 t2 s1 s2 : String} {c1 c2 : Prop} (h1 : Renders t1 s1 c1)
    (h2 : Renders t2 s2 c2) : Renders (t1 ++ t2) (s1 ++ s2) (c1 ∧ c2) where
  length_le := by
    have := h1.length_le
    have := h2.length_le
    simp only [String.length_append]
    omega
  eq_iff := by
    rw [← h1.eq_iff, ← h2.eq_iff]
    constructor
    · intro h
      -- neither part is longer than its source, so the parts have the lengths of their sources
      have hlen : t1.length + t2.length = s1.length + s2.length := by
        rw [← String.length_append, ← String.length_append, h]
      have hl1 := h1.length_le
      have hl2 := h2.length_le
      have hlist : t1.toList ++ t2.toList = s1.toList ++ s2.toList := by
        rw [← String.toList_append, ← String.toList_append, h]
      obtain ⟨h1', h2'⟩ := append_inj hlist (by simp only [String.length_toList]; omega)
      exact ⟨String.toList_inj.mp h1', String.toList_inj.mp h2'⟩
    · rintro ⟨rfl, rfl⟩
      rfl

lemma congr {text source : String} {c c' : Prop} (h : Renders text source c) (hc : c ↔ c') :
    Renders text source c' :=
  ⟨h.length_le, h.eq_iff.trans hc⟩

end Renders

/-- A token of a script: a leaf that has a text, and not the end of the script. -/
def Tree.IsToken (t : Tree) : Prop :=
  ∃ id a, t = .atom id a ∧ a.text ≠ "" ∧ a.kind ≠ .fileEnd

namespace Item

/-- The text of several items as it stands in the script. -/
def textList (is : List Item) : String :=
  Tree.textList (flatList is)

@[simp] lemma textList_nil : textList [] = "" := by simp [textList]

@[simp] lemma textList_cons (i : Item) (is : List Item) :
    textList (i :: is) = i.text ++ textList is := by simp [textList, text]

@[simp] lemma textList_append (is js : List Item) :
    textList (is ++ js) = textList is ++ textList js := by simp [textList]

structure Written (stop : Stop) (i : Item) (t : Tree) : Prop where
  renders : Renders t.text i.text (i.isFaithful stop = true)
  same : match i with
    | .token u => t = u ∧ u.IsToken
    | .group .. => t.atom? = none
  ending : t.ending? = none

variable {stop : Stop}
  {i : Item} {t : Tree} {row is : List Item} {ts nodes es : List Tree} {σ σ' σ1 : BuildState}
  {left : List Tree × List Tree}

lemma Written.isLayout (h : Written stop i t) : t.isLayout = i.isLayout := by
  cases i with
  | token u =>
    rw [h.same.1]
    rfl
  | group o c content =>
    have ht : t.atom? = none := h.same
    cases t with
    | atom id a => cases ht
    | _ => rfl

lemma renders_row (h : Forall₂ (Written stop) row ts) :
    Renders (Tree.textList ts) (textList row) (∀ i ∈ row, i.isFaithful stop = true) := by
  induction h with
  | nil => simpa using Renders.refl ""
  | cons hi _ ih =>
    rw [Tree.textList_cons, textList_cons]
    exact (hi.renders.append ih).congr (by simp)

lemma Written.text_ne_empty (h : Written stop i t) (hi : i.isLayout = true) : t.text ≠ "" := by
  cases i with
  | token u =>
    obtain ⟨rfl, id, a, rfl, ha, -⟩ := h.same
    simpa using ha
  | group o c content => cases hi

lemma exists_of_mem_written (h : Forall₂ (Written stop) row ts) (ht : t ∈ ts) :
    ∃ i ∈ row, Written stop i t := by
  induction h with
  | nil => simp at ht
  | @cons i u is us hi _ ih =>
    rcases mem_cons.mp ht with rfl | ht
    · exact ⟨i, by simp, hi⟩
    · obtain ⟨j, hj, hw⟩ := ih ht
      exact ⟨j, by simp [hj], hw⟩

/-- Where nothing is lost inside the items of a row, the row of trees loses layout if the row does. -/
lemma loses_written (h : Forall₂ (Written stop) row ts) (hf : ∀ i ∈ row, i.isFaithful stop = true) :
    (endsOpen Build.items ts && ts.getLast?.any Build.items.isLayout) =
      (endsOpen items row && row.getLast?.any isLayout) := by
  have hrow : Forall₂ (fun t i => Build.items.text t = items.text i ∧
      Build.items.isLayout t = items.isLayout i) ts row := by
    induction h with
    | nil => exact .nil
    | cons hi _ ih =>
      refine .cons ⟨hi.renders.eq_iff.mpr (hf _ (by simp)), hi.isLayout⟩ (ih fun i hi => ?_)
      exact hf i (by simp [hi])
  have hmap : ts.map Tree.isLayout = row.map isLayout := by
    clear hrow hf
    induction h with
    | nil => rfl
    | cons hi _ ih => simp [hi.isLayout, ih]
  have hany : ∀ {α : Type} (p : α → Bool) (xs : List α),
      xs.getLast?.any p = (xs.map p).getLast?.getD false := by
    intro α p xs
    rw [List.getLast?_map]
    cases xs.getLast? <;> rfl
  rw [endsOpen_congr hrow, hany, hany]
  change (_ && ((ts.map Tree.isLayout).getLast?.getD false)) = _
  rw [hmap]

/-- What is arranged of a row renders the row, unless layout is lost. -/
lemma renders_kept (h : Forall₂ (Written stop) row ts) :
    Renders (Tree.textList (kept Build.items ts)) (textList row)
      ((∀ i ∈ row, i.isFaithful stop = true) ∧
        (endsOpen items row && row.getLast?.any isLayout) = false) := by
  obtain ⟨dropped, hts, hlayout, hdropped⟩ := exists_kept_append Build.items ts
  have hall := renders_row h
  have htext : Tree.textList ts =
      Tree.textList (kept Build.items ts) ++ Tree.textList dropped := by
    rw [← Tree.textList_append, ← hts]
  have hlen : (Tree.textList (kept Build.items ts)).length + (Tree.textList dropped).length
      ≤ (textList row).length := by
    have := hall.length_le
    rwa [htext, String.length_append] at this
  refine ⟨by omega, ?_, ?_⟩
  · intro hk
    -- nothing can be dropped, because layout has a text
    have hnil : dropped = [] := by
      have hempty : Tree.textList dropped = "" := by
        rw [hk] at hlen
        exact String.length_eq_zero_iff.mp (by omega)
      cases dropped with
      | nil => rfl
      | cons t rest =>
        obtain ⟨i, -, hi⟩ := exists_of_mem_written h (t := t) (by rw [hts]; simp)
        have ht : i.isLayout = true := hi.isLayout.symm.trans (hlayout t (by simp))
        simp only [Tree.textList_cons, String.append_eq_empty_iff] at hempty
        exact absurd hempty.1 (hi.text_ne_empty ht)
    have hf := hall.eq_iff.mp (by rw [htext, hnil, hk]; simp)
    exact ⟨hf, loses_written h hf ▸ hdropped.mp hnil⟩
  · rintro ⟨hf, hl⟩
    have hnil : dropped = [] := hdropped.mpr ((loses_written h hf).trans hl)
    rw [← hall.eq_iff.mpr hf, htext, hnil]
    simp

lemma forall₂_concat {α β : Type} {R : α → β → Prop} {xs : List α} {x : α} {zs : List β}
    (h : Forall₂ R (xs ++ [x]) zs) : ∃ ys y, zs = ys ++ [y] ∧ Forall₂ R xs ys ∧ R x y := by
  induction xs generalizing zs with
  | nil =>
    cases h with
    | @cons _ y _ _ hy hys =>
      cases hys
      exact ⟨[], y, rfl, .nil, hy⟩
  | cons a as ih =>
    cases h with
    | @cons _ b _ bs hb hbs =>
      obtain ⟨ys, y, rfl, hys, hy⟩ := ih hbs
      exact ⟨b :: ys, y, rfl, .cons hb hys, hy⟩

lemma ending_written (h : Written stop i t) (ts : List Tree) :
    (endingOf? (ts ++ [t]) = none ∧ (i.isMark ";" || i.isMark ",") = false) ∨
      ∃ e, endingOf? (ts ++ [t]) = some e ∧ (i.isMark ";" || i.isMark ",") = true ∧
        i.text = e.text ∧ i.isFaithful stop = true := by
  rw [endingOf?_concat]
  cases i with
  | group o c content =>
    have ht : t.atom? = none := h.same
    cases t with
    | atom id a => cases ht
    | _ => exact .inl ⟨rfl, rfl⟩
  | token u =>
    obtain ⟨rfl, id, a, rfl, -⟩ := h.same
    cases a with
    | mark s =>
      by_cases h1 : s = ";"
      · subst h1
        exact .inr ⟨.semicolon, rfl, rfl, by simp [text, Atom.text, Ending.text], rfl⟩
      · by_cases h2 : s = ","
        · subst h2
          exact .inr ⟨.comma, rfl, rfl, by simp [text, Atom.text, Ending.text], rfl⟩
        · left
          simp [Ending.ofText?, isMark, Tree.isMark, Atom.isMark, Atom.same, h1, h2]
    | _ => exact .inl ⟨rfl, rfl⟩

/-- A row of trees without its ending is written for the row without its ending. -/
lemma written_body (h : Forall₂ (Written stop) row ts) :
    Forall₂ (Written stop) (body row) (bodyOf ts) ∧
      textList row = textList (body row) ++ endingText (endingOf? ts) ∧
      ((∀ i ∈ body row, i.isFaithful stop = true) ↔ ∀ i ∈ row, i.isFaithful stop = true) := by
  rcases eq_nil_or_concat row with rfl | ⟨front, i, rfl⟩
  · cases h
    exact ⟨.nil, by simp [body, endingText, endingOf?], by simp [body]⟩
  · rw [concat_eq_append] at h ⊢
    obtain ⟨us, u, rfl, hfront, hlast⟩ := forall₂_concat h
    rcases ending_written hlast us with ⟨hnone, hi⟩ | ⟨e, hsome, hi, htext, hf⟩
    · have hbody : body (front ++ [i]) = front ++ [i] := by simp [body, hi]
      rw [hbody, bodyOf, hnone]
      exact ⟨h, by simp [endingText], Iff.rfl⟩
    · have hbody : body (front ++ [i]) = front := by simp [body, hi]
      rw [hbody, bodyOf, hsome]
      refine ⟨by simpa using hfront, by simp [endingText, htext], ?_⟩
      simp [or_imp, forall_and, hf]

lemma renders_arrange (h : Forall₂ (Written stop) row ts) (ht : Build.arrange ts σ = .ok t σ') :
    Renders t.text (textList row) ((∀ i ∈ row, i.isFaithful stop = true) ∧ loses row = false) := by
  have hending : ∀ u ∈ ts, u.ending? = none := by
    intro u hu
    obtain ⟨i, -, hi⟩ := exists_of_mem_written h hu
    exact hi.ending
  obtain ⟨hbody, htext, hf⟩ := written_body h
  rw [Build.text_arrange ht hending, htext, ← hf]
  exact ((renders_kept hbody).append (Renders.refl _)).congr (by simp [loses])

/-! ### Rows of statements -/

/-- A row of which nothing is lost. -/
def Good (stop : Stop) (row : List Item) : Prop :=
  (∀ i ∈ row, i.isFaithful stop = true) ∧ loses row = false

def RowWritten (stop : Stop) (row : List Item) (t : Tree) : Prop :=
  Renders t.text (textList row) (Good stop row)

variable (stop) in
lemma flatten_rows (row is : List Item) : (rows stop row is).flatten = row ++ is := by
  induction is generalizing row with
  | nil => simp [rows]
  | cons i is ih =>
    rw [rows]
    split_ifs <;> simp [ih]

lemma renders_rows {done : List (List Item)} (h : Forall₂ (RowWritten stop) done nodes) :
    Renders (Tree.textList nodes) (textList done.flatten) (∀ row ∈ done, Good stop row) := by
  induction h with
  | nil => simpa using Renders.refl ""
  | cons hrow _ ih =>
    rw [flatten_cons, textList_append, Tree.textList_cons]
    exact (Renders.append hrow ih).congr (by simp)

lemma Written.isEnd (h : Written stop i t) (stop' : Stop) : stop'.isEnd t = i.isEnd stop' := by
  cases i with
  | token u =>
    rw [h.same.1]
    rfl
  | group o c content => exact isEnd_of_atom? stop' h.same

lemma Written.rowWith (h : Written stop i t) (ts : List Tree) : rowWith ts t = ts ++ [t] := by
  cases i with
  | token u =>
    obtain ⟨rfl, id, a, rfl, -, ha⟩ := h.same
    simp [rowWith, Tree.kind, ha]
  | group o c content => exact rowWith_of_atom? h.same

lemma Written.isMark (h : Written stop i t) (text : String) : t.isMark text = i.isMark text := by
  cases i with
  | token u =>
    rw [h.same.1]
    rfl
  | group o c content =>
    have ht : t.atom? = none := h.same
    cases t with
    | atom id a => cases ht
    | _ => rfl

lemma rows_buildList {ss : List Tree}
    (his : ∀ i ∈ is, ∀ σ t σ', i.build stop σ = .ok t σ' → Written stop i t)
    (hrow : Forall₂ (Written stop) row ts) (h : buildList stop is ts ss σ = .ok left σ') :
    ∃ done last nodes, rows stop row is = done ++ [last] ∧ Forall₂ (Written stop) last left.1 ∧
      left.2 = ss ++ nodes ∧ Forall₂ (RowWritten stop) done nodes := by
  induction is generalizing row ts ss σ with
  | nil =>
    rw [buildList_nil] at h
    cases h
    exact ⟨[], row, [], rfl, hrow, by simp, .nil⟩
  | cons i is ih =>
    rw [buildList_cons] at h
    obtain ⟨t, σ1, h1, h⟩ := bind_eq_ok.mp h
    have hi := his i (by simp) _ _ _ h1
    have hrow' : Forall₂ (Written stop) (row ++ [i]) (ts ++ [t]) :=
      rel_append hrow (.cons hi .nil)
    have his' := fun j hj => his j (mem_cons_of_mem i hj)
    rw [hi.isEnd, hi.rowWith] at h
    rw [rows]
    split_ifs at h ⊢ with hend
    · obtain ⟨ss', σ2, h2, h3⟩ := bind_eq_ok.mp h
      rw [closeRow, if_neg (by simp)] at h2
      obtain ⟨u, σ3, h2, h4⟩ := bind_eq_ok.mp h2
      cases h4
      obtain ⟨done, last, nodes, hrows, hlast, hleft, hdone⟩ := ih his' .nil h3
      refine ⟨(row ++ [i]) :: done, last, u :: nodes, by simp [hrows], hlast, by simp [hleft], ?_⟩
      exact .cons (renders_arrange hrow' h2) hdone
    · exact ih his' hrow' h

lemma good_rows_iff : (∀ r ∈ rows stop [] is, Good stop r) ↔
      (∀ i ∈ is, i.isFaithful stop = true) ∧ ∀ r ∈ rows stop [] is, loses r = false := by
  have hmem : ∀ i, i ∈ is ↔ ∃ r ∈ rows stop [] is, i ∈ r := by
    intro i
    rw [← mem_flatten, flatten_rows, nil_append]
  simp only [Good, hmem]
  constructor
  · intro h
    exact ⟨fun i ⟨r, hr, hi⟩ => (h r hr).1 i hi, fun r hr => (h r hr).2⟩
  · rintro ⟨hf, hl⟩ r hr
    exact ⟨fun i hi => hf i ⟨r, hr, hi⟩, hl r hr⟩

lemma renders_closeRow (his : ∀ i ∈ is, ∀ σ t σ', i.build stop σ = .ok t σ' → Written stop i t)
    (hleft : buildList stop is [] [] σ = .ok left σ1)
    (h : closeRow left.1 left.2 σ1 = .ok nodes σ') : Renders (Tree.textList nodes) (textList is)
      ((∀ i ∈ is, i.isFaithful stop = true) ∧ ∀ r ∈ rows stop [] is, loses r = false) := by
  obtain ⟨done, last, ts, hrows, hlast, hss, hdone⟩ := rows_buildList his .nil hleft
  have hflat : textList is = textList done.flatten ++ textList last := by
    have := flatten_rows stop [] is
    rw [hrows] at this
    rw [← nil_append is, ← this]
    simp
  have hgood : (∀ r ∈ done ++ [last], Good stop r) ↔ (∀ r ∈ done, Good stop r) ∧ Good stop last := by
    rw [forall_mem_append, forall_mem_singleton]
  rw [← good_rows_iff, hrows, hflat, hgood]
  rw [nil_append] at hss
  unfold closeRow at h
  split_ifs at h with hempty
  · cases h
    have hnil : last = [] := by
      rw [isEmpty_iff.mp hempty] at hlast
      cases hlast
      rfl
    have hlast : Good stop [] := ⟨by simp, rfl⟩
    rw [hnil, hss]
    simpa [hlast] using renders_rows hdone
  · obtain ⟨t, σ2, h1, h2⟩ := bind_eq_ok.mp h
    cases h2
    rw [hss, Tree.textList_append, Tree.textList_cons, Tree.textList_nil, String.append_empty]
    exact (renders_rows hdone).append (renders_arrange hlast h1)

/-! ### The elements of arrays -/

/-- Texts with a comma between any two. -/
def joined : List String → String
  | [] => ""
  | [s] => s
  | s :: t :: rest => s ++ ("," ++ joined (t :: rest))

lemma parts_ne_nil (is : List Item) : parts is ≠ [] := by
  cases is with
  | nil => simp [parts]
  | cons i is =>
    rw [parts]
    split <;> simp

lemma joined_append (s : String) {t : String} {rest : List String} :
    joined ((s ++ t) :: rest) = s ++ joined (t :: rest) := by
  cases rest with
  | nil => rfl
  | cons u rest => simp [joined, String.append_assoc]

lemma parts_comma (h : i.isMark "," = true) (is : List Item) :
    parts (i :: is) = [] :: parts is := by
  rw [parts, h]

lemma parts_other {part : List Item} {rest : List (List Item)} (h : i.isMark "," = false)
    (hp : parts is = part :: rest) : parts (i :: is) = (i :: part) :: rest := by
  rw [parts, h, hp]

lemma text_of_isMark {s : String} (h : i.isMark s = true) : i.text = s := by
  cases i with
  | token t =>
    cases t with
    | atom id a =>
      have ha : a = .mark s := Atom.eq_mark_of_isMark h
      subst ha
      simp [text, Atom.text]
    | _ => cases h
  | group o c content => cases h

lemma isFaithful_of_isMark {s : String} (h : i.isMark s = true) : i.isFaithful stop = true := by
  cases i with
  | token t => rfl
  | group o c content => cases h

/-- The rows between commas make up what they are cut from. -/
lemma joined_parts (is : List Item) : joined ((parts is).map textList) = textList is := by
  induction is with
  | nil => simp [parts, joined]
  | cons i is ih =>
    obtain ⟨part, rest, hparts⟩ := exists_cons_of_ne_nil (parts_ne_nil is)
    cases hi : i.isMark "," with
    | true =>
      rw [parts_comma hi, textList_cons, ← ih, text_of_isMark hi, hparts]
      simp [joined]
    | false =>
      rw [parts_other hi hparts, textList_cons, ← ih, hparts]
      simp [joined_append]

lemma good_parts_iff : (∀ part ∈ parts is, Good stop part) ↔
      (∀ i ∈ is, i.isFaithful stop = true) ∧ ∀ part ∈ parts is, loses part = false := by
  have hmem : (∀ part ∈ parts is, ∀ i ∈ part, i.isFaithful stop = true) ↔
      ∀ i ∈ is, i.isFaithful stop = true := by
    induction is with
    | nil => simp [parts]
    | cons i is ih =>
      obtain ⟨part, rest, hparts⟩ := exists_cons_of_ne_nil (parts_ne_nil is)
      cases hi : i.isMark "," with
      | true =>
        rw [parts_comma hi]
        simp [ih, isFaithful_of_isMark hi]
      | false =>
        rw [parts_other hi hparts]
        rw [hparts] at ih
        simp only [forall_mem_cons] at ih ⊢
        rw [← ih, and_assoc]
  rw [← hmem]
  exact ⟨fun h => ⟨fun p hp => (h p hp).1, fun p hp => (h p hp).2⟩,
    fun h p hp => ⟨h.1 p hp, h.2 p hp⟩⟩

/-- The rows of trees between commas are written for the rows of items between commas. -/
lemma written_parts (h : Forall₂ (Written stop) is ts) :
    Forall₂ (Forall₂ (Written stop)) (parts is) (splitCommas ts) := by
  induction h with
  | nil => exact .cons .nil .nil
  | @cons i t is ts hi _ ih =>
    obtain ⟨part, rest, hparts⟩ := exists_cons_of_ne_nil (parts_ne_nil is)
    have hmark := hi.isMark ","
    rw [hparts] at ih
    cases hc : i.isMark "," with
    | true =>
      rw [parts_comma hc, hparts, splitCommas, hmark, hc]
      exact .cons .nil ih
    | false =>
      rw [parts_other hc hparts, splitCommas, hmark, hc]
      generalize splitCommas ts = tparts at ih
      cases ih with
      | cons hpart hrest => exact .cons (.cons hi hpart) hrest

lemma renders_joined {ps : List (List Item)} (h : Forall₂ (RowWritten stop) ps es) :
    Renders (joined (es.map Tree.text)) (joined (ps.map textList)) (∀ p ∈ ps, Good stop p) := by
  induction h with
  | nil => simpa [joined] using Renders.refl ""
  | @cons p e ps es hp hrest ih =>
    cases hrest with
    | nil => exact Renders.congr hp (by simp)
    | cons _ _ =>
      exact (Renders.append hp ((Renders.refl ",").append ih)).congr (by simp)

lemma written_elements {ps : List (List Item)} {tss : List (List Tree)} {place : Position}
    (h : Forall₂ (Forall₂ (Written stop)) ps tss)
    (he : tss.mapM (fun part => if part.isEmpty then
      throw (.error place "Array cannot have an empty element") else arrange part) σ =
        .ok es σ') :
    Forall₂ (RowWritten stop) ps es := by
  induction h generalizing es σ with
  | nil =>
    cases he
    exact .nil
  | cons hp _ ih =>
    obtain ⟨t, σ1, ts, h1, h2, rfl⟩ := mapM_cons_eq_ok.mp he
    split_ifs at h1
    · cases h1
    · exact .cons (renders_arrange hp h1) (ih h2)

lemma text_withCommas {inner : List Tree} (h : withCommas es σ = .ok inner σ') :
    Tree.textList inner = joined (es.map Tree.text) := by
  induction es generalizing inner σ with
  | nil =>
    cases h
    simp [joined]
  | cons t ts ih =>
    cases ts with
    | nil =>
      cases h
      simp [joined]
    | cons u us =>
      obtain ⟨comma, σ1, h1, h2⟩ := bind_eq_ok.mp h
      obtain ⟨rest, σ2, h2, h3⟩ := bind_eq_ok.mp h2
      cases h1
      cases h3
      simp [joined, ih h2, Atom.text]

lemma renders_array {place : Position} (h : Forall₂ (Written stop) is ts)
    (hes : arrayElements ts place σ = .ok es σ1) (ht : array es σ1 = .ok t σ') :
    ∃ inner, t.text = "[" ++ inner ++ "]" ∧ Renders inner (textList is)
      ((∀ i ∈ is, i.isFaithful stop = true) ∧ ∀ part ∈ parts is, loses part = false) := by
  unfold array at ht
  split_ifs at ht with hempty
  · cases ht
  · have hne : ts.isEmpty = false := by
      cases ts with
      | nil =>
        cases hes
        simp at hempty
      | cons _ _ => rfl
    unfold arrayElements at hes
    rw [hne] at hes
    have helements := written_elements (written_parts h) hes
    obtain ⟨opening, σ2, h1, h2⟩ := bind_eq_ok.mp ht
    obtain ⟨inner, σ3, h3, h4⟩ := bind_eq_ok.mp h2
    cases h1
    cases h4
    refine ⟨Tree.textList inner, by simp [Atom.text, String.append_assoc], ?_⟩
    rw [text_withCommas h3, ← good_parts_iff, ← joined_parts]
    exact renders_joined helements

/-! ### Groups and scripts -/

lemma renders_closeBlock {k : Bracket}
    (his : ∀ i ∈ is, ∀ σ t σ', i.build stop σ = .ok t σ' → Written stop i t)
    (hleft : buildList stop is [] [] σ = .ok left σ1)
    (h : closeBlock left.1 left.2 k σ1 = .ok t σ') :
    ∃ inner, t.text = k.openingText ++ inner ++ k.closingText ∧ Renders inner (textList is)
      ((∀ i ∈ is, i.isFaithful stop = true) ∧ ∀ r ∈ rowsIn stop k is, loses r = false) := by
  cases k with
  | round | curly =>
    obtain ⟨nodes, σ2, h1, h2⟩ := bind_eq_ok.mp h
    cases h2
    refine ⟨Tree.textList nodes, ?_, renders_closeRow his hleft h1⟩
    simp [Atom.text, Bracket.openingText, Bracket.closingText, String.append_assoc]
  | square =>
    unfold closeBlock at h
    split_ifs at h with hempty
    · obtain ⟨es, σ2, h1, h2⟩ := bind_eq_ok.mp h
      obtain ⟨done, last, nodes, hrows, hlast, hss, hdone⟩ := rows_buildList his .nil hleft
      -- without statements the block is one row
      have hnodes : nodes = [] := by
        rw [isEmpty_iff.mp hempty] at hss
        simpa using hss.symm
      subst hnodes
      cases hdone
      have hflat : last = is := by
        have := flatten_rows stop [] is
        rwa [hrows, nil_append, flatten_singleton] at this
      subst hflat
      exact renders_array hlast h1 h2
    · cases h

lemma renders_opening (k k' : Bracket) : Renders k'.openingText k.openingText (k = k') := by
  constructor
  · cases k <;> cases k' <;> decide
  · cases k <;> cases k' <;> decide

mutual

theorem written_build {around : List Bracket} (stop : Stop) :
    ∀ i : Item, i.Open around → (∀ t ∈ i.flat, t.IsToken) →
      ∀ σ t σ', i.build stop σ = .ok t σ' → Written stop i t
  | .token u, _, htokens => by
    intro σ t σ' h
    rw [build] at h
    cases h
    obtain ⟨id, a, rfl, ha⟩ := htokens u (by simp)
    exact ⟨by simpa [text, isFaithful] using Renders.refl a.text, ⟨rfl, id, a, rfl, ha⟩, rfl⟩
  | .group o c content, hopen, htokens => by
    intro σ t σ' h
    obtain ⟨k, ho, ⟨k', hc, -⟩, hcontent⟩ := hopen
    have his := written_buildAll (stop.inside k) content hcontent
      (fun t ht => htokens t (by simp [ht]))
    rw [build, ho, hc] at h
    obtain ⟨left, σ1, h1, h2⟩ := bind_eq_ok.mp h
    obtain ⟨inner, htext, hinner⟩ := renders_closeBlock his h1 h2
    refine ⟨?_, (closeBlock_whole h2).1, (closeBlock_whole h2).2⟩
    have hsource : (group o c content).text =
        k.openingText ++ textList content ++ k'.closingText := by
      obtain ⟨i, rfl⟩ := eq_atom_of_opens? ho
      obtain ⟨j, rfl⟩ := eq_atom_of_closes? hc
      simp [text, textList, Atom.text, String.append_assoc]
    rw [htext, hsource]
    refine (((renders_opening k k').append hinner).append (Renders.refl _)).congr ?_
    rw [isFaithful, ho, hc]
    simp only [isFaithfulList_iff, Bool.and_eq_true, beq_iff_eq, all_eq_true, Bool.not_eq_true']
    exact ⟨fun ⟨⟨hk, hf, hl⟩, _⟩ => ⟨⟨hk, hl⟩, hf⟩, fun ⟨⟨hk, hl⟩, hf⟩ => ⟨⟨hk, hf, hl⟩, trivial⟩⟩

theorem written_buildAll {around : List Bracket} (stop : Stop) :
    ∀ is : List Item, OpenList around is → (∀ t ∈ flatList is, t.IsToken) →
      ∀ i ∈ is, ∀ σ t σ', i.build stop σ = .ok t σ' → Written stop i t
  | [], _, _ => by simp
  | i :: is, hopen, htokens => by
    rw [OpenList] at hopen
    exact forall_mem_cons.mpr
      ⟨written_build stop i hopen.1 (fun t ht => htokens t (by simp [ht])),
        written_buildAll stop is hopen.2 (fun t ht => htokens t (by simp [ht]))⟩

end

end Item

namespace Script

lemma toList_textList_leaves (firstId : NodeId) (tokens : List Atom) :
    (Tree.textList (leaves firstId tokens)).toList = Atom.chars tokens := by
  induction tokens generalizing firstId with
  | nil => simp [leaves, Atom.chars]
  | cons a as ih => simp [leaves, ih, Atom.chars]

lemma isToken_of_mem_leaves {tokens : List Atom} {firstId : NodeId} {t : Tree}
    (h : ∀ a ∈ tokens, a.text ≠ "" ∧ a.kind ≠ .fileEnd) (ht : t ∈ leaves firstId tokens) :
    t.IsToken := by
  obtain ⟨id, a, ha, rfl⟩ := exists_of_mem_leaves ht
  exact ⟨id, a, rfl, h a ha⟩

/-- Whether nothing of a script with the given outline is lost. -/
def isFaithful (content : List Item) : Bool :=
  Item.isFaithfulList .both content && (Item.rows .both [] content).all (!Item.loses ·)

/-- The text of the tree of a script is the script itself exactly if, in the outline of its tokens,
brackets of one kind face each other and no row ends with layout behind an operator that has no right
operand. -/
theorem text_eq_iff_isFaithful {text : String} {firstId : NodeId} {script : Script}
    {tokens : List Atom} (hlex : Atom.lex text = .ok tokens)
    (hnumber : ∀ a ∈ tokens, a.isNumber = false) (hplain : ∀ a ∈ tokens, a.isReplacing = false)
    (hread : read text firstId = .ok script) :
    script.tree.text = text ↔
      ∃ content, outline (leaves firstId tokens) = some content ∧ isFaithful content = true := by
  obtain ⟨content, hcontent⟩ := exists_outlined hlex hplain hread
  have houtline : outline (leaves firstId tokens) = some content := by
    rw [← hcontent.tokens]
    exact outline_flatList hcontent.fits
  have htokens : ∀ t ∈ Item.flatList content, t.IsToken := by
    rw [hcontent.tokens]
    intro t ht
    refine isToken_of_mem_leaves (fun a ha => ⟨?_, ?_⟩) ht
    · exact Atom.text_ne_empty_of_lex hlex a ha
    · exact Atom.kind_ne_fileEnd_of_lex hlex a ha
  have hsource : Item.textList content = text := by
    rw [← String.toList_inj, Item.textList, hcontent.tokens, toList_textList_leaves]
    exact Atom.chars_lex hlex hnumber
  obtain ⟨σ, left, σ₁, statements, σ₂, σ', hbuilt, hclose, hnode⟩ := hcontent.built
  have hrenders := Item.renders_closeRow
    (Item.written_buildAll .both content hcontent.fits htokens) hbuilt hclose
  have htree : script.tree.text = Tree.textList statements := by
    generalize script.tree = tree at hnode
    cases hnode
    simp
  rw [htree, ← hsource, hrenders.eq_iff, houtline]
  simp [isFaithful, Item.isFaithfulList_iff]

theorem text_eq_iff_isFaithful_array :
    ∃ script tokens, Atom.lex "[(\"a\"),\x7b\x7d]" = .ok tokens ∧
      (∀ a ∈ tokens, a.isNumber = false) ∧ (∀ a ∈ tokens, a.isReplacing = false) ∧
      read "[(\"a\"),\x7b\x7d]" 0 = .ok script ∧
      (script.tree.text = "[(\"a\"),\x7b\x7d]" ↔
        ∃ content, outline (leaves 0 tokens) = some content ∧ isFaithful content = true) := by
  obtain ⟨script, hread, -⟩ := exists_eq_ok_of_any
    (x := read "[(\"a\"),\x7b\x7d]" 0) (p := fun _ => true) (by decide +kernel)
  obtain ⟨tokens, hlex, htokens⟩ := exists_eq_ok_of_any (x := Atom.lex "[(\"a\"),\x7b\x7d]")
    (p := fun tokens => tokens.all (!·.isNumber) && tokens.all (!·.isReplacing)) (by decide +kernel)
  obtain ⟨hnumber, hplain⟩ : (∀ a ∈ tokens, a.isNumber = false) ∧
      ∀ a ∈ tokens, a.isReplacing = false := by
    simpa using htokens
  exact ⟨script, tokens, hlex, hnumber, hplain, hread,
    text_eq_iff_isFaithful hlex hnumber hplain hread⟩

/-- A parenthesis that is closed by the bracket of the array around it is written as an array. -/
theorem text_crossed_parenthesis :
    ∃ script tokens, Atom.lex "[(\"a\"]]" = .ok tokens ∧ (∀ a ∈ tokens, a.isNumber = false) ∧
      read "[(\"a\"]]" 0 = .ok script ∧ script.tree.text = "[[\"a\"]]" ∧
      script.tree.text ≠ "[(\"a\"]]" := by
  obtain ⟨script, hread, htext⟩ := exists_eq_ok_of_any
    (x := read "[(\"a\"]]" 0) (p := (·.tree.text == "[[\"a\"]]")) (by decide +kernel)
  obtain ⟨tokens, hlex, htokens⟩ := exists_eq_ok_of_any
    (x := Atom.lex "[(\"a\"]]") (p := fun tokens => tokens.all (!·.isNumber)) (by decide +kernel)
  have htext : script.tree.text = "[[\"a\"]]" := by simpa using htext
  exact ⟨script, tokens, hlex, by simpa using htokens, hread, htext, by rw [htext]; decide⟩

end Script

end ArmaScript
