import ArmaScript.Proofs.Composition
import ArmaScript.Proofs.FormulaTree
import ArmaScript.Proofs.Trimming

/-!
# Trees that differ in the size of their gaps

Rows that only differ in the size of their gaps are built into trees that do, and when the trees are
trimmed no difference is left. A node in brackets is arranged by its text, which does differ. But what
counts is only the bracket it starts with, and whether its letters are all in upper case.
-/

namespace ArmaScript

open Tree Text Precedence List

/-! ### Letters and brackets -/

namespace Text

def letters (s : String) : List Char :=
  s.toList.filter isCased

@[simp] lemma letters_append (s t : String) : letters (s ++ t) = letters s ++ letters t := by
  simp [letters]

/-- Whether a text is in upper case can be seen at its letters. -/
lemma isUpper_eq (s : String) : isUpper s = ((letters s).any isUpperChar &&
    (letters s).all fun c => !isLowerChar c && !isTitleChar c) := by
  rw [isUpper, letters, any_filter, all_filter]
  congr 2
  · funext c
    cases h : isUpperChar c <;> simp [isCased, h]
  · funext c
    cases h : isLowerChar c <;> cases h' : isTitleChar c <;> simp [isCased, h, h']

/-- A bracket at the front stays where it is in lower case. -/
lemma head?_lower {s : String} {c : Char} (hc : c = '(' ∨ c = '[') (hs : s.toList.head? = some c) :
    (lower s).toList.head? = some c := by
  cases hlist : s.toList with
  | nil =>
    rw [hlist] at hs
    cases hs
  | cons d ds =>
    rw [hlist] at hs
    cases hs
    rw [lower, String.toList_ofList, hlist, lowerAfter]
    obtain rfl | rfl := hc <;> rfl

end Text

namespace Vocabulary

/-- A byte that is no opening parenthesis and no opening square bracket. -/
def isUnbracketed (b : UInt8) : Bool :=
  b.toNat != 40 && b.toNat != 91

lemma keywords_unbracketed :
    ((Catalogue.unaries ++ (Catalogue.operators ++ Catalogue.binaries)).all fun s =>
      (bytes s.keyword).head?.all isUnbracketed) = true := by
  decide +kernel

variable {word : String} {c : Char}

lemma word_ne_of_bracket {s : Signature}
    (hs : s ∈ Catalogue.unaries ++ (Catalogue.operators ++ Catalogue.binaries))
    (hc : c = '(' ∨ c = '[') (hword : word.toList.head? = some c) : s.word ≠ word := by
  rintro rfl
  have hall : s ∈ Catalogue.all := by
    simp only [Catalogue.all, mem_append] at hs ⊢
    tauto
  have hbracket := all_eq_true.mp keywords_unbracketed s hs
  rw [Entry.word_eq_keyword hall] at hword
  cases hlist : s.keyword.toList with
  | nil =>
    rw [hlist] at hword
    cases hword
  | cons d ds =>
    rw [hlist] at hword
    cases hword
    have hsmall : c.toNat < 128 := by obtain rfl | rfl := hc <;> decide
    obtain ⟨rest, hbytes⟩ := bytes_cons hlist hsmall
    rw [hbytes] at hbracket
    obtain rfl | rfl := hc <;> cases hbracket

lemma isUnary_of_bracket (hc : c = '(' ∨ c = '[') (hword : word.toList.head? = some c) :
    isUnary word = false := by
  rw [isUnary_eq, Bool.eq_false_iff]
  intro hmem
  obtain ⟨s, hs, heq⟩ := mem_map.mp (contains_iff_mem.mp hmem)
  exact word_ne_of_bracket (mem_append_left _ hs) hc hword heq

lemma isBinary_of_bracket (hc : c = '(' ∨ c = '[') (hword : word.toList.head? = some c) :
    isBinary word = false := by
  rw [isBinary, binaryWords, Std.HashSet.contains_ofList, Bool.eq_false_iff]
  intro hmem
  obtain ⟨s, hs, heq⟩ := mem_map.mp (contains_iff_mem.mp hmem)
  exact word_ne_of_bracket (mem_append_right _ hs) hc hword heq

lemma contains_of_bracket {words : List String} {word : String} {c : Char}
    (hc : c = '(' ∨ c = '[') (hword : word.toList.head? = some c)
    (hwords : ∀ w ∈ words, w.toList.head? ≠ some '(' ∧ w.toList.head? ≠ some '[') :
    words.contains word = false := by
  rw [Bool.eq_false_iff]
  intro hmem
  have hne := hwords word (contains_iff_mem.mp hmem)
  rw [hword] at hne
  obtain rfl | rfl := hc
  · exact hne.1 rfl
  · exact hne.2 rfl

lemma power_of_bracket (hc : c = '(' ∨ c = '[') (hword : word.toList.head? = some c) :
    power word = 1 := by
  have hne (w : String) (hw : w.toList.head? ≠ some '(' ∧ w.toList.head? ≠ some '[') :
      (word == w) = false := by
    have := contains_of_bracket hc hword (forall_mem_singleton.mpr hw)
    simpa using this
  unfold power
  rw [hne "=" (by decide), hne "private" (by decide), hne "else" (by decide),
    contains_of_bracket hc hword (by decide), contains_of_bracket hc hword (by decide),
    contains_of_bracket hc hword (by decide), contains_of_bracket hc hword (by decide),
    contains_of_bracket hc hword (by decide), isBinary_of_bracket hc hword,
    isUnary_of_bracket hc hword]
  rfl

end Vocabulary

/-! ### Trees -/

/-- Spaces, tabs and ends of lines. -/
def Atom.isBlank : Atom → Bool
  | .space => true
  | .tab => true
  | .lineEnd text => text == "\n" || text == "\r\n"
  | _ => false

lemma Atom.of_isBlank {a : Atom} (h : a.isBlank = true) :
    a.isLayout = true ∧ letters a.text = [] := by
  cases a with
  | space | tab => exact ⟨rfl, by decide⟩
  | lineEnd text =>
    simp only [isBlank, Bool.or_eq_true, beq_iff_eq] at h
    obtain rfl | rfl := h <;> exact ⟨rfl, by decide⟩
  | _ => cases h

namespace Tree

def IsBlank (t : Tree) : Prop :=
  ∃ id a, t = .atom id a ∧ a.isBlank = true

/-- A node that holds nothing but blanks. -/
def Hollow (t : Tree) : Prop :=
  t.isBase = false ∧ letters t.text = []

/-- Nodes that are alike when they are trimmed, and have the same letters. -/
structure Respaced (R : NodeId → NodeId → Prop) (t u : Tree) : Prop where
  alike : Alike R t.trim u.trim
  letters : letters t.text = letters u.text

/-- Nodes of a row that are alike when they are trimmed and are arranged in the same way. -/
structure RowNode (R : NodeId → NodeId → Prop) (t u : Tree) : Prop extends Respaced R t u where
  begins : t.text = u.text ∨ ∃ c, (c = '(' ∨ c = '[') ∧ t.text.toList.head? = some c ∧
    u.text.toList.head? = some c
  ending : t.ending? = none

variable {R S : NodeId → NodeId → Prop} {t u : Tree} {cs ds : List Tree}

lemma IsBlank.hollow (h : IsBlank t) : Hollow t := by
  obtain ⟨id, a, rfl, ha⟩ := h
  obtain ⟨hlayout, hletters⟩ := Atom.of_isBlank ha
  refine ⟨?_, ?_⟩
  · rw [isBase, hlayout]
    rfl
  · rw [text_atom, hletters]

lemma IsBlank.isLayout (h : IsBlank t) : Build.items.isLayout t = true := by
  obtain ⟨id, a, rfl, ha⟩ := h
  exact (Atom.of_isBlank ha).1

lemma Respaced.mono (hRS : ∀ i j, R i j → S i j) (h : Respaced R t u) : Respaced S t u :=
  ⟨h.alike.mono hRS, h.letters⟩

lemma RowNode.mono (hRS : ∀ i j, R i j → S i j) (h : RowNode R t u) : RowNode S t u :=
  ⟨h.toRespaced.mono hRS, h.begins, h.ending⟩

lemma Respaced.isBase (h : Respaced R t u) : t.isBase = u.isBase := by
  rw [← isBase_trim t, ← isBase_trim u, h.alike.isBase]

lemma Respaced.kind (h : Respaced R t u) : t.kind = u.kind := by
  rw [← kind_trim t, ← kind_trim u, h.alike.kind]

def isStatement : Tree → Bool
  | .statement .. => true
  | _ => false

lemma isStatement_trim (t : Tree) : t.trim.isStatement = t.isStatement := by
  cases t <;> simp [trim, isStatement]

lemma Respaced.isStatement (h : Respaced R t u) : t.isStatement = u.isStatement := by
  have hsame {t u : Tree} (halike : Alike R t u) : t.isStatement = u.isStatement := by
    cases halike <;> rfl
  rw [← isStatement_trim t, ← isStatement_trim u, hsame h.alike]

lemma Respaced.of_alike (h : Alike R t u) : Respaced R t u :=
  ⟨h.trim, by rw [h.text]⟩

lemma RowNode.of_alike (h : Alike R t u) (hending : t.ending? = none) : RowNode R t u :=
  ⟨.of_alike h, .inl h.text, hending⟩

lemma RowNode.sameLook (h : RowNode R t u) : SameLook Build.items t u := by
  have hlayout : Build.items.isLayout t = Build.items.isLayout u := congrArg Kind.isLayout h.kind
  obtain htext | ⟨c, hc, ht, hu⟩ := h.begins
  · have htext : Build.items.text t = Build.items.text u := htext
    exact ⟨hlayout, by rw [htext], by rw [htext], by rw [htext], by rw [htext], by rw [htext]⟩
  · have htext : (Build.items.text t).toList.head? = some c := ht
    have htext' : (Build.items.text u).toList.head? = some c := hu
    -- the texts may differ, but no operator and no directive starts with a bracket
    have hlower := head?_lower hc htext
    have hlower' := head?_lower hc htext'
    have hdirectives {s : String} (hs : s.toList.head? = some c) :
        Vocabulary.unaryDirectives.contains s = false :=
      Vocabulary.contains_of_bracket hc hs (by decide)
    have hdefine {s : String} (hs : s.toList.head? = some c) : (s == "#define") = false := by
      have := @Vocabulary.contains_of_bracket ["#define"] s c hc hs (by decide)
      simpa using this
    refine ⟨hlayout, ?_, ?_, ?_, ?_, ?_⟩
    · rw [Vocabulary.power_of_bracket hc hlower, Vocabulary.power_of_bracket hc hlower']
    · rw [Vocabulary.isUnary_of_bracket hc hlower, Vocabulary.isUnary_of_bracket hc hlower',
        hdirectives htext, hdirectives htext']
    · rw [hdefine htext, hdefine htext']
    · have hletters : letters (Build.items.text t) = letters (Build.items.text u) :=
        h.letters
      rw [isUpper_eq, isUpper_eq, hletters]
    · rw [htext, htext']

lemma trimBase_append (cs ds : List Tree) : trimBase (cs ++ ds) = trimBase cs ++ trimBase ds := by
  simp

lemma trimBase_of_hollow (h : ∀ c ∈ cs, Hollow c) : trimBase cs = [] := by
  rw [trimBase_eq, map_eq_nil_iff, filter_eq_nil_iff]
  intro c hc
  simp [(h c hc).1]

lemma letters_of_hollow (h : ∀ c ∈ cs, Hollow c) : letters (textList cs) = [] := by
  induction cs with
  | nil => decide
  | cons c cs ih =>
    obtain ⟨hc, hcs⟩ := forall_mem_cons.mp h
    rw [textList_cons, letters_append, hc.2, ih hcs]
    rfl

/-- The children of corresponding statements are alike when they are trimmed. -/
lemma alike_trimBase (h : Spaced Hollow (Respaced R) cs ds) :
    AlikeList R (trimBase cs) (trimBase ds) := by
  induction h with
  | nil =>
    rw [trimBase]
    exact .nil
  | cons h _ ih =>
    rw [trimBase, trimBase, h.isBase]
    split
    · exact .cons h.alike ih
    · exact ih
  | gap hcs hds _ ih =>
    rw [trimBase_append, trimBase_append, trimBase_of_hollow hcs.2, trimBase_of_hollow hds.2]
    exact ih

lemma letters_textList (h : Spaced Hollow (Respaced R) cs ds) :
    letters (textList cs) = letters (textList ds) := by
  induction h with
  | nil => rfl
  | cons h _ ih =>
    rw [textList_cons, textList_cons, letters_append, letters_append, h.letters, ih]
  | gap hcs hds _ ih =>
    rw [textList_append, textList_append, letters_append, letters_append,
      letters_of_hollow hcs.2, letters_of_hollow hds.2, ih]

variable {i j : NodeId}

lemma Respaced.statement {b : Bool} {e : Option Ending} (hij : R i j)
    (h : Spaced Hollow (Respaced R) cs ds) :
    Respaced R (.statement i b e cs) (.statement j b e ds) := by
  refine ⟨?_, ?_⟩
  · rw [trim_statement, trim_statement]
    exact .statement hij (rel_append (alike_remains hij h.isEmpty) (alike_trimBase h))
  · rw [text_statement, text_statement, letters_textList h]

lemma Respaced.array (hij : R i j) (h : List.Forall₂ (Respaced R) cs ds) :
    Respaced R (.array i cs) (.array j ds) := by
  refine ⟨?_, ?_⟩
  · rw [trim_array, trim_array]
    refine .array hij (rel_append (alike_remains hij h.isEmpty) ?_)
    clear hij
    induction h with
    | nil =>
      rw [trimElements]
      exact .nil
    | cons h _ ih =>
      rw [trimElements, trimElements, h.kind]
      split
      · exact .cons h.alike ih
      · exact ih
  · rw [text_array, text_array, letters_textList (.of_forall₂ h)]

end Tree

/-! ### Building -/

namespace Build

variable {lax : Prop} {κ : Link} {ts us : List Tree}

/-- Rows of nodes with gaps in the same places. -/
abbrev SpacedRow (κ : Link) : List Tree → List Tree → Prop :=
  Spaced IsBlank (RowNode κ.ids)

/-- The nodes of statements that are built of such rows. -/
abbrev SpacedNodes (κ : Link) : List Tree → List Tree → Prop :=
  Spaced Hollow (Respaced κ.ids)

/-- A gap is built into a node that holds nothing but blanks. -/
lemma exists_ofExp_gap {e : Exp Tree} (he : e.IsGap IsBlank) (σ : BuildState) :
    ∃ t k, ofExp e σ = .ok t { σ with nextId := σ.nextId + k } ∧ t.Hollow := by
  obtain ⟨l, hl, rfl⟩ := he
  have hhollow : ∀ t ∈ l, t.Hollow := fun t ht => (hl.2 t ht).hollow
  by_cases hone : l.length = 1
  · obtain ⟨t, rfl⟩ := length_eq_one_iff.mp hone
    refine ⟨t, 0, ?_, hhollow t mem_cons_self⟩
    rw [ending, ofExp]
    rfl
  · refine ⟨.statement σ.nextId false none l, 1, ?_, ?_, ?_⟩
    · rw [ending_of_length_ne_one hone, ofExp, Formula.ofExpList_map_leaf]
      rfl
    · rw [isBase, Bool.false_or, anyBase_eq, any_eq_false]
      intro t ht
      simp [(hhollow t ht).1]
    · rw [text_statement, letters_of_hollow hhollow]

lemma exists_ofExpList_gaps {es : List (Exp Tree)} (hes : ∀ e ∈ es, e.IsGap IsBlank)
    (σ : BuildState) : ∃ ts k, ofExpList es σ = .ok ts { σ with nextId := σ.nextId + k } ∧
      ts.length = es.length ∧ ∀ t ∈ ts, t.Hollow := by
  induction es generalizing σ with
  | nil =>
    refine ⟨[], 0, ?_, rfl, nofun⟩
    rw [ofExpList]
    rfl
  | cons e es ih =>
    obtain ⟨he, hes⟩ := forall_mem_cons.mp hes
    obtain ⟨t, k, ht, hhollow⟩ := exists_ofExp_gap he σ
    obtain ⟨ts, k', hts, hlength, hhollows⟩ := ih hes { σ with nextId := σ.nextId + k }
    refine ⟨t :: ts, k + k', ?_, by simp [hlength], forall_mem_cons.mpr ⟨hhollow, hhollows⟩⟩
    rw [ofExpList]
    refine bind_eq ht (bind_eq hts ?_)
    rw [Nat.add_assoc]
    rfl

/-- Computations of reading that give identities without linking them. -/
lemma alike_of_unlinked {α : Type} {x y : Build α} {P : Link → α → α → Prop}
    (hx : ∀ σ, ∃ a k, x σ = .ok a { σ with nextId := σ.nextId + k } ∧
      ∀ τ, ∃ b k', y τ = .ok b { τ with nextId := τ.nextId + k' } ∧ P κ a b) :
    Alike lax κ x y P := by
  intro σ τ h
  obtain ⟨a, k, ha, hy⟩ := hx σ
  obtain ⟨b, k', hb, hab⟩ := hy τ
  rw [ha, hb]
  exact .ok κ.le_refl rfl ⟨h.fits.mono (Nat.le_add_right _ _) (Nat.le_add_right _ _), h.left,
    h.right⟩ hab

lemma alike_gaps {cs ds : List (Exp Tree)} (hcs : Gap (Exp.IsGap IsBlank) cs)
    (hds : Gap (Exp.IsGap IsBlank) ds) : Alike lax κ (ofExpList cs) (ofExpList ds)
      fun _ ts us => Gap Hollow ts ∧ Gap Hollow us := by
  have hgap {es : List (Exp Tree)} (hes : Gap (Exp.IsGap IsBlank) es) (σ : BuildState) :
      ∃ ts k, ofExpList es σ = .ok ts { σ with nextId := σ.nextId + k } ∧ Gap Hollow ts := by
    obtain ⟨ts, k, hts, hlength, hhollow⟩ := exists_ofExpList_gaps hes.2 σ
    refine ⟨ts, k, hts, ?_, hhollow⟩
    rw [← length_pos_iff, hlength]
    exact length_pos_iff.mpr hes.1
  refine alike_of_unlinked fun σ => ?_
  obtain ⟨ts, k, hts, hgap1⟩ := hgap hcs σ
  refine ⟨ts, k, hts, fun τ => ?_⟩
  obtain ⟨us, k', hus, hgap2⟩ := hgap hds τ
  exact ⟨us, k', hus, hgap1, hgap2⟩

/-- What becomes of corresponding arranged rows: nodes that correspond, or nodes that hold nothing but
blanks. -/
def Arranged (κ : Link) (t u : Tree) : Prop :=
  (Respaced κ.ids t u ∧ t.ending? = none) ∨ (t.Hollow ∧ u.Hollow)

mutual

theorem alike_ofExp_spaced : ∀ {κ' : Link} (_ : κ ≤ κ') {e f : Exp Tree},
    Exp.Spaced IsBlank (RowNode κ.ids) e f →
      Alike lax κ' (ofExp e) (ofExp f) Arranged
  | _, hκ, _, _, .leaf h => by
    rw [ofExp, ofExp]
    exact .pure (.inl ⟨h.toRespaced.mono hκ.1, h.ending⟩)
  | κ', hκ, _, _, .blank he hf => by
    refine alike_of_unlinked fun σ => ?_
    obtain ⟨t, k, ht, hhollow⟩ := exists_ofExp_gap he σ
    refine ⟨t, k, ht, fun τ => ?_⟩
    obtain ⟨u, k', hu, hhollow'⟩ := exists_ofExp_gap hf τ
    exact ⟨u, k', hu, .inr ⟨hhollow, hhollow'⟩⟩
  | _, hκ, _, _, .group h => by
    rw [ofExp, ofExp]
    refine (alike_ofExpList_spaced hκ h).bind fun κ1 h1 ts us hts => ?_
    refine alike_fresh.bind fun κ2 h2 i j hij => .pure (.inl ⟨?_, rfl⟩)
    exact .statement hij (hts.imp fun _ _ h => h.mono h2.1)

theorem alike_ofExpList_spaced : ∀ {κ' : Link} (_ : κ ≤ κ') {es fs : List (Exp Tree)},
    Spaced (Exp.IsGap IsBlank) (Exp.Spaced IsBlank (RowNode κ.ids)) es fs →
      Alike lax κ' (ofExpList es) (ofExpList fs) SpacedNodes
  | _, _, _, _, .nil => by
    rw [ofExpList]
    exact .pure .nil
  | _, hκ, _, _, .cons h hs => by
    rw [ofExpList, ofExpList]
    refine (alike_ofExp_spaced hκ h).bind fun κ1 h1 t u htu => ?_
    refine (alike_ofExpList_spaced (Link.le_trans hκ h1) hs).bind fun κ2 h2 ts us hts => .pure ?_
    obtain ⟨htu, -⟩ | ⟨ht, hu⟩ := htu
    · exact .cons (htu.mono h2.1) hts
    · exact .gap (gap_singleton ht) (gap_singleton hu) hts
  | κ', hκ, _, _, .gap hcs hds hs => by
    -- the nodes of a gap have new identities, which are linked to none
    rw [Formula.ofExpList_append, Formula.ofExpList_append]
    refine (alike_gaps hcs hds).bind fun κ1 h1 ts us hgap => ?_
    refine (alike_ofExpList_spaced (Link.le_trans hκ h1) hs).bind fun κ2 h2 ts' us' hts => .pure ?_
    exact .gap hgap.1 hgap.2 hts

end

/-- The statement of an arranged row, before it gets its ending. -/
def rooted (e : Exp Tree) : Build Tree := do
  let t ← ofExp e
  match t with
  | .statement .. => return t
  | t => statement [t]

lemma arrange_eq_rooted (row : List Tree) : arrange row = (do
    let e ← lift (Precedence.arrange items (bodyOf row))
    let t ← rooted e
    setEnding t (endingOf? row)) := by
  unfold arrange rooted
  simp only [bind_assoc]
  refine bind_congr fun e => bind_congr fun t => ?_
  cases t <;> rfl

/-- Statements without an ending that correspond. -/
inductive Unended (κ : Link) : Tree → Tree → Prop
  | mk {i j : NodeId} {b : Bool} {cs ds : List Tree} (hij : κ.ids i j)
      (hbase : AlikeList κ.ids (trimBase cs) (trimBase ds))
      (hempty : cs.isEmpty = ds.isEmpty)
      (hletters : letters (textList cs) = letters (textList ds)) :
      Unended κ (.statement i b none cs) (.statement j b none ds)

lemma unended_of_spaced {i j : NodeId} (hij : κ.ids i j) (h : SpacedNodes κ ts us) :
    Unended κ (.statement i false none ts) (.statement j false none us) :=
  .mk hij (alike_trimBase h) h.isEmpty (letters_textList h)

lemma alike_statement_spaced (h : SpacedNodes κ ts us) :
    Alike lax κ (statement ts) (statement us) Unended :=
  alike_fresh.bind fun _ hκ _ _ hij => .pure (unended_of_spaced hij (h.imp fun _ _ h => h.mono hκ.1))

variable {u t o o' : Tree} {ss ss' : List Tree}

lemma unended_of_respaced {i : NodeId} {b : Bool} {cs : List Tree}
    (h : Respaced κ.ids (.statement i b none cs) u) : Unended κ (.statement i b none cs) u := by
  have hstatement := h.isStatement
  obtain ⟨halike, hletters⟩ := h
  have hbase := halike.base
  have hempty := halike.children.isEmpty
  rw [isEmpty_children_trim, isEmpty_children_trim] at hempty
  rw [base_trim] at hbase
  rw [trim_statement] at halike
  cases u with
  | statement j b' e ds =>
    rw [trim_statement] at halike
    rw [base_trim] at hbase
    rw [text_statement, text_statement] at hletters
    cases halike with
    | statement hij _ =>
      refine .mk hij ?_ hempty hletters
      rw [trimBase_eq, trimBase_eq]
      exact hbase
  | _ => cases hstatement

lemma rooted_gap {l : List Tree} (hl : Gap IsBlank l) : rooted (ending l) = statement l := by
  by_cases hone : l.length = 1
  · obtain ⟨t, rfl⟩ := length_eq_one_iff.mp hone
    obtain ⟨id, a, rfl, -⟩ := hl.2 t mem_cons_self
    rw [ending, rooted, ofExp]
    rfl
  · rw [ending_of_length_ne_one hone, rooted, ofExp, Formula.ofExpList_map_leaf]
    rfl

lemma rooted_group (es : List (Exp Tree)) : rooted (.group es) = ofExpList es >>= statement := by
  rw [rooted, ofExp]
  simp only [statement, bind_assoc, pure_bind]
  rfl

/-- A single node becomes a statement of its own, unless it is one. -/
lemma alike_rooted_leaf (h : RowNode κ.ids t u) :
    Alike lax κ (rooted (.leaf t)) (rooted (.leaf u)) Unended := by
  have hstatement := h.isStatement
  have hother : Alike lax κ (statement [t]) (statement [u]) Unended :=
    alike_statement_spaced (.cons h.toRespaced .nil)
  unfold rooted
  rw [ofExp, ofExp]
  cases t with
  | statement i b e cs =>
    have hending : e = none := h.ending
    subst hending
    have hunended := unended_of_respaced h.toRespaced
    cases hunended with
    | mk hij hbase hempty hletters => exact .pure (.mk hij hbase hempty hletters)
  | _ =>
    cases u with
    | statement => cases hstatement
    | _ => exact hother

/-- Corresponding arranged rows become corresponding statements. -/
lemma alike_rooted {e f : Exp Tree} (h : Exp.Spaced IsBlank (RowNode κ.ids) e f) :
    Alike lax κ (rooted e) (rooted f) Unended := by
  have hhollow {l : List Tree} (hl : Gap IsBlank l) : Gap Hollow l :=
    ⟨hl.1, fun t ht => (hl.2 t ht).hollow⟩
  cases h with
  | leaf h => exact alike_rooted_leaf h
  | blank he hf =>
    obtain ⟨l, hl, rfl⟩ := he
    obtain ⟨m, hm, rfl⟩ := hf
    rw [rooted_gap hl, rooted_gap hm]
    exact alike_statement_spaced (.of_gap (hhollow hl) (hhollow hm))
  | group h =>
    rw [rooted_group, rooted_group]
    exact (alike_ofExpList_spaced κ.le_refl h).bind fun _ _ _ _ h => alike_statement_spaced h

/-- Corresponding statements get the same ending. -/
lemma alike_setEnding_unended (h : Unended κ t u) (ending : Option Ending) :
    Alike lax κ (setEnding t ending) (setEnding u ending) fun κ' => Respaced κ'.ids := by
  cases h with
  | @mk i j b cs ds hij hbase hempty hletters =>
    cases ending with
    | none =>
      refine .pure ⟨?_, ?_⟩
      · rw [trim_statement, trim_statement]
        exact .statement hij (rel_append (alike_remains hij hempty) hbase)
      · rw [text_statement, text_statement]
        exact hletters
    | some e =>
      refine (alike_mark _).bind fun κ1 h1 m m' hm => .pure ⟨?_, ?_⟩
      · have hij := h1.1 _ _ hij
        rw [trim_statement, trim_statement, trimBase_append, trimBase_append]
        refine .statement hij (rel_append (alike_remains hij ?_)
          (rel_append (hbase.mono h1.1) (AlikeList.trimBase (.cons hm .nil))))
        cases cs <;> cases ds <;> rfl
      · have htext := AlikeList.textList (List.Forall₂.cons hm .nil)
        rw [text_statement, text_statement, textList_append, textList_append,
          letters_append, letters_append, htext]
        exact congrArg (· ++ _) hletters

lemma endingOf?_trim (t : Tree) : endingOf? [t.trim] = endingOf? [t] := by
  cases t <;> simp [trim, endingOf?]

lemma endingOf?_append (ts : List Tree) (t : Tree) : endingOf? (ts ++ [t]) = endingOf? [t] := by
  rw [endingOf?_concat, ← nil_append [t], endingOf?_concat]

lemma endingOf?_blank (h : t.IsBlank) : endingOf? [t] = none := by
  obtain ⟨id, a, rfl, ha⟩ := h
  cases a with
  | mark => cases ha
  | _ => rfl

/-- Rows with gaps in the same places have the same ending, and so have what is before it. -/
lemma spacedRow_bodyOf (h : SpacedRow κ ts us) :
    endingOf? ts = endingOf? us ∧ SpacedRow κ (bodyOf ts) (bodyOf us) := by
  obtain ⟨rfl, rfl⟩ | ⟨ts', us', t, u, rfl, rfl, ⟨htu, hs⟩ | ⟨ht, hu⟩⟩ := h.last
  · exact ⟨rfl, .nil⟩
  · have hending : endingOf? [t] = endingOf? [u] := by
      rw [← endingOf?_trim t, ← endingOf?_trim u]
      exact endingOf?_eq (.cons htu.alike .nil)
    unfold bodyOf
    rw [endingOf?_append, endingOf?_append, hending]
    refine ⟨rfl, ?_⟩
    split
    · rw [dropLast_concat, dropLast_concat]
      exact hs
    · exact h
  · unfold bodyOf
    rw [endingOf?_append, endingOf?_append, endingOf?_blank ht, endingOf?_blank hu]
    exact ⟨rfl, h⟩

/-- Rows with gaps in the same places become statements that correspond. -/
lemma alike_arrange_spaced (h : SpacedRow κ ts us) :
    Alike lax κ (arrange ts) (arrange us) fun κ' => Respaced κ'.ids := by
  obtain ⟨hending, hbody⟩ := spacedRow_bodyOf h
  rw [arrange_eq_rooted, arrange_eq_rooted, hending]
  refine (alike_lift (P := fun κ' => Exp.Spaced IsBlank (RowNode κ'.ids)) ?_).bind
    fun κ1 h1 e f hef => ?_
  · obtain ⟨e, f, he, hf, hef⟩ | ⟨fault, hts, hus⟩ := arrange_spaced
      (fun _ ht => ht.isLayout) (fun _ _ htu => htu.sameLook) hbody
    · exact .inl ⟨e, f, he, hf, hef⟩
    · exact .inr ⟨fault, fault, hts, hus⟩
  · exact (alike_rooted hef).bind fun κ2 h2 t u htu => alike_setEnding_unended htu _

/-! ### Blocks -/

abbrev RespacedList (κ : Link) : List Tree → List Tree → Prop :=
  List.Forall₂ (Respaced κ.ids)

lemma RespacedList.mono {κ' : Link} (hκ : κ ≤ κ') (h : RespacedList κ ts us) :
    RespacedList κ' ts us :=
  h.imp fun _ _ h => h.mono hκ.1

lemma SpacedRow.mono {κ' : Link} (hκ : κ ≤ κ') (h : SpacedRow κ ts us) : SpacedRow κ' ts us :=
  h.imp fun _ _ h => h.mono hκ.1

lemma alike_closeRow_spaced (h : SpacedRow κ ts us) (hss : RespacedList κ ss ss') :
    Alike lax κ (closeRow ts ss) (closeRow us ss') RespacedList := by
  refine .ite (by rw [h.isEmpty]) (.pure hss) ?_
  refine (alike_arrange_spaced h).bind fun κ1 h1 t u htu => .pure ?_
  exact rel_append (hss.mono h1) (.cons htu .nil)

lemma isMark_trim (t : Tree) (text : String) : t.trim.isMark text = t.isMark text := by
  cases t <;> simp [trim, isMark]

lemma isMark_blank (h : t.IsBlank) (text : String) : t.isMark text = false := by
  obtain ⟨id, a, rfl, ha⟩ := h
  cases a with
  | mark => cases ha
  | _ => rfl

lemma splitCommas_gap {gap part : List Tree} {parts : List (List Tree)}
    (hgap : ∀ t ∈ gap, t.IsBlank) (h : splitCommas ts = part :: parts) :
    splitCommas (gap ++ ts) = (gap ++ part) :: parts := by
  induction gap with
  | nil => exact h
  | cons t gap ih =>
    obtain ⟨ht, hgap⟩ := forall_mem_cons.mp hgap
    rw [cons_append, splitCommas, isMark_blank ht, ih hgap]
    rfl

lemma spacedRow_splitCommas (h : SpacedRow κ ts us) :
    List.Forall₂ (SpacedRow κ) (splitCommas ts) (splitCommas us) := by
  induction h with
  | nil => exact .cons .nil .nil
  | @cons t u ts us htu hs ih =>
    have hmark : t.isMark "," = u.isMark "," := by
      rw [← isMark_trim t, ← isMark_trim u, htu.alike.isMark]
    rw [splitCommas, splitCommas, hmark]
    generalize splitCommas ts = parts at ih
    generalize splitCommas us = parts' at ih
    cases ih with
    | nil =>
      cases u.isMark "," with
      | true => exact .cons .nil .nil
      | false => exact .cons (.cons htu .nil) .nil
    | cons hpart hparts =>
      cases u.isMark "," with
      | true => exact .cons .nil (.cons hpart hparts)
      | false => exact .cons (.cons htu hpart) hparts
  | @gap cs ds ts us hcs hds hs ih =>
    obtain ⟨part, parts, hparts⟩ := exists_cons_of_ne_nil (splitCommas_ne_nil ts)
    obtain ⟨part', parts', hparts'⟩ := exists_cons_of_ne_nil (splitCommas_ne_nil us)
    rw [hparts, hparts'] at ih
    rw [splitCommas_gap hcs.2 hparts, splitCommas_gap hds.2 hparts']
    cases ih with
    | cons hpart hrest => exact .cons (.gap hcs hds hpart) hrest

lemma alike_arrayElements_spaced (h : SpacedRow κ ts us) (place place' : Position) :
    Alike lax κ (arrayElements ts place) (arrayElements us place') RespacedList := by
  refine .ite (by rw [h.isEmpty]) (.pure .nil) ?_
  refine Alike.mapM (R := SpacedRow) SpacedRow.mono (fun hκ h => h.mono hκ.1)
    (fun κ' _ part part' hpart => ?_) (spacedRow_splitCommas h)
  exact .ite (by rw [hpart.isEmpty]) .throw (alike_arrange_spaced hpart)

lemma alike_withCommas_spaced (h : RespacedList κ ts us) :
    Alike lax κ (withCommas ts) (withCommas us) RespacedList :=
  alike_withCommas_of (R := fun κ => Respaced κ.ids) (fun hκ h => h.mono hκ.1) .of_alike h

lemma respaced_surround {c c' : Tree} (ho : Nodes κ o o') (hc : Nodes κ c c')
    (h : RespacedList κ ts us) : RespacedList κ (o :: ts ++ [c]) (o' :: us ++ [c']) :=
  .cons (.of_alike ho) (rel_append h (.cons (.of_alike hc) .nil))

lemma alike_opening (text : String) : Alike lax κ (mark text) (mark text)
    fun κ' t u => Nodes κ' t u ∧ t.text = text :=
  alike_fresh.bind fun _ _ _ _ hij => .pure ⟨.atom hij ⟨nofun, rfl⟩, text_atom ..⟩

lemma begins_of_opening {c : Char} (hc : c = '(' ∨ c = '[')
    (ho : Nodes κ o o' ∧ o.text = String.singleton c) (ts us : List Tree) :
    ∃ c, (c = '(' ∨ c = '[') ∧ (textList (o :: ts)).toList.head? = some c ∧
      (textList (o' :: us)).toList.head? = some c := by
  refine ⟨c, hc, ?_, ?_⟩
  · rw [textList_cons, ho.2]
    simp
  · rw [textList_cons, ← ho.1.text, ho.2]
    simp

lemma alike_array_spaced (h : RespacedList κ ts us) :
    Alike lax κ (array ts) (array us) fun κ' => RowNode κ'.ids := by
  refine .ite (by rw [h.isEmpty]) .bind_of_throw ((alike_opening _).bind fun κ1 h1 o o' ho => ?_)
  refine (alike_withCommas_spaced (h.mono h1)).bind fun κ2 h2 inner inner' hinner => ?_
  refine (alike_mark _).bind fun κ3 h3 c c' hc => alike_fresh.bind fun κ4 h4 i j hij => ?_
  have h₂4 := Link.le_trans h3 h4
  refine .pure ⟨.array hij (respaced_surround (ho.1.mono (Link.le_trans h2 h₂4).1) (hc.mono h4.1)
    (hinner.mono h₂4)), .inr ?_, rfl⟩
  rw [text_array, text_array]
  exact begins_of_opening (.inr rfl) ho _ _

lemma alike_bracketed_spaced (h : RespacedList κ ts us) :
    Alike lax κ (bracketed ts) (bracketed us) fun κ' => RowNode κ'.ids := by
  refine (alike_opening _).bind fun κ1 h1 o o' ho => (alike_mark _).bind fun κ2 h2 c c' hc => ?_
  refine alike_fresh.bind fun κ3 h3 i j hij => ?_
  have h₁3 := Link.le_trans h2 h3
  refine .pure ⟨.statement hij (.of_forall₂ (respaced_surround (ho.1.mono h₁3.1) (hc.mono h3.1)
    (h.mono (Link.le_trans h1 h₁3)))), .inr ?_, rfl⟩
  rw [text_statement, text_statement]
  exact begins_of_opening (.inl rfl) ho _ _

/-- What is built of a block that ends with a closing bracket, but not with a brace. -/
lemma alike_closeBlock_spaced (h : SpacedRow κ ts us) (hss : RespacedList κ ss ss') {k : Bracket}
    (hk : k ≠ .curly) :
    Alike lax κ (closeBlock ts ss k) (closeBlock us ss' k) fun κ' => RowNode κ'.ids := by
  cases k with
  | round =>
    exact (alike_closeRow_spaced h hss).bind fun _ _ _ _ h => alike_bracketed_spaced h
  | curly => exact absurd rfl hk
  | square =>
    refine .ite (by rw [hss.isEmpty]) ?_ .throw
    exact (alike_arrayElements_spaced h _ _).bind fun _ _ _ _ h => alike_array_spaced h

end Build

end ArmaScript
