import ArmaScript.Proofs.Coordinates
import ArmaScript.Proofs.Findings
import ArmaScript.Proofs.Gathering
import ArmaScript.Proofs.Pairing

/-!
# Conditionals without a name

A conditional whose line has no word cannot be resolved. The place that is reported is not that of its
directive: it is one line below the token before the directive, and for a directive with which the row
starts, one line below the last token of the row. It is the place of the directive only if the token
between has one newline and as many characters behind it as the line had before that token.

Places are counted in the row that is read. This is the script itself, or, where the script has more
than one conditional, a row that is read again with what one of them stands for.
-/

namespace ArmaScript

open Tree Atom Position List

def Atom.startsConditional (a : Atom) : Bool :=
  a.isDirective "#ifdef" || a.isDirective "#ifndef"

namespace Build

/-! ### Blocks -/

def starters (as : List Atom) : Nat :=
  as.countP Atom.startsConditional

/-- Tokens that are among others, or marks that the reader puts there. -/
def Within (as bs : List Atom) : Prop :=
  ∀ b ∈ bs, b ∈ as ∨ ∃ text, text ≠ "" ∧ b = .mark text

/-- A place that is reported for a directive: one line below the token before it, in the row itself or,
if more than one conditional is in it, in one that is read again. -/
def IsReportedPlace (row : Array Tree) (place : Position) : Prop :=
  ∃ (row' : Array Tree) (i : Nat) (t : Tree), IsOrdinaryRow row' ∧
    (row' = row ∨ 1 < starters (atomsList row.toList) ∧
      Within (atomsList row.toList) (atomsList row'.toList)) ∧
    row'[i]? = some t ∧ startsConditional t = true ∧
    place = (placeAfter row' ((i : Int) - 1)).below

/-- Faults that say of no conditional, or of one at such a place, that it has no name. -/
def IsPlaced (row : Array Tree) (fault : Fault) : Prop :=
  ∀ place, fault = .error place namelessMessage → IsReportedPlace row place

/-- A token that was read before the index `i`, or a mark. Once a conditional was read, tokens behind
it may have been read as well. -/
def Seen (row : Array Tree) (i : Nat) (a : Atom) : Prop :=
  (∃ text, text ≠ "" ∧ a = .mark text) ∨ a ∈ atomsList (row.toList.take i) ∨
    a ∈ atomsList row.toList ∧ ∃ t ∈ row.toList.take i, startsConditional t = true

/-- Tokens all of which were read before the index `j`. -/
def AreSeen (row : Array Tree) (_ j : Nat) (as : List Atom) : Prop :=
  ∀ a ∈ as, Seen row j a

/-- A reader that says of conditionals only at such places that they have no name. -/
def PlacingReader (read : Reader) : Prop :=
  ∀ ⦃row : Array Tree⦄ ⦃start : Nat⦄ ⦃levels : Levels⦄ (stop : Stop), IsOrdinaryRow row →
    start ≤ row.size → Enters row start levels →
    Safe (IsPlaced row) (read row start levels stop) fun p =>
      ∃ n : Nat, p.2 = n ∧ Gives (AreSeen row) start levels p.1 n

lemma IsOther.isPlaced {fault : Fault} (h : IsOther fault) (row : Array Tree) : IsPlaced row fault :=
  fun place heq => absurd heq (h place)

namespace Seen

variable {row : Array Tree} {i j : Nat} {a : Atom}

lemma mono (h : Seen row i a) (hij : i ≤ j) : Seen row j a := by
  have hsub : (row.toList.take i).Sublist (row.toList.take j) := take_sublist_take_left hij
  obtain hmark | hmem | ⟨hmem, t, ht, hcond⟩ := h
  · exact .inl hmark
  · exact .inr (.inl ((atomsList_sublist hsub).subset hmem))
  · exact .inr (.inr ⟨hmem, t, hsub.subset ht, hcond⟩)

lemma mark {text : String} (h : text ≠ "") : Seen row i (.mark text) :=
  .inl ⟨text, h, rfl⟩

lemma mem_take {t : Tree} (ht : row[i]? = some t) : t ∈ row.toList.take (i + 1) := by
  rw [take_add_one, Array.getElem?_toList, ht]
  simp

lemma token {id : NodeId} (h : row[i]? = some (.atom id a)) : Seen row (i + 1) a :=
  .inr (.inl (atoms_subset (mem_take h) (by simp)))

lemma within (h : Seen row i a) : a ∈ atomsList row.toList ∨ ∃ text, text ≠ "" ∧ a = .mark text := by
  obtain hmark | hmem | ⟨hmem, -⟩ := h
  · exact .inr hmark
  · exact .inl ((atomsList_sublist (take_sublist _ _)).subset hmem)
  · exact .inl hmem

end Seen

section

variable {row : Array Tree} {start i : Nat} {levels : Levels} {b : Block} {stop : Stop}
  {read : Reader}

lemma tracks_areSeen (row : Array Tree) : Tracks row (AreSeen row) where
  nil _ := by simp [AreSeen]
  append hjk h h' a ha := by
    obtain ha | ha := mem_append.mp ha
    · exact (h a ha).mono hjk
    · exact h' a ha
  widen _ hj h a ha := (h a ha).mono hj
  sublist hs h a ha := h a (hs.subset ha)
  perm hp h a ha := h a (hp.subset ha)
  token ht a ha := by
    rw [mem_singleton.mp ha]
    exact .token ht
  opening k _ _ a ha := by
    rw [mem_singleton.mp ha]
    exact .mark (by cases k <;> decide)
  closing _ k a ha := by
    rw [mem_singleton.mp ha]
    exact .mark (by cases k <;> decide)

lemma allows_isPlaced (row : Array Tree) : Allows (IsPlaced row) where
  unbalanced place message := (isOther_unbalanced place message).isPlaced row
  element place := by
    refine IsOther.isPlaced (fun place' h => ?_) row
    injection h with h
    injection h with _ _ hmessage
    exact absurd hmessage (by decide)
  statement place text := by
    refine IsOther.isPlaced (fun place' h => ?_) row
    injection h with h
    injection h with _ _ hmessage
    have hletter := congrArg (·.toList[0]?) hmessage
    simp [namelessMessage] at hletter

lemma IsReportedPlace.of_again {row' : Array Tree} {place : Position}
    (h : IsReportedPlace row' place) (hordinary : IsOrdinaryRow row')
    (hwithin : Within (atomsList row.toList) (atomsList row'.toList))
    (hstarters : 0 < starters (atomsList row'.toList) → 1 < starters (atomsList row.toList)) :
    IsReportedPlace row place := by
  obtain ⟨again, k, t, hagain, hwhere, ht, hcond, hplace⟩ := h
  refine ⟨again, k, t, hagain, .inr ?_, ht, hcond, hplace⟩
  obtain rfl | ⟨hmore, hwithin'⟩ := hwhere
  · refine ⟨hstarters (countP_pos_iff.mpr ?_), hwithin⟩
    have hmem := Array.mem_of_getElem? ht
    obtain ⟨id, a, rfl, -⟩ := hordinary t hmem
    exact ⟨a, atoms_subset (Array.mem_toList_iff.mpr hmem) (by simp), hcond⟩
  · refine ⟨hstarters (Nat.zero_lt_of_lt hmore), fun c hc => ?_⟩
    obtain hc | hmark := hwithin' c hc
    · exact hwithin c hc
    · exact .inr hmark

/-- A row of which tokens before and behind a directive are read again has more than one conditional if
these have one. -/
lemma one_lt_starters {id : NodeId} {a : Atom} (hrow : IsOrdinaryRow row)
    (ht : row[i]? = some (.atom id a)) (ha : a.startsConditional = true) {begun taken : List Atom}
    (hbegun : ∀ c ∈ begun, Seen row i c) (htaken : taken ⊆ atomsList (row.toList.drop (i + 1)))
    (hpos : 0 < starters (begun ++ taken)) : 1 < starters (atomsList row.toList) := by
  have hsum : starters (atomsList row.toList) =
      starters (atomsList (row.toList.take i)) +
        (starters (atomsList (row.toList.drop (i + 1))) + 1) := by
    conv_lhs => rw [toList_eq_of_getElem? ht]
    simp [starters, ha]
  obtain ⟨c, hc, hstarts⟩ := countP_pos_iff.mp hpos
  obtain hc | hc := mem_append.mp hc
  · have hbefore : 0 < starters (atomsList (row.toList.take i)) := by
      obtain ⟨text, -, rfl⟩ | hmem | ⟨-, u, hu, hcond⟩ := hbegun c hc
      · cases hstarts
      · exact countP_pos_iff.mpr ⟨c, hmem, hstarts⟩
      · obtain ⟨uid, e, rfl, -⟩ := hrow u (Array.mem_toList_iff.mp (mem_of_mem_take hu))
        exact countP_pos_iff.mpr ⟨e, atoms_subset hu (by simp), hcond⟩
    omega
  · have hbehind : 0 < starters (atomsList (row.toList.drop (i + 1))) :=
      countP_pos_iff.mpr ⟨c, htaken hc, hstarts⟩
    omega

lemma Within.isOrdinaryRow {ts : List Tree} (hrow : IsOrdinaryRow row)
    (h : Within (atomsList row.toList) (atomsList ts)) : IsOrdinaryRow (tokensList ts).toArray := by
  intro t ht
  have ht : t ∈ tokensList ts := by simpa using ht
  obtain ⟨id, a, rfl⟩ := isAtom_of_mem_tokensList ts ht
  refine ⟨id, a, rfl, ?_⟩
  obtain ha | ⟨text, htext, rfl⟩ := h a (mem_filterMap.mpr ⟨_, ht, rfl⟩)
  · obtain ⟨u, hu, ha⟩ := mem_atomsList.mp ha
    obtain ⟨uid, e, rfl, he⟩ := hrow u (Array.mem_toList_iff.mp hu)
    rwa [mem_singleton.mp ha]
  · exact ⟨rfl, fun h => absurd h htext⟩

lemma Block.Holds.placing_stepConditional (hb : b.Holds (AreSeen row) row start levels i)
    (hread : PlacingReader read) (hrow : IsOrdinaryRow row) {t : Tree} (ht : row[i]? = some t)
    (hcond : startsConditional t = true) : Safe (IsPlaced row) (stepConditional read row stop b)
      (Step.Follows (AreSeen row) row start levels i) := by
  have hlt := (Array.getElem?_eq_some_iff.mp ht).1
  have hbegun : ∀ c ∈ atomsList b.row.toList, Seen row i c :=
    fun c hc => hb.atoms c (mem_append_right _ hc)
  unfold stepConditional
  rw [hb.index]
  refine ((gathers_conditional (Nat.succ_pos i) hlt).allow fun _ h => h.isPlaced row).bind ?_
  rintro p ⟨id, d, rest, size, rfl, hd, hno, hrest⟩
  obtain rfl : d = t := Option.some.inj (hd.symm.trans ht)
  obtain ⟨did, a, rfl, ha⟩ := hrow d (Array.mem_of_getElem? ht)
  refine Safe.get_bind fun σ _ => Ensures.bind (p := fun p : List Tree × List Tree =>
    atomsList p.1 ⊆ atomsList rest ∧ ∃ children, p.2 = .atom did a :: children ∧
      atomsList children ⊆ atomsList rest) (Safe.lift ?_) ?_
  · obtain ⟨fault, hresolve, hplace⟩ | ⟨taken, children, hresolve, htaken, hchildren⟩ :=
      resolve_cons_cases hcond hno σ.definitions (placeAfter row ((i : Int) - 1))
    · exact .inr ⟨fault, hresolve, fun place heq =>
        ⟨row, i, _, hrow, .inl rfl, ht, hcond, hplace place heq⟩⟩
    · exact .inl ⟨_, hresolve, htaken, children, rfl, hchildren⟩
  · rintro ⟨taken, children⟩ ⟨htaken, children, rfl, hchildren⟩
    dsimp only at htaken ⊢
    have hdrop : atomsList (row.toList.drop (i + 1)) ⊆ atomsList row.toList :=
      (atomsList_sublist (drop_sublist _ _)).subset
    have hwithin : Within (atomsList row.toList) (atomsList (b.row.toList ++ taken)) := by
      intro c hc
      rw [atomsList_append] at hc
      obtain hc | hc := mem_append.mp hc
      · exact (hbegun c hc).within
      · exact .inl (hdrop (hrest (htaken hc)))
    have hordinary := hwithin.isOrdinaryRow hrow
    refine ((hread stop hordinary (Nat.zero_le _) (.inl ⟨rfl, rfl⟩)).allow fun fault h place heq =>
      (h place heq).of_again hordinary ?_ ?_).bind ?_
    · rwa [atomsList_tokensList]
    · rw [atomsList_tokensList, atomsList_append]
      exact one_lt_starters hrow ht hcond hbegun (Subset.trans htaken hrest)
    rintro ⟨result, n⟩ -
    refine Safe.of_returns fun σ => ⟨_, _, rfl, rfl, ?_⟩
    -- nodes that were begun have one token or more, so that the reader goes on behind the directive
    have hlength := length_le_length_atomsList hb.text
    let j := i + 1 + (atomsList children).length +
      ((atomsList b.row.toList).length - b.row.toList.length)
    have hij : i < j := by omega
    have hatoms : AreSeen row start j (atomsList b.statements.toList ++ (resolution σ.nextId
        result.children (b.row.toList ++ .atom did a :: children)).atoms) := by
      intro c hc
      simp only [atoms_resolution, atomsList_append, atomsList_cons, atoms_atom,
        mem_append, mem_singleton] at hc
      obtain hc | hc | rfl | hc := hc
      · exact (hb.atoms c (mem_append_left _ hc)).mono (Nat.le_of_lt hij)
      · exact (hbegun c hc).mono (Nat.le_of_lt hij)
      · exact (Seen.token ht).mono hij
      · exact .inr (.inr ⟨hdrop (hrest (hchildren hc)), _,
          (take_sublist_take_left hij).subset (Seen.mem_take ht), hcond⟩)
    refine ⟨j, hij, ?_⟩
    convert hb.pushStatement (Nat.le_of_lt hij) hb.kind hatoms (by simp [Tree.kind]) using 2
    rw [← length_atomsList]
    simp only [atomsList_append, atomsList_cons, atoms_atom, length_append, length_singleton, j]
    omega

/-- Without definitions, conditionals are said to have no name only at such places. -/
lemma placing_block (depth : Nat) : PlacingReader (block depth) := by
  induction depth with
  | zero =>
    intro row start levels stop _ _ _
    exact Safe.throw fun place h => by cases h
  | succ depth ih =>
    intro row start levels stop hrow hle henters
    refine safe_block_succ (tracks_areSeen row) (allows_isPlaced row) hrow
      (.inl fun place h => by cases h) hle henters (fun i _ id a levels stop ht ha => ?_)
      fun b i t hb ht hcond => hb.placing_stepConditional ih hrow ht hcond
    exact ih stop hrow (Array.getElem?_eq_some_iff.mp ht).1 (.inr ⟨Nat.succ_pos i, id, a, ht, ha⟩)

end

lemma atomsList_dropLast {ts : List Tree} (h : ∀ t ∈ ts, ∃ id a, t = .atom id a) :
    atomsList ts.dropLast = (atomsList ts).dropLast := by
  obtain rfl | ⟨front, t, rfl⟩ := eq_nil_or_concat ts
  · simp
  · obtain ⟨id, a, rfl⟩ := h t (by simp)
    simp

/-- The tokens before the one in front of an index. In front of the first is the last. -/
lemma placeAfter_pred {row : Array Tree} {i : Nat} (hi : i < row.size) :
    placeAfter row ((i : Int) - 1) =
      .afterText (textList (if i = 0 then row.toList else row.toList.take i).dropLast) := by
  cases i with
  | zero =>
    unfold placeAfter textUpTo
    have hlast : (((0 : Nat) : Int) - 1 + row.size).toNat = row.size - 1 := by omega
    rw [if_pos (by omega), if_pos rfl, dropLast_eq_take, Array.length_toList]
    dsimp only
    rw [hlast]
  | succ k =>
    have hpred : ((k + 1 : Nat) : Int) - 1 = (k : Nat) := by omega
    rw [hpred, placeAfter_natCast, if_neg (Nat.succ_ne_zero k), dropLast_take (by simpa using hi)]
    rfl

lemma afterText_textList (ts : List Tree) :
    afterText (textList ts) = start.behind (chars (atomsList ts)) := by
  rw [afterText_eq_behind, textList_eq_join, String.toList_join, flatMap_map]
  rfl

/-- With one conditional there is one way to find its directive. -/
lemma eq_of_starters_eq_one {front front' back back' : List Atom} {d d' : Atom}
    (h : front ++ d :: back = front' ++ d' :: back') (hone : starters (front ++ d :: back) = 1)
    (hd : d.startsConditional = true) (hd' : d'.startsConditional = true) : front = front' := by
  have hfree : starters front = 0 ∧ starters back = 0 := by
    simp only [starters, countP_append, countP_cons, hd, if_true] at hone ⊢
    omega
  obtain ⟨zs, rfl, -⟩ | ⟨heq, -⟩ | ⟨zs, -, rfl⟩ := append_cons_cases h
  · simp [starters, hd'] at hfree
  · exact heq
  · simp [starters, hd'] at hfree

end Build

/-! ### Scripts -/

namespace Script

/-- The place that is reported for a conditional without a name whose directive stands behind the tokens
`front` of a row. -/
def namelessPlace (row front : List Atom) : Position :=
  (Position.start.behind (Atom.chars (if front.isEmpty then row else front).dropLast)).below

/-- The last token has one newline and as many characters behind it as the line had before the token. -/
def EndsAlike (front : List Atom) : Prop :=
  ∃ before u, front = before ++ [u] ∧ u.text.toList.count '\n' = 1 ∧
    1 + (u.text.toList.rtakeWhile (· != '\n')).length =
      (start.behind (chars before)).column

/-- A directive that starts a conditional stands at a place of a text with the given tokens. -/
def IsConditionalAt (text : String) (tokens : List Atom) (place : Position) : Prop :=
  ∃ front d back before rest, tokens = front ++ d :: back ∧ startsConditional d = true ∧
    before.toList = Atom.chars front ∧ text = before ++ Atom.text d ++ rest ∧ place = .afterText before

/-- A token moves a place on by one line, in the same column. -/
lemma behind_eq_below_iff (p : Position) (cs : List Char) : p.behind cs = p.below ↔
      cs.count '\n' = 1 ∧ 1 + (cs.rtakeWhile (· != '\n')).length = p.column := by
  unfold behind below
  split_ifs with hline
  · simp only [Position.mk.injEq]
    omega
  · have hcount : cs.count '\n' = 0 := count_eq_zero.mpr hline
    simp [hcount]

/-- The place that is reported is that of the directive only behind such a token. -/
lemma namelessPlace_eq_iff (row front : List Atom) :
    namelessPlace row front = start.behind (chars front) ↔ EndsAlike front := by
  obtain rfl | ⟨before, u, rfl⟩ := eq_nil_or_concat front
  · constructor
    · intro h
      have hline := congrArg line h
      rw [namelessPlace, below, start_behind] at hline
      simp [chars, start] at hline
    · rintro ⟨before, u, h, -⟩
      simp at h
  · rw [concat_eq_append]
    have hplace : namelessPlace row (before ++ [u]) =
        (start.behind (chars before)).below := by
      simp [namelessPlace]
    have hchars : chars (before ++ [u]) = chars before ++ u.text.toList := by
      simp [chars]
    rw [hplace, hchars, behind_append, eq_comm, behind_eq_below_iff]
    constructor
    · rintro ⟨hcount, hcolumn⟩
      exact ⟨before, u, rfl, hcount, hcolumn⟩
    · rintro ⟨before', u', heq, hcount, hcolumn⟩
      obtain ⟨rfl, hu⟩ := append_inj' heq rfl
      cases singleton_inj.mp hu
      exact ⟨hcount, hcolumn⟩

lemma exists_of_isReportedPlace {row : Array Tree} {place : Position}
    (h : Build.IsReportedPlace row place) : ∃ again front d back, (again = atomsList row.toList ∨
        1 < Build.starters (atomsList row.toList) ∧ Build.Within (atomsList row.toList) again) ∧
      again = front ++ d :: back ∧ startsConditional d = true ∧
      place = namelessPlace again front := by
  obtain ⟨row', i, t, hordinary, hwhere, ht, hcond, rfl⟩ := h
  have hatoms : ∀ u ∈ row'.toList, ∃ id a, u = .atom id a := by
    intro u hu
    obtain ⟨id, a, rfl, -⟩ := hordinary u (Array.mem_toList_iff.mp hu)
    exact ⟨id, a, rfl⟩
  obtain ⟨id, a, rfl⟩ := hatoms t (Array.mem_toList_iff.mpr (Array.mem_of_getElem? ht))
  have hlt := (Array.getElem?_eq_some_iff.mp ht).1
  refine ⟨atomsList row'.toList, atomsList (row'.toList.take i), a,
    atomsList (row'.toList.drop (i + 1)), ?_, ?_, hcond, ?_⟩
  · obtain rfl | hwhere := hwhere
    · exact .inl rfl
    · exact .inr hwhere
  · conv_lhs => rw [Build.toList_eq_of_getElem? ht]
    simp
  · have hfirst : (if (atomsList (row'.toList.take i)).isEmpty then atomsList row'.toList
        else atomsList (row'.toList.take i)) =
        atomsList (if i = 0 then row'.toList else row'.toList.take i) := by
      cases i with
      | zero => simp
      | succ k =>
        obtain ⟨u, us, hcons⟩ := exists_cons_of_ne_nil (l := row'.toList) (by
          rintro hnil
          simp [← Array.length_toList, hnil] at hlt)
        obtain ⟨uid, e, rfl⟩ := hatoms u (by simp [hcons])
        simp [hcons]
    rw [Build.placeAfter_pred hlt, Build.afterText_textList, namelessPlace, hfirst,
      Build.atomsList_dropLast fun u hu => hatoms u ?_]
    split_ifs at hu with hi
    · exact hu
    · exact mem_of_mem_take hu

lemma isReportedPlace_of_read {text : String} {tokens : List Atom} {firstId : NodeId}
    {place : Position} (hlex : lex text = .ok tokens)
    (hdefine : ∀ a ∈ tokens, a.isDirective "#define" = false)
    (h : read text firstId = .error (.error place Build.namelessMessage)) :
    Build.IsReportedPlace (leaves firstId (tokens ++ [.fileEnd])).toArray place := by
  have hrow : Build.IsOrdinaryRow (leaves firstId (tokens ++ [.fileEnd])).toArray := by
    intro t ht
    obtain ⟨id, a, ha, rfl⟩ := exists_of_mem_leaves (mem_toArray.mp ht)
    refine ⟨id, a, rfl, ?_⟩
    obtain ha | ha := mem_append.mp ha
    · exact ⟨hdefine a ha, fun htext => absurd htext (text_ne_empty_of_lex hlex a ha)⟩
    · rw [mem_singleton.mp ha]
      exact ⟨rfl, fun _ => rfl⟩
  have hsafe := Build.placing_block (tokens.length + 1 + Build.expansionLimit) .both hrow
    (Nat.zero_le _) (.inl ⟨rfl, rfl⟩)
  have hblock := @hsafe ⟨firstId + (tokens.length + 1), []⟩ rfl
  rw [read_eq_of_lex hlex, ← Int.natCast_zero] at h
  generalize Build.block _ _ _ _ _ _ = result at h hblock
  cases result with
  | ok p σ => cases h
  | error fault σ =>
    cases h
    exact hblock place rfl

/-- Where a script without `#define` is said to have a conditional without a name, the place is one line
below the token before the directive, in the script or, if it has several conditionals, in a row that is
read again. With one conditional it is the place of its directive only behind a token that ends alike. -/
theorem place_of_nameless {text : String} {tokens : List Atom} {firstId : NodeId} {place : Position}
    (hlex : lex text = .ok tokens) (hnumber : ∀ a ∈ tokens, a.isNumber = false)
    (hdefine : ∀ a ∈ tokens, a.isDirective "#define" = false)
    (h : read text firstId = .error (.error place Build.namelessMessage)) :
    (∃ row front d back, (row = tokens ++ [.fileEnd] ∨ 1 < Build.starters tokens ∧
        Build.Within (tokens ++ [.fileEnd]) row) ∧
      row = front ++ d :: back ∧ startsConditional d = true ∧ place = namelessPlace row front) ∧
    (Build.starters tokens = 1 → (IsConditionalAt text tokens place ↔
      ∃ front d back, tokens = front ++ d :: back ∧ startsConditional d = true ∧
        EndsAlike front)) := by
  obtain ⟨row, front, d, back, hwhere, rfl, hd, hplace⟩ :=
    exists_of_isReportedPlace (isReportedPlace_of_read hlex hdefine h)
  have hstarters : Build.starters (tokens ++ [.fileEnd]) = Build.starters tokens := by
    simp [Build.starters, Atom.startsConditional, Atom.isDirective, Atom.same]
  rw [toList_toArray, atomsList_leaves, hstarters] at hwhere
  refine ⟨⟨_, front, d, back, hwhere, rfl, hd, hplace⟩, fun hone => ?_⟩
  obtain htokens | ⟨hmore, -⟩ := hwhere
  · obtain rfl | ⟨rest, e, rfl⟩ := eq_nil_or_concat back
    · -- the end of the script starts no conditional
      obtain ⟨-, hend⟩ := append_inj' htokens rfl
      cases singleton_inj.mp hend
      cases hd
    · rw [concat_eq_append, ← cons_append, ← append_assoc] at htokens
      obtain ⟨rfl, -⟩ := append_inj' htokens rfl
      have hiff := hplace ▸ namelessPlace_eq_iff (front ++ d :: rest.concat e) front
      constructor
      · rintro ⟨front', d', back', before, after, heq, hd', hbefore, -, hat⟩
        obtain rfl := Build.eq_of_starters_eq_one heq hone hd hd'
        rw [hat, afterText_eq_behind, hbefore] at hiff
        exact ⟨front, d, rest, rfl, hd, hiff.mp rfl⟩
      · rintro ⟨front', d', back', heq, hd', hends⟩
        obtain rfl := Build.eq_of_starters_eq_one heq hone hd hd'
        refine ⟨front, d, rest, String.ofList (chars front), String.ofList (chars rest), rfl,
          hd, String.toList_ofList, ?_, ?_⟩
        · rw [← String.toList_inj, ← Atom.chars_lex hlex hnumber]
          simp [chars]
        · rw [afterText_eq_behind, String.toList_ofList]
          exact hiff.mpr hends
  · omega

theorem place_of_nameless_emptyLine :
    ∃ tokens, lex "\n\n#ifdef\n#endif\n" = .ok tokens ∧ (∀ a ∈ tokens, a.isNumber = false) ∧
      (∀ a ∈ tokens, a.isDirective "#define" = false) ∧ Build.starters tokens = 1 ∧
      read "\n\n#ifdef\n#endif\n" 0 = .error (.error ⟨3, 1⟩ Build.namelessMessage) ∧
      (∃ row front d back, (row = tokens ++ [.fileEnd] ∨ 1 < Build.starters tokens ∧
          Build.Within (tokens ++ [.fileEnd]) row) ∧
        row = front ++ d :: back ∧ startsConditional d = true ∧
        ⟨3, 1⟩ = namelessPlace row front) ∧
      (IsConditionalAt "\n\n#ifdef\n#endif\n" tokens ⟨3, 1⟩ ↔
        ∃ front d back, tokens = front ++ d :: back ∧ startsConditional d = true ∧
          EndsAlike front) := by
  obtain ⟨tokens, hlex, htokens⟩ := exists_eq_ok_of_any (x := Atom.lex "\n\n#ifdef\n#endif\n")
    (p := fun tokens => tokens.all (!·.isNumber) && tokens.all (!·.isDirective "#define") &&
      Build.starters tokens == 1) (by decide +kernel)
  have hread : read "\n\n#ifdef\n#endif\n" 0 = .error (.error ⟨3, 1⟩ Build.namelessMessage) :=
    eq_error_of_failsWith (by decide +kernel)
  obtain ⟨⟨hnumber, hdefine⟩, hone⟩ : ((∀ a ∈ tokens, a.isNumber = false) ∧
      ∀ a ∈ tokens, a.isDirective "#define" = false) ∧ Build.starters tokens = 1 := by
    simpa using htokens
  obtain ⟨hplace, hiff⟩ := place_of_nameless hlex hnumber hdefine hread
  exact ⟨tokens, hlex, hnumber, hdefine, hone, hread, hplace, hiff hone⟩

/-- Behind the end of a statement, the place that is reported is not that of the directive. -/
theorem read_nameless_behind_statement :
    ∃ tokens, Atom.lex "\"a\";\n#ifdef\n#endif\n" = .ok tokens ∧
      read "\"a\";\n#ifdef\n#endif\n" 0 = .error (.error ⟨2, 5⟩ Build.namelessMessage) ∧
      ¬ IsConditionalAt "\"a\";\n#ifdef\n#endif\n" tokens ⟨2, 5⟩ := by
  obtain ⟨tokens, hlex, htokens⟩ := exists_eq_ok_of_any (x := lex "\"a\";\n#ifdef\n#endif\n")
    (p := fun tokens => (range tokens.length).all fun i =>
      !tokens[i]?.any startsConditional ||
        start.behind (chars (tokens.take i)) == ⟨2, 1⟩) (by decide +kernel)
  have hread : read "\"a\";\n#ifdef\n#endif\n" 0 = .error (.error ⟨2, 5⟩ Build.namelessMessage) :=
    eq_error_of_failsWith (by decide +kernel)
  refine ⟨tokens, hlex, hread, ?_⟩
  rintro ⟨front, d, back, before, rest, rfl, hd, hbefore, -, hplace⟩
  have hplace' := all_eq_true.mp htokens front.length (by simp)
  rw [afterText_eq_behind, hbefore] at hplace
  simp [hd, ← hplace] at hplace'

end Script

end ArmaScript
