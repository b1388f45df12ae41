import ArmaScript.Proofs.Coordinates
import ArmaScript.Proofs.Findings
import ArmaScript.Proofs.Pairing

/-!
# Brackets that are never closed

Where a script ends before its brackets are closed, the place that is reported is that of the innermost
bracket that is never closed. The kind that is named is another matter: the reader asks for `[`, then
for `(`, then for a curly bracket, and names the first kind of which one is open. So the place and the
name belong to the same bracket only if no bracket around it is of a kind that is asked for earlier.
-/

namespace ArmaScript

open List

/-! ### The characters of a text -/

namespace Position

/-- The character at a place of a text that starts at `p`. -/
def charFrom? (p place : Position) : List Char → Option Char
  | [] => none
  | c :: cs => if p = place then some c else charFrom? (p.behind [c]) place cs

def charAt? (text : String) (place : Position) : Option Char :=
  charFrom? .start place text.toList

/-- A text that is not empty ends behind its start. -/
lemma ne_behind_cons (p : Position) (c : Char) (cs : List Char) : p ≠ p.behind (c :: cs) := by
  intro h
  unfold behind at h
  split_ifs at h with hline
  · have hcount : 0 < (c :: cs).count '\n' := count_pos_iff.mpr hline
    have := congrArg line h
    simp only at this
    omega
  · have := congrArg column h
    simp at this

lemma charFrom?_behind (p : Position) (front : List Char) (c : Char) (back : List Char) :
    charFrom? p (p.behind front) (front ++ c :: back) = some c := by
  induction front generalizing p with
  | nil => rw [nil_append, behind_nil, charFrom?, if_pos rfl]
  | cons d front ih =>
    have hstep : p.behind (d :: front) = (p.behind [d]).behind front := behind_append p [d] front
    rw [cons_append, charFrom?, if_neg (ne_behind_cons p d front), hstep, ih]

lemma charAt?_afterText {text before : String} {c : Char} {back : List Char}
    (h : text.toList = before.toList ++ c :: back) : charAt? text (.afterText before) = some c := by
  rw [charAt?, h, afterText_eq_behind, charFrom?_behind]

end Position

/-! ### Unclosed brackets -/

/-- A bracket of kind `k` stands behind the tokens `before` and is never closed: no closing bracket
follows it behind tokens in which every bracket is closed. -/
def IsUnclosed (tokens before : List Atom) (k : Bracket) : Prop :=
  ∃ o after, tokens = before ++ o :: after ∧ Atom.opens? o = some k ∧
    ∀ inner c rest, after = inner ++ c :: rest → Paired inner → Atom.closes? c = none

/-- The bracket of kind `k` behind the tokens `before` is never closed, and none further on is. -/
def IsInnermostUnclosed (tokens before : List Atom) (k : Bracket) : Prop :=
  IsUnclosed tokens before k ∧
    ∀ before' k', IsUnclosed tokens before' k' → before'.length ≤ before.length

variable {tokens before : List Atom} {k : Bracket}

lemma Paired.not_isUnclosed (h : Paired tokens) : ¬ IsUnclosed tokens before k := by
  rintro ⟨o, after, heq, ho, hopen⟩
  obtain ⟨inner, c, rest, k', hafter, hinner, hc⟩ := h.exists_closing heq ho
  rw [hopen inner c rest hafter hinner] at hc
  cases hc

lemma IsUnclosed.length_lt (h : IsUnclosed tokens before k) : before.length < tokens.length := by
  obtain ⟨o, after, rfl, -⟩ := h
  simp

/-- Behind an opening bracket and paired tokens, this bracket is unclosed, and those before it that
were. -/
lemma isUnclosed_append_iff {front back : List Atom} {a : Atom} {l : Bracket}
    (ha : a.opens? = some k) (hback : Paired back) : IsUnclosed (front ++ a :: back) before l ↔
      (before = front ∧ l = k) ∨ IsUnclosed front before l := by
  constructor
  · rintro ⟨o, after, heq, ho, hopen⟩
    obtain ⟨zs, hzs, rfl⟩ | ⟨rfl, rfl, rfl⟩ | ⟨zs, rfl, rfl⟩ := append_cons_cases heq
    · refine .inr ⟨o, zs, hzs, ho, fun inner c rest hinner => ?_⟩
      exact hopen inner c (rest ++ a :: back) (by simp [hinner])
    · exact .inl ⟨rfl, Option.some.inj (ho.symm.trans ha)⟩
    · exact absurd ⟨o, after, rfl, ho, hopen⟩ hback.not_isUnclosed
  · rintro (⟨rfl, rfl⟩ | ⟨o, after, rfl, ho, hopen⟩)
    · refine ⟨a, back, rfl, ha, fun inner c rest heq hinner => ?_⟩
      exact Paired.closes?_eq_none (heq ▸ hback) hinner
    · refine ⟨o, after ++ a :: back, by simp, ho, fun inner c rest heq hinner => ?_⟩
      obtain ⟨zs, hzs, -⟩ | ⟨-, rfl, -⟩ | ⟨zs, rfl, rfl⟩ := append_cons_cases heq
      · exact hopen inner c zs hzs hinner
      · cases hc : a.closes? with
        | none => rfl
        | some k' => simp [Atom.opens?_of_closes? hc] at ha
      · exact absurd hinner (Paired.not_append_opening ha hback)

/-- The kinds of the brackets that some tokens leave open are those of the unclosed ones. -/
lemma LeavesOpen.mem_iff {around : List Bracket} {before : List Tree}
    (h : LeavesOpen around before) (l : Bracket) :
    l ∈ around ↔ ∃ front, IsUnclosed (before.filterMap Tree.atom?) front l := by
  induction h with
  | @nothing content hcontent =>
    have hpaired : Paired ((Item.flatList content).filterMap Tree.atom?) :=
      Item.paired_atomsList _ hcontent
    simpa using fun front => hpaired.not_isUnclosed
  | @bracket around before o k content _ ho hcontent ih =>
    obtain ⟨i, rfl⟩ := Build.eq_atom_of_opens? ho
    have hpaired : Paired ((Item.flatList content).filterMap Tree.atom?) :=
      Item.paired_atomsList _ hcontent
    have ha : (Atom.mark k.openingText).opens? = some k := Atom.opens?_openingText k
    simp only [filterMap_append, filterMap_cons, Tree.atom?, mem_cons, ih,
      isUnclosed_append_iff ha hpaired, exists_or, exists_and_right, exists_eq, true_and]

/-! ### The name of the bracket -/

namespace Bracket

def openingChar : Bracket → Char
  | .round => '('
  | .square => '['
  | .curly => '\x7b'

/-- The place of a kind of bracket in the order in which the reader asks for open ones. -/
def rank : Bracket → Nat
  | .square => 0
  | .round => 1
  | .curly => 2

def unclosedMessage (k : Bracket) : String :=
  "Parenthesis \"" ++ k.openingText ++ "\" not closed"

lemma unclosedMessage_injective : Function.Injective unclosedMessage := by
  intro k l
  cases k <;> cases l <;> decide

lemma openingChar_injective : Function.Injective openingChar := by
  intro k l
  cases k <;> cases l <;> decide

lemma rank_injective : Function.Injective rank := by
  intro k l
  cases k <;> cases l <;> decide

lemma unopenedMessage_ne (k l : Bracket) : k.unopenedMessage ≠ l.unclosedMessage := by
  cases k <;> cases l <;> decide

lemma toList_openingText (k : Bracket) : k.openingText.toList = [k.openingChar] := by
  cases k <;> rfl

end Bracket

/-- The bracket that is named is of the first kind of which one is open. -/
lemma Levels.exists_of_unclosed? {around : List Bracket} {message : String}
    (h : (Levels.ofOpen around).unclosed? = some message) :
    ∃ k ∈ around, message = k.unclosedMessage ∧ ∀ l ∈ around, k.rank ≤ l.rank := by
  unfold unclosed? ofOpen at h
  simp only [bne_iff_ne, ne_eq, count_eq_zero, not_not] at h
  split_ifs at h with hsquare hround hcurly
  · exact ⟨.square, hsquare, (Option.some.inj h).symm, fun l _ => Nat.zero_le _⟩
  · refine ⟨.round, hround, (Option.some.inj h).symm, fun l hl => ?_⟩
    cases l with
    | square => exact absurd hl hsquare
    | round => exact Nat.le_refl _
    | curly => decide
  · refine ⟨.curly, hcurly, (Option.some.inj h).symm, fun l hl => ?_⟩
    cases l with
    | square => exact absurd hl hsquare
    | round => exact absurd hl hround
    | curly => exact Nat.le_refl _
  · rename_i hconditional
    exact absurd trivial hconditional

namespace Script

/-- A bracket behind which the row of a script ends, as a token: what follows it is paired. -/
lemma exists_opening_of_leaves {firstId : NodeId} {before : List Tree} {o : Tree}
    {around : List Bracket} {content : List Item}
    (hrow : leaves firstId (tokens ++ [.fileEnd]) = before ++ o :: Item.flatList content)
    (ho : o.opens? = some k) (hcontent : Item.OpenList around content) :
    ∃ front a back, tokens = front ++ a :: back ∧ before = leaves firstId front ∧
      a.opens? = some k ∧ Paired back := by
  obtain ⟨front, bs, htokens, hbefore, hbs⟩ := exists_of_leaves_eq_append hrow
  obtain _ | ⟨a, bs⟩ := bs
  · cases hbs
  obtain ⟨rfl, hflat⟩ := cons.inj hbs
  obtain rfl | ⟨back, e, rfl⟩ := eq_nil_or_concat bs
  · -- the end of the script is no bracket
    obtain ⟨-, hend⟩ := append_inj' htokens.symm rfl
    rw [singleton_inj.mp hend] at ho
    cases ho
  rw [concat_eq_append] at htokens hflat
  obtain ⟨rfl, hend⟩ : tokens = front ++ a :: back ∧ [Atom.fileEnd] = [e] :=
    append_inj' (by simpa using htokens) rfl
  rw [← singleton_inj.mp hend, leaves_append] at hflat
  obtain ⟨inner, rfl, hinner⟩ := Item.exists_of_flatList_concat hcontent rfl hflat
  have hpaired := Item.paired_atomsList inner (Item.openList_append.mp hcontent).1
  rw [Item.atoms, hinner, filterMap_leaves] at hpaired
  exact ⟨front, a, back, rfl, hbefore, ho, hpaired⟩

/-- Where an opening bracket stands, its character does. -/
lemma charAt?_opening {text : String} {front back : List Atom} {a : Atom}
    (hlex : Atom.lex text = .ok (front ++ a :: back))
    (hnumber : ∀ b ∈ front ++ a :: back, b.isNumber = false) (ha : a.opens? = some k) :
    Position.charAt? text (.afterText (String.ofList (Atom.chars front))) = some k.openingChar := by
  have htext : text.toList =
      (String.ofList (Atom.chars front)).toList ++ k.openingChar :: Atom.chars back := by
    rw [← Atom.chars_lex hlex hnumber, Atom.eq_of_opens? ha, String.toList_ofList]
    simp [Atom.chars, Atom.text, Bracket.toList_openingText]
  exact Position.charAt?_afterText htext

/-- If a script is said to have a bracket that is not closed, the place is that of the innermost one,
and the name is that of the first kind, in the order of the ranks, of which one is not closed. They
agree if no unclosed bracket is of a kind before that of the innermost. -/
theorem named_iff_of_unclosed {text : String} {tokens : List Atom} {firstId : NodeId}
    {place : Position} {named : Bracket} (hlex : Atom.lex text = .ok tokens)
    (hplain : ∀ a ∈ tokens, a.isReplacing = false) (hnumber : ∀ a ∈ tokens, a.isNumber = false)
    (h : read text firstId = .error (.unbalanced place named.unclosedMessage)) :
    ∃ before k, IsInnermostUnclosed tokens before k ∧
      place = .afterText (String.ofList (Atom.chars before)) ∧
      Position.charAt? text place = some k.openingChar ∧
      (∃ before', IsUnclosed tokens before' named) ∧
      (∀ before' l, IsUnclosed tokens before' l → named.rank ≤ l.rank) ∧
      (Position.charAt? text place = some named.openingChar ↔
        ∀ before' l, IsUnclosed tokens before' l → k.rank ≤ l.rank) := by
  have hreport := reportable_of_read hlex hplain h
  generalize hd : (⟨.unbalanced, place, named.unclosedMessage⟩ : Diagnostic) = d at hreport
  cases hreport with
  | @unclosed around before o k content message hrow hbefore ho hcontent hmessage =>
    injection hd with _ hplace hname
    obtain ⟨front, a, back, rfl, rfl, ha, hback⟩ := exists_opening_of_leaves hrow ho hcontent
    have hunclosed : ∀ before' l, IsUnclosed (front ++ a :: back) before' l ↔
        (before' = front ∧ l = k) ∨ IsUnclosed front before' l :=
      fun before' l => isUnclosed_append_iff ha hback
    have hmem : ∀ l, l ∈ k :: around ↔ ∃ before', IsUnclosed (front ++ a :: back) before' l := by
      intro l
      have := hbefore.mem_iff l
      rw [filterMap_leaves] at this
      simp [hunclosed, exists_or, this]
    obtain ⟨k', hk', rfl, hfirst⟩ := Levels.exists_of_unclosed? hmessage
    obtain rfl := Bracket.unclosedMessage_injective hname
    rw [← String.ofList_toList (s := Tree.textList _), toList_textList_leaves] at hplace
    have hchar : Position.charAt? text place = some k.openingChar :=
      hplace ▸ charAt?_opening hlex hnumber ha
    refine ⟨front, k, ⟨(hunclosed front k).mpr (.inl ⟨rfl, rfl⟩), ?_⟩, hplace, hchar, (hmem _).mp hk',
      fun before' l hl => hfirst l ((hmem l).mpr ⟨before', hl⟩), ?_⟩
    · intro before' l hl
      obtain ⟨rfl, -⟩ | hl := (hunclosed before' l).mp hl
      · exact Nat.le_refl _
      · exact hl.length_lt.le
    · rw [hchar, Option.some_inj, Bracket.openingChar_injective.eq_iff]
      constructor
      · rintro rfl before' l hl
        exact hfirst l ((hmem l).mpr ⟨before', hl⟩)
      · intro hle
        obtain ⟨before', hnamed⟩ := (hmem named).mp hk'
        exact Bracket.rank_injective
          (Nat.le_antisymm (hle before' named hnamed) (hfirst k mem_cons_self))
  | @unopened around before after c k hrow hbefore hc hk =>
    injection hd with _ _ hmessage
    exact absurd hmessage.symm (Bracket.unopenedMessage_ne k named)
  | emptyElement => cases hd
  | statement => cases hd

theorem named_iff_of_unclosed_array :
    ∃ tokens, Atom.lex "\x7b(\"a\")[" = .ok tokens ∧ (∀ a ∈ tokens, a.isReplacing = false) ∧
      (∀ a ∈ tokens, a.isNumber = false) ∧
      read "\x7b(\"a\")[" 0 = .error (.unbalanced ⟨1, 7⟩ (Bracket.unclosedMessage .square)) ∧
      ∃ before k, IsInnermostUnclosed tokens before k ∧
        ⟨1, 7⟩ = Position.afterText (String.ofList (Atom.chars before)) ∧
        Position.charAt? "\x7b(\"a\")[" ⟨1, 7⟩ = some k.openingChar ∧
        (∃ before', IsUnclosed tokens before' .square) ∧
        (∀ before' l, IsUnclosed tokens before' l → Bracket.square.rank ≤ l.rank) ∧
        (Position.charAt? "\x7b(\"a\")[" ⟨1, 7⟩ = some Bracket.square.openingChar ↔
          ∀ before' l, IsUnclosed tokens before' l → k.rank ≤ l.rank) := by
  obtain ⟨tokens, hlex, htokens⟩ := exists_eq_ok_of_any (x := Atom.lex "\x7b(\"a\")[")
    (p := fun tokens => tokens.all (!·.isReplacing) && tokens.all (!·.isNumber)) (by decide +kernel)
  obtain ⟨hplain, hnumber⟩ : (∀ a ∈ tokens, a.isReplacing = false) ∧
      ∀ a ∈ tokens, a.isNumber = false := by
    simpa using htokens
  have hread : read "\x7b(\"a\")[" 0 =
      .error (.unbalanced ⟨1, 7⟩ (Bracket.unclosedMessage .square)) :=
    eq_error_of_failsWith (by decide +kernel)
  exact ⟨tokens, hlex, hplain, hnumber, hread, named_iff_of_unclosed hlex hplain hnumber hread⟩

/-- The parenthesis is at the place that is reported, and the array around it is named. -/
theorem read_unclosed_parenthesis_in_array :
    read "[(" 0 = .error (.unbalanced ⟨1, 2⟩ (Bracket.unclosedMessage .square)) ∧
      Position.charAt? "[(" ⟨1, 2⟩ = some Bracket.round.openingChar :=
  ⟨rfl, rfl⟩

end Script

end ArmaScript
