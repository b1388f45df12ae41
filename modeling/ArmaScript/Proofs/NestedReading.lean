import ArmaScript.Proofs.Findings
import ArmaScript.Proofs.Pairing

/-!
# Reading nested brackets

Where the brackets of a script are nested, the reader does not complain about them: a block ends at the
bracket that closes it, since the outline of the tokens leaves no other place, and the brackets that the
reader counts are open there. What else may be wrong with the script is not a matter of brackets. The
tree of such a script has all of its brackets, in order, though they are written anew.
-/

namespace ArmaScript

open List

/-! ### Brackets that are open -/

/-- Behind paired tokens in which each bracket is closed by one of its kind, the same brackets are open
as before. -/
lemma Paired.eq_of_openAfter {tokens : List Atom} (h : Paired tokens) {stack stack' : List Bracket}
    (hopen : openAfter stack tokens = some stack') : stack' = stack := by
  induction h generalizing stack stack' with
  | nil => exact (Option.some.inj hopen).symm
  | token ho hc _ ih =>
    simp only [openAfter, ho, hc] at hopen
    exact ih hopen
  | group ho hc _ _ ihinner ihrest =>
    rw [cons_append, openAfter_opening ho, openAfter_append] at hopen
    obtain ⟨stack1, hinner, hopen⟩ := Option.bind_eq_some_iff.mp hopen
    obtain rfl := ihinner hinner
    simp only [openAfter, Atom.opens?_of_closes? hc, hc, Option.ite_none_right_eq_some] at hopen
    exact ihrest hopen.2

lemma LeavesOpen.eq_of_openAfter {around stack : List Bracket} {before : List Tree}
    (h : LeavesOpen around before)
    (hopen : openAfter [] (before.filterMap Tree.atom?) = some stack) : stack = around := by
  induction h generalizing stack with
  | nothing hcontent => exact (Item.paired_atomsList _ hcontent).eq_of_openAfter hopen
  | bracket _ ho hcontent ih =>
    obtain ⟨i, rfl⟩ := Build.eq_atom_of_opens? ho
    rw [filterMap_append, openAfter_append] at hopen
    obtain ⟨stack1, hbefore, hopen⟩ := Option.bind_eq_some_iff.mp hopen
    obtain rfl := ih hbefore
    rw [filterMap_cons, Tree.atom?, openAfter_opening (Atom.opens?_openingText _)] at hopen
    exact (Item.paired_atomsList _ hcontent).eq_of_openAfter hopen

/-! ### The brackets of a tree -/

def Atom.isBracket (a : Atom) : Bool :=
  a.opens?.isSome || a.closes?.isSome

namespace Tree

/-- The brackets among the tokens of a node. -/
def brackets (t : Tree) : List Atom :=
  t.atoms.filter Atom.isBracket

/-- The brackets among the tokens of several nodes. -/
def bracketsList (ts : List Tree) : List Atom :=
  (atomsList ts).filter Atom.isBracket

@[simp] lemma bracketsList_nil : bracketsList [] = [] := rfl

@[simp] lemma bracketsList_cons (t : Tree) (ts : List Tree) :
    bracketsList (t :: ts) = t.brackets ++ bracketsList ts := by
  rw [bracketsList, atomsList_cons, filter_append]
  rfl

@[simp] lemma bracketsList_append (ts us : List Tree) :
    bracketsList (ts ++ us) = bracketsList ts ++ bracketsList us := by
  rw [bracketsList, atomsList_append, filter_append]
  rfl

/-- A node of a row: it has no ending, and if it is layout it has no bracket. -/
def IsPart (t : Tree) : Prop :=
  t.ending? = none ∧ (t.isLayout = true → t.brackets = [])

end Tree

namespace Item

mutual

/-- An item in which every bracket is closed by one of its own kind. -/
def Facing : Item → Prop
  | .token t => ∃ id a, t = .atom id a ∧ a.opens? = none ∧ a.closes? = none
  | .group o c content => ∃ k, o.opens? = some k ∧ c.closes? = some k ∧ FacingList content

/-- Items in which every bracket is closed by one of its own kind. -/
def FacingList : List Item → Prop
  | [] => True
  | i :: is => i.Facing ∧ FacingList is

end

mutual

theorem Facing.open {around : List Bracket} : ∀ i : Item, i.Facing → i.Open around
  | .token t, h => by
    obtain ⟨id, a, rfl, ho, hc⟩ := h
    exact ⟨ho, hc⟩
  | .group o c content, h => by
    obtain ⟨k, ho, hc, hcontent⟩ := h
    exact ⟨k, ho, ⟨k, hc, mem_cons_self⟩, FacingList.open content hcontent⟩

theorem FacingList.open {around : List Bracket} : ∀ is : List Item, FacingList is → OpenList around is
  | [], _ => trivial
  | i :: is, h => by
    rw [FacingList] at h
    exact ⟨Facing.open i h.1, FacingList.open is h.2⟩

end

end Item

/-- Nested tokens have an outline in which brackets of one kind face each other. -/
lemma Nested.exists_outline {tokens : List Atom} (h : Nested tokens) (firstId : NodeId) :
    ∃ content, Item.flatList content = Script.leaves firstId tokens ∧ Item.FacingList content := by
  induction h generalizing firstId with
  | nil => exact ⟨[], rfl, trivial⟩
  | @token a rest ho hc _ ih =>
    obtain ⟨content, htokens, hfacing⟩ := ih (firstId + 1)
    refine ⟨.token (.atom firstId a) :: content, ?_, ⟨firstId, a, rfl, ho, hc⟩, hfacing⟩
    rw [Item.flatList_cons, htokens]
    simp [Script.leaves]
  | @group o c k inner rest ho hc _ _ ihinner ihrest =>
    obtain ⟨content, hinner, hcontent⟩ := ihinner (firstId + 1)
    obtain ⟨after, hafter, hfacing⟩ := ihrest (firstId + 1 + inner.length + 1)
    refine ⟨.group (.atom firstId o) (.atom (firstId + 1 + inner.length) c) content :: after, ?_,
      ⟨k, ho, hc, hcontent⟩, hfacing⟩
    rw [Item.flatList_cons, Item.flat_group, hinner, hafter]
    simp [Script.leaves, Script.leaves_append]

namespace Build

open Tree (brackets bracketsList)

variable {σ σ' : BuildState} {row statements elements : List Tree} {t : Tree}

lemma bracketsList_kept (hrow : ∀ u ∈ row, u.IsPart) :
    bracketsList (Precedence.kept items row) = bracketsList row := by
  obtain ⟨dropped, hkept, hlayout, -⟩ := Precedence.exists_kept_append items row
  have hdropped : bracketsList dropped = [] := by
    have hpart : ∀ u ∈ dropped, u.brackets = [] := fun u hu =>
      (hrow u (by rw [hkept]; exact mem_append_right _ hu)).2 (hlayout u hu)
    clear hkept hlayout
    induction dropped with
    | nil => rfl
    | cons u us ih =>
      rw [Tree.bracketsList_cons, hpart u mem_cons_self,
        ih fun v hv => hpart v (mem_cons_of_mem u hv), append_nil]
  conv_rhs => rw [hkept]
  rw [Tree.bracketsList_append, hdropped, append_nil]

lemma brackets_arrange (hrow : ∀ u ∈ row, u.IsPart) (h : arrange row σ = .ok t σ') :
    t.brackets = bracketsList row := by
  have hbody : ∀ u ∈ bodyOf row, u.IsPart := fun u hu => hrow u (mem_of_mem_bodyOf hu)
  rw [Tree.brackets, atoms_arrange h fun u hu => (hrow u hu).1, filter_append]
  change bracketsList (Precedence.kept items (bodyOf row)) ++ _ = _
  rw [bracketsList_kept hbody, bracketsList, bracketsList, ← filter_append, atomsList_bodyOf]

lemma bracketsList_closeRow {nodes : List Tree} (hrow : ∀ u ∈ row, u.IsPart)
    (h : closeRow row statements σ = .ok nodes σ') :
    bracketsList nodes = bracketsList statements ++ bracketsList row := by
  unfold closeRow at h
  split_ifs at h with hempty
  · cases h
    rw [isEmpty_iff.mp hempty, Tree.bracketsList_nil, append_nil]
  · obtain ⟨t, σ1, ht, h⟩ := bind_eq_ok.mp h
    cases h
    simp [brackets_arrange hrow ht]

lemma filter_commaJoin (parts : List (List Atom)) :
    (commaJoin parts).filter Atom.isBracket = parts.flatMap (List.filter Atom.isBracket) := by
  induction parts with
  | nil => rfl
  | cons part parts ih =>
    cases parts with
    | nil => simp [commaJoin]
    | cons _ _ =>
      have hcomma : (Atom.mark ",").isBracket = false := rfl
      rw [commaJoin_cons (by simp), filter_append, filter_cons, hcomma, ih]
      simp

lemma bracketsList_mapM_arrange {place : Position} {parts : List (List Tree)}
    (hparts : ∀ part ∈ parts, ∀ u ∈ part, u.IsPart) (h : parts.mapM (fun part => if part.isEmpty
      then throw (.error place "Array cannot have an empty element") else arrange part) σ =
        .ok elements σ') : elements.flatMap brackets = parts.flatMap bracketsList := by
  induction parts generalizing elements σ with
  | nil =>
    cases h
    rfl
  | cons part parts ih =>
    obtain ⟨t, σ1, ts, ht, hts, rfl⟩ := mapM_cons_eq_ok.mp h
    split_ifs at ht
    · cases ht
    · rw [flatMap_cons, flatMap_cons, brackets_arrange (hparts part mem_cons_self) ht,
        ih (fun p hp => hparts p (mem_cons_of_mem part hp)) hts]

lemma brackets_arrayElements {place : Position} (hrow : ∀ u ∈ row, u.IsPart)
    (h : arrayElements row place σ = .ok elements σ') :
    elements.flatMap brackets = bracketsList row := by
  unfold arrayElements at h
  split_ifs at h with hempty
  · cases h
    rw [isEmpty_iff.mp hempty]
    rfl
  · rw [bracketsList_mapM_arrange (fun part hpart u hu => hrow u (mem_of_mem_splitCommas hpart hu)) h,
      bracketsList, ← commaJoin_splitCommas, filter_commaJoin, flatMap_map]
    rfl

lemma filter_bracketed (k : Bracket) (inner : List Atom) :
    (Atom.mark k.openingText :: inner ++ [Atom.mark k.closingText]).filter Atom.isBracket =
      .mark k.openingText :: inner.filter Atom.isBracket ++ [.mark k.closingText] := by
  have hopening : (Atom.mark k.openingText).isBracket = true := by cases k <;> rfl
  have hclosing : (Atom.mark k.closingText).isBracket = true := by cases k <;> rfl
  simp [hopening, hclosing]

lemma brackets_closeBlock {k : Bracket} (hrow : ∀ u ∈ row, u.IsPart)
    (h : closeBlock row statements k σ = .ok t σ') :
    t.brackets = .mark k.openingText :: (bracketsList statements ++ bracketsList row) ++
      [.mark k.closingText] := by
  cases k with
  | round =>
    obtain ⟨nodes, σ1, hclose, h⟩ := bind_eq_ok.mp h
    cases h
    rw [← bracketsList_closeRow hrow hclose, bracketsList, ← filter_bracketed .round, brackets]
    simp [Bracket.openingText, Bracket.closingText]
  | curly =>
    obtain ⟨nodes, σ1, hclose, h⟩ := bind_eq_ok.mp h
    cases h
    rw [← bracketsList_closeRow hrow hclose, bracketsList, ← filter_bracketed .curly, brackets]
    simp [Bracket.openingText, Bracket.closingText]
  | square =>
    unfold closeBlock at h
    split_ifs at h with hempty
    · obtain ⟨elements, σ1, helements, h⟩ := bind_eq_ok.mp h
      unfold array at h
      split_ifs at h
      · cases h
      · obtain ⟨opening, σ2, hopening, hrest⟩ := bind_eq_ok.mp h
        obtain ⟨inner, σ3, hinner, hnode⟩ := bind_eq_ok.mp hrest
        cases hopening
        cases hnode
        have hcommas := congrArg (List.filter Atom.isBracket) (atomsList_withCommas hinner)
        rw [filter_commaJoin, flatMap_map] at hcommas
        have helements : (Tree.atomsList inner).filter Atom.isBracket = bracketsList row :=
          hcommas.trans (brackets_arrayElements hrow helements)
        rw [isEmpty_iff.mp hempty, Tree.bracketsList_nil, nil_append, ← helements,
          ← filter_bracketed .square, brackets]
        simp [Bracket.openingText, Bracket.closingText]
    · cases h

lemma isPart_closeBlock {k : Bracket} (h : closeBlock row statements k σ = .ok t σ') :
    t.IsPart := by
  refine ⟨(closeBlock_whole h).2, fun hlayout => ?_⟩
  have hatom := (closeBlock_whole h).1
  cases t with
  | atom id a => cases hatom
  | _ => cases hlayout

lemma isPart_rowWith (hrow : ∀ u ∈ row, u.IsPart) (ht : t.IsPart) :
    ∀ u ∈ rowWith row t, u.IsPart := by
  unfold rowWith
  split
  · exact hrow
  · intro u hu
    obtain hu | hu := mem_append.mp hu
    · exact hrow u hu
    · rwa [mem_singleton.mp hu]

lemma bracketsList_rowWith (ht : t.IsPart) :
    bracketsList (rowWith row t) = bracketsList row ++ t.brackets := by
  unfold rowWith
  split
  · rename_i hend
    have hlayout : t.isLayout = true := by
      rw [Tree.isLayout, beq_iff_eq.mp hend]
      rfl
    rw [ht.2 hlayout, append_nil]
  · simp

end Build

namespace Item

open Tree (brackets bracketsList)

lemma atoms_cons (i : Item) (is : List Item) : atoms (i :: is) = atoms [i] ++ atoms is := by
  rw [← singleton_append, atoms_append]

mutual

theorem brackets_build (stop : Stop) : ∀ i : Item, i.Facing → ∀ {σ σ' : BuildState} {t : Tree},
    i.build stop σ = .ok t σ' → t.brackets = (atoms [i]).filter Atom.isBracket ∧ t.IsPart
  | .token u, hfacing, σ, σ', t, h => by
    obtain ⟨id, a, rfl, ho, hc⟩ := hfacing
    rw [build_token] at h
    cases h
    have hnone : (Tree.atom id a).brackets = [] := by
      simp [brackets, Atom.isBracket, ho, hc]
    exact ⟨hnone.trans (by simp [atoms, Tree.atom?, Atom.isBracket, ho, hc]), rfl, fun _ => hnone⟩
  | .group o c content, hfacing, σ, σ', t, h => by
    obtain ⟨k, ho, hc, hcontent⟩ := hfacing
    rw [build, hc] at h
    obtain ⟨left, σ1, hleft, hclose⟩ := bind_eq_ok.mp h
    obtain ⟨hbrackets, hparts⟩ := brackets_buildList _ content hcontent (by simp) hleft
    refine ⟨?_, Build.isPart_closeBlock hclose⟩
    rw [Build.brackets_closeBlock hparts hclose, hbrackets]
    obtain ⟨i, rfl⟩ := Build.eq_atom_of_opens? ho
    obtain ⟨j, rfl⟩ := Build.eq_atom_of_closes? hc
    rw [bracketsList, Tree.atomsList_nil, filter_nil, nil_append, nil_append,
      ← Build.filter_bracketed]
    simp [atoms, Tree.atom?]

theorem brackets_buildList (stop : Stop) : ∀ is : List Item, FacingList is →
    ∀ {row statements : List Tree} {left : List Tree × List Tree} {σ σ' : BuildState},
    (∀ u ∈ row, u.IsPart) → buildList stop is row statements σ = .ok left σ' →
      bracketsList left.2 ++ bracketsList left.1 =
        bracketsList statements ++ bracketsList row ++ (atoms is).filter Atom.isBracket ∧
      ∀ u ∈ left.1, u.IsPart
  | [], _, row, statements, left, σ, σ', hrow, h => by
    rw [buildList_nil] at h
    cases h
    exact ⟨by simp [atoms], hrow⟩
  | i :: is, hfacing, row, statements, left, σ, σ', hrow, h => by
    rw [FacingList] at hfacing
    rw [buildList_cons] at h
    obtain ⟨t, σ1, ht, h⟩ := bind_eq_ok.mp h
    obtain ⟨hbrackets, hpart⟩ := brackets_build stop i hfacing.1 ht
    have hrow' := Build.isPart_rowWith hrow hpart
    rw [atoms_cons, filter_append, ← hbrackets]
    split_ifs at h
    · obtain ⟨nodes, σ2, hclose, h⟩ := bind_eq_ok.mp h
      obtain ⟨hrest, hparts⟩ := brackets_buildList stop is hfacing.2 (by simp) h
      refine ⟨?_, hparts⟩
      rw [hrest, Build.bracketsList_closeRow hrow' hclose, Build.bracketsList_rowWith hpart]
      simp
    · obtain ⟨hrest, hparts⟩ := brackets_buildList stop is hfacing.2 hrow' h
      refine ⟨?_, hparts⟩
      rw [hrest, Build.bracketsList_rowWith hpart]
      simp

end

end Item

namespace Script

variable {text message : String}

/-- A text that is not a row of tokens has a quote that is not closed, which is not about brackets. -/
lemma ne_unbalanced_of_lex {place : Position} :
    Atom.lex text ≠ .error (.unbalanced place message) := by
  intro h
  unfold Atom.lex at h
  cases hgroup : Lexeme.group (Lexeme.split text) with
  | error fault =>
    rw [hgroup] at h
    cases h
    obtain ⟨quote, body, hout, hquote, hbody⟩ :=
      Lexeme.exists_of_groupFrom_eq_error (.plain .start) hgroup
    obtain ⟨front, hfront⟩ := hout.suffix
    rw [Lexeme.group_eq_error hfront hout hquote hbody] at hgroup
    simp [Fault.error, Fault.unbalanced] at hgroup
  | ok pieces =>
    rw [hgroup] at h
    cases h

/-- What can be reported about brackets is not the case where they are nested. -/
lemma ne_unbalanced_of_nested {tokens : List Atom} (hlex : Atom.lex text = .ok tokens)
    (hnested : Nested tokens) (hplain : ∀ a ∈ tokens, a.isReplacing = false) {firstId : NodeId}
    {place : Position} : read text firstId ≠ .error (.unbalanced place message) := by
  intro h
  have hreport := reportable_of_read hlex hplain h
  have hclosed : openAfter [] ((leaves firstId (tokens ++ [.fileEnd])).filterMap Tree.atom?) =
      some [] := by
    rw [filterMap_leaves, openAfter_append, openAfter_of_nested hnested]
    rfl
  generalize hd : (⟨.unbalanced, place, message⟩ : Diagnostic) = d at hreport
  cases hreport with
  | unclosed hrow hbefore ho hcontent =>
    rw [hrow] at hclosed
    cases (hbefore.bracket ho hcontent).eq_of_openAfter hclosed
  | @unopened around before after c k hrow hbefore hc hk =>
    rw [hrow, filterMap_append, openAfter_append] at hclosed
    obtain ⟨stack, hstack, hclosed⟩ := Option.bind_eq_some_iff.mp hclosed
    obtain rfl := hbefore.eq_of_openAfter hstack
    obtain ⟨i, rfl⟩ := Build.eq_atom_of_closes? hc
    have hnone := Atom.opens?_of_closes? (Atom.closes?_closingText k)
    rw [filterMap_cons, Tree.atom?] at hclosed
    cases stack with
    | nil => simp [openAfter, hnone] at hclosed
    | cons k' stack =>
      simp only [openAfter, hnone, Atom.closes?_closingText, Option.ite_none_right_eq_some] at hclosed
      exact hk (hclosed.1 ▸ mem_cons_self)
  | emptyElement => cases hd
  | statement => cases hd

/-- Where the brackets of a script without directives are nested, reading it does not fail because of
its brackets, and if it does not fail at all, the tree has exactly the brackets of the script, in
order. -/
theorem brackets_of_nested {text : String}
    (h : ∀ tokens, Atom.lex text = .ok tokens →
      Nested tokens ∧ ∀ a ∈ tokens, a.isReplacing = false) (firstId : NodeId) :
    (∀ place message, read text firstId ≠ .error (.unbalanced place message)) ∧
      ∀ script tokens, read text firstId = .ok script → Atom.lex text = .ok tokens →
        script.tree.atoms.filter Atom.isBracket = tokens.filter Atom.isBracket := by
  constructor
  · intro place message hread
    cases hlex : Atom.lex text with
    | error fault =>
      rw [read, hlex] at hread
      cases hread
      exact ne_unbalanced_of_lex hlex
    | ok tokens =>
      obtain ⟨hnested, hplain⟩ := h tokens hlex
      exact ne_unbalanced_of_nested hlex hnested hplain hread
  · intro script tokens hread hlex
    obtain ⟨hnested, hplain⟩ := h tokens hlex
    obtain ⟨content, htokens, hopen, hbuild⟩ := (read_eq_ok_iff hlex hplain).mp hread
    obtain ⟨content', htokens', hfacing⟩ := hnested.exists_outline firstId
    have hopen' : Item.OpenList [] content' := Item.FacingList.open _ hfacing
    have hcontent : content = content' := by
      have houtline := outline_flatList hopen
      rw [htokens, ← htokens', outline_flatList hopen'] at houtline
      exact (Option.some.inj houtline).symm
    subst hcontent
    obtain ⟨left, σ₁, statements, σ₂, hleft, hclose, hnode⟩ := buildScript_eq_ok.mp hbuild
    obtain ⟨hbrackets, hparts⟩ := Item.brackets_buildList .both content hfacing (by simp) hleft
    have hstatements := Build.bracketsList_closeRow hparts hclose
    have hatoms : Item.atoms content = tokens := by
      rw [Item.atoms, htokens, filterMap_leaves]
    generalize script.tree = tree, BuildState.mk script.nextId [] = σ' at hnode
    cases hnode
    rw [Tree.atoms_statement, ← hatoms]
    exact hstatements.trans (hbrackets.trans (by simp))

theorem brackets_of_nested_array :
    ∃ tokens, Atom.lex "[(\"a\"),\x7b\x7d]" = .ok tokens ∧ Nested tokens ∧
      (∀ a ∈ tokens, a.isReplacing = false) ∧
      (∀ place message, read "[(\"a\"),\x7b\x7d]" 0 ≠ .error (.unbalanced place message)) ∧
      ∃ script, read "[(\"a\"),\x7b\x7d]" 0 = .ok script ∧
        script.tree.atoms.filter Atom.isBracket = tokens.filter Atom.isBracket := by
  let tokens : List Atom := [.mark "[", .mark "(", .string (some ⟨'"', "a"⟩), .mark ")", .mark ",",
    .mark "\x7b", .mark "\x7d", .mark "]"]
  have hlex : Atom.lex "[(\"a\"),\x7b\x7d]" = .ok tokens := rfl
  have hnested : Nested tokens := by
    have hround : Nested [.mark "(", .string (some ⟨'"', "a"⟩), .mark ")"] :=
      .group (k := .round) rfl rfl (.token rfl rfl .nil) .nil
    have hcurly : Nested [.mark ",", .mark "\x7b", .mark "\x7d"] :=
      .token rfl rfl (.group (k := .curly) rfl rfl .nil .nil)
    exact .group (k := .square) rfl rfl (hround.append hcurly) .nil
  have hplain : ∀ a ∈ tokens, a.isReplacing = false := by decide
  obtain ⟨script, hread, -⟩ := exists_eq_ok_of_any
    (x := read "[(\"a\"),\x7b\x7d]" 0) (p := fun _ => true) (by decide +kernel)
  have hall : ∀ tokens', Atom.lex "[(\"a\"),\x7b\x7d]" = .ok tokens' →
      Nested tokens' ∧ ∀ a ∈ tokens', a.isReplacing = false := by
    intro tokens' hlex'
    cases hlex.symm.trans hlex'
    exact ⟨hnested, hplain⟩
  obtain ⟨hspares, hbrackets⟩ := brackets_of_nested hall 0
  exact ⟨tokens, hlex, hnested, hplain, hspares, script, hread, hbrackets script tokens hread hlex⟩

end Script

end ArmaScript
