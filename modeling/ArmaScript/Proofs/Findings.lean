import ArmaScript.Proofs.Lossless
import ArmaScript.Proofs.Rejecting

/-!
# What is reported about a script

About tokens without directives that replace some, the reader has four things to report: a bracket that
is never closed, one that closes nothing, an array with an element that has no tokens, and an array
that holds a statement. Each of them is found while some block is read, and the brackets that are open
around this block are those that the tokens before it leave open.
-/

namespace ArmaScript

open Item List

/-- What is reported about a closing bracket where none of its kind is open. -/
def Bracket.unopenedMessage : Bracket → String
  | .square => "Trying to close right parenthesis without them opened."
  | .round => "Trying to close parenthesis without opened parenthesis."
  | .curly => "Trying to close brackets without opened brackets."

/-- Tokens that leave the brackets `around` open, the innermost first. What stands in front of the first
of them, and behind each of them, has an outline. -/
inductive LeavesOpen : List Bracket → List Tree → Prop where
  | nothing {content : List Item} (hcontent : OpenList [] content) :
      LeavesOpen [] (flatList content)
  | bracket {around : List Bracket} {before : List Tree} {o : Tree} {k : Bracket}
      {content : List Item} (hbefore : LeavesOpen around before) (ho : o.opens? = some k)
      (hcontent : OpenList (k :: around) content) :
      LeavesOpen (k :: around) (before ++ o :: flatList content)

/-- Tokens behind which a block starts inside the brackets `around`. -/
inductive Leads : List Bracket → List Tree → Prop where
  | start : Leads [] []
  | behind {around : List Bracket} {before : List Tree} {o : Tree} {k : Bracket}
      (hbefore : LeavesOpen around before) (ho : o.opens? = some k) :
      Leads (k :: around) (before ++ [o])

lemma Leads.append {around : List Bracket} {front : List Tree} (h : Leads around front)
    {content : List Item} (hcontent : OpenList around content) :
    LeavesOpen around (front ++ flatList content) := by
  cases h with
  | start => exact .nothing hcontent
  | behind hbefore ho =>
    rw [append_assoc]
    exact .bracket hbefore ho hcontent

/-- What can be reported about a row of tokens, and where. -/
inductive Reportable (row : List Tree) : Diagnostic → Prop where
  /-- The row ends, and the innermost open bracket is not closed. -/
  | unclosed {around : List Bracket} {before : List Tree} {o : Tree} {k : Bracket}
      {content : List Item} {message : String} (hrow : row = before ++ o :: flatList content)
      (hbefore : LeavesOpen around before) (ho : o.opens? = some k)
      (hcontent : OpenList (k :: around) content)
      (hmessage : (Levels.ofOpen (k :: around)).unclosed? = some message) :
      Reportable row ⟨.unbalanced, .afterText (Tree.textList before), message⟩
  /-- A bracket is closed of whose kind none is open. -/
  | unopened {around : List Bracket} {before after : List Tree} {c : Tree} {k : Bracket}
      (hrow : row = before ++ c :: after) (hbefore : LeavesOpen around before)
      (hc : c.closes? = some k) (hk : k ∉ around) :
      Reportable row ⟨.unbalanced, .afterText (Tree.textList before), k.unopenedMessage⟩
  /-- An array has an element without tokens. -/
  | emptyElement {around : List Bracket} {before after : List Tree} {o c : Tree} {k : Bracket}
      {content : List Item} (hrow : row = before ++ o :: flatList content ++ c :: after)
      (ho : o.opens? = some k) (hcontent : OpenList (k :: around) content)
      (hc : c.closes? = some .square) (hne : content ≠ []) (hempty : [] ∈ parts content) :
      Reportable row ⟨.error, .afterText (Tree.textList (before ++ o :: flatList content)),
        "Array cannot have an empty element"⟩
  /-- An array holds a statement. -/
  | statement {before after : List Tree} {c : Tree} (hrow : row = before ++ c :: after)
      (hc : c.closes? = some .square) (text : String) :
      Reportable row ⟨.error, .afterText (Tree.textList before),
        "A statement " ++ text ++ " cannot be in an array"⟩

/-- If items are built without the end of a statement, each of them has its node in the row. -/
lemma Item.written_of_buildList {stop : Stop} {around : List Bracket} {is : List Item}
    {left : List Tree × List Tree} {σ σ' : BuildState} (hopen : OpenList around is)
    (htokens : ∀ t ∈ flatList is, t.IsToken)
    (h : buildList stop is [] [] σ = .ok left σ') (hnone : left.2 = []) :
    Forall₂ (Written stop) is left.1 := by
  obtain ⟨done, last, nodes, hrows, hlast, hnodes, hdone⟩ :=
    rows_buildList (written_buildAll stop is hopen htokens) .nil h
  obtain rfl : nodes = [] := by simpa [hnone] using hnodes.symm
  cases hdone
  have hflat := flatten_rows stop [] is
  rw [hrows, nil_append, flatten_singleton] at hflat
  rwa [hflat] at hlast

lemma except_ok_ne_error {ε α : Type} (a : α) (e : ε) : (.ok a : Except ε α) ≠ .error e := by
  intro h
  cases h

lemma except_bind_ne_error {ε α β : Type} {x : Except ε α} {f : α → Except ε β} {e : ε}
    (hx : x ≠ .error e) (hf : ∀ a, f a ≠ .error e) : (x >>= f) ≠ .error e := by
  cases x with
  | error e' => exact fun h => hx (congrArg Except.error (Except.error.inj h))
  | ok a => exact hf a

namespace Precedence

/-- A row that cannot be arranged is not a finding about the script. -/
lemma operand_start_operators_ne_reported {α : Type} (items : Items α) (d : Diagnostic)
    (fuel : Nat) : (∀ bound s, operand items fuel bound s ≠ .error (.reported d)) ∧
      (∀ a s, start items fuel a s ≠ .error (.reported d)) ∧
      ∀ bound left s, operators items fuel bound left s ≠ .error (.reported d) := by
  induction fuel with
  | zero =>
    refine ⟨fun bound s h => ?_, fun a s h => ?_, fun bound left s h => ?_⟩
    · rw [operand] at h
      cases h
    · rw [start] at h
      cases h
    · rw [operators] at h
      cases h
  | succ fuel ih =>
    obtain ⟨hoperand, hstart, hoperators⟩ := ih
    refine ⟨fun bound s => ?_, fun a s => ?_, fun bound left s => ?_⟩
    · rw [operand]
      split
      · split <;> simp
      · exact except_bind_ne_error (hstart _ _) fun _ => hoperators _ _ _
    · rw [start]
      refine except_bind_ne_error ?_ fun how => ?_
      · intro h
        unfold opening at h
        dsimp only at h
        split_ifs at h
        split at h
        · cases h
        · split at h <;> cases h
      · cases how with
        | alone => exact except_ok_ne_error _ _
        | one => exact except_bind_ne_error (hoperand _ _) fun _ => except_ok_ne_error _ _
        | three =>
          exact except_bind_ne_error (hoperand _ _) fun _ => except_bind_ne_error (hoperand _ _)
            fun _ => except_bind_ne_error (hoperand _ _) fun _ => except_ok_ne_error _ _
    · rw [operators]
      split
      · exact except_ok_ne_error _ _
      · dsimp only
        split_ifs
        · exact except_ok_ne_error _ _
        · exact except_bind_ne_error (hoperand _ _) fun _ => hoperators _ _ _
        · exact except_ok_ne_error _ _

lemma arrange_ne_reported {α : Type} (items : Items α) (row : List α) (d : Diagnostic) :
    arrange items row ≠ .error (.reported d) := by
  unfold arrange
  split
  · simp
  · exact except_bind_ne_error ((operand_start_operators_ne_reported items d _).1 _ _) fun _ =>
      except_ok_ne_error _ _

end Precedence

namespace Build

variable {row statements : List Tree} {σ σ' : BuildState} {d : Diagnostic}

lemma arrange_ne_reported : arrange row σ ≠ .error (.reported d) σ' := by
  have hended {t : Tree} {ending : Option Ending} {σ1 : BuildState}
      (h : setEnding t ending σ1 = .error (.reported d) σ') : False := by
    obtain ⟨u, σ2, hu⟩ := exists_setEnding t ending σ1
    cases hu.symm.trans h
  intro h
  obtain h | ⟨e, σ1, -, h⟩ := bind_eq_error.mp h
  · change lift (Precedence.arrange items (bodyOf row)) σ = _ at h
    cases he : Precedence.arrange items (bodyOf row) with
    | ok e =>
      rw [he] at h
      cases h
    | error fault =>
      rw [he] at h
      cases h
      exact Precedence.arrange_ne_reported items _ d he
  obtain h | ⟨t, σ2, -, h⟩ := bind_eq_error.mp h
  · obtain ⟨t, σ2, ht⟩ := exists_ofExp e σ1
    cases ht.symm.trans h
  split at h
  · exact hended h
  · obtain h | ⟨u, σ3, -, h⟩ := bind_eq_error.mp h
    · cases h
    · exact hended h

lemma closeRow_ne_reported : closeRow row statements σ ≠ .error (.reported d) σ' := by
  intro h
  unfold closeRow at h
  split_ifs at h
  · cases h
  · obtain h | ⟨t, σ1, -, h⟩ := bind_eq_error.mp h
    · exact arrange_ne_reported h
    · cases h

lemma close_ne_reported {b : Block} : b.close σ ≠ .error (.reported d) σ' := by
  intro h
  unfold Block.close at h
  split_ifs at h
  · cases h
  · obtain h | ⟨t, σ1, -, h⟩ := bind_eq_error.mp h
    · exact arrange_ne_reported h
    · cases h

lemma array_ne_reported {elements : List Tree} : array elements σ ≠ .error (.reported d) σ' := by
  intro h
  unfold array at h
  split_ifs at h
  · cases h
  · obtain h | ⟨o, σ1, -, h⟩ := bind_eq_error.mp h
    · cases h
    obtain h | ⟨inner, σ2, -, h⟩ := bind_eq_error.mp h
    · obtain ⟨inner, σ2, hinner⟩ := exists_withCommas elements σ1
      cases hinner.symm.trans h
    · cases h

lemma reported_arrayElements {place : Position}
    (h : arrayElements row place σ = .error (.reported d) σ') :
    row ≠ [] ∧ [] ∈ splitCommas row ∧ d = ⟨.error, place, "Array cannot have an empty element"⟩ := by
  unfold arrayElements at h
  split_ifs at h with hempty
  · cases h
  · refine ⟨by simpa using hempty, ?_⟩
    generalize splitCommas row = parts at h
    induction parts generalizing σ with
    | nil => cases h
    | cons part parts ih =>
      rw [mapM_cons] at h
      obtain h | ⟨t, σ1, ht, h⟩ := bind_eq_error.mp h
      · split_ifs at h with hpart
        · cases h
          rw [isEmpty_iff.mp hpart]
          exact ⟨mem_cons_self, rfl⟩
        · exact absurd h arrange_ne_reported
      · obtain h | ⟨ts, σ2, -, h⟩ := bind_eq_error.mp h
        · obtain ⟨hmem, hd⟩ := ih h
          exact ⟨mem_cons_of_mem part hmem, hd⟩
        · cases h

lemma nil_mem_iff_of_forall₂ {α β : Type} {R : α → β → Prop} {xss : List (List α)}
    {yss : List (List β)} (h : Forall₂ (Forall₂ R) xss yss) : [] ∈ xss ↔ [] ∈ yss := by
  induction h with
  | nil => simp
  | cons hxs _ ih => cases hxs <;> simp [ih]

section

variable {read : Reader} {row : Array Tree} {start : Nat} {stop : Stop} {b : Block} {t : Tree}
  {around : List Bracket} {content : List Item} {σ0 σ σ' : BuildState} {d : Diagnostic}

lemma placeAfter_natCast (row : Array Tree) (i : Nat) :
    placeAfter row i = .afterText (Tree.textList (row.toList.take i)) := by
  unfold placeAfter textUpTo
  rw [if_neg (by omega)]
  rfl

namespace Reading

variable (hr : Reading stop around row.toList start σ0 b content σ)
include hr

/-- The tokens in front of the next one. -/
lemma take_index :
    row.toList.take (start + (flatList content).length) =
      row.toList.take start ++ flatList content := by
  rw [take_add, hr.read, take_left]

/-- The tokens before, in and behind a block. -/
lemma row_eq (ht : row[start + (flatList content).length]? = some t) :
    row.toList = row.toList.take start ++ flatList content ++
      t :: row.toList.drop (start + (flatList content).length + 1) := by
  rw [← hr.take_index, ← drop_index ht, take_append_drop]

/-- Where nothing but items was read, each of them has its node. -/
lemma written (htokens : ∀ u ∈ flatList content, u.IsToken) (hnone : b.statements.toList = []) :
    Forall₂ (Written stop) content b.row.toList :=
  written_of_buildList hr.fits htokens hr.built hnone

lemma reportable_closeArray (hleads : Leads around (row.toList.take start))
    (ht : row[start + (flatList content).length]? = some t) (hc : t.closes? = some .square)
    (hopen : .square ∈ around) (htokens : ∀ u ∈ flatList content, u.IsToken)
    (h : closeArray row b σ = .error (.reported d) σ') : Reportable row.toList d := by
  have hrow := hr.row_eq ht
  have hplace : placeAfter row b.index =
      .afterText (Tree.textList (row.toList.take start ++ flatList content)) := by
    rw [hr.index, placeAfter_natCast, hr.take_index]
  unfold closeArray at h
  rw [hplace] at h
  cases hstatements : b.statements.toList with
  | nil =>
    rw [hstatements] at h
    obtain h | ⟨elements, σ1, helements, h⟩ := bind_eq_error.mp h
    · obtain ⟨hne, hempty, rfl⟩ := reported_arrayElements h
      have hwritten := hr.written htokens hstatements
      have hparts : [] ∈ parts content :=
        (nil_mem_iff_of_forall₂ (written_parts hwritten)).mpr hempty
      generalize row.toList.take start = front at hleads hrow ⊢
      cases hleads with
      | start => cases hopen
      | behind hbefore ho =>
        rw [append_assoc]
        refine .emptyElement (by simpa using hrow) ho hr.fits hc ?_ hparts
        rintro rfl
        exact hne (forall₂_nil_left_iff.mp hwritten)
    · exact absurd h array_ne_reported
  | cons u us =>
    have hu : u.kind = .statement := buildList_kind hr.built (by simp) u (by simp [hstatements])
    rw [hstatements] at h
    cases u with
    | expansion id definition result cs => cases hu
    | _ =>
      cases h
      exact .statement hrow hc _

lemma reportable_closing (hleads : Leads around (row.toList.take start))
    (ht : row[start + (flatList content).length]? = some t) {k : Bracket}
    (hc : t.closes? = some k) (htokens : ∀ u ∈ flatList content, u.IsToken)
    (h : stepToken read row start stop b t σ = .error (.reported d) σ') : Reportable row.toList d := by
  obtain ⟨id, rfl⟩ := eq_atom_of_closes? hc
  have hplace : placeAfter row b.index =
      .afterText (Tree.textList (row.toList.take start ++ flatList content)) := by
    rw [hr.index, placeAfter_natCast, hr.take_index]
  have hunopened (hk : around.count k = 0) : Reportable row.toList
      ⟨.unbalanced, placeAfter row b.index, k.unopenedMessage⟩ := by
    rw [hplace]
    exact .unopened (hr.row_eq ht) (hleads.append hr.fits) hc (count_eq_zero.mp hk)
  have hlevels := hr.levels
  cases k with
  | square =>
    change (if b.levels.array = 0 then _ else _ : Build Step) σ = _ at h
    rw [hlevels] at h
    split_ifs at h with hk
    · cases h
      exact hunopened hk
    · obtain h | ⟨node, σ1, -, h⟩ := bind_eq_error.mp h
      · exact hr.reportable_closeArray hleads ht hc
          (count_pos_iff.mp (Nat.pos_of_ne_zero hk)) htokens h
      · cases h
  | round =>
    change (if b.levels.paren = 0 then _ else _ : Build Step) σ = _ at h
    rw [hlevels] at h
    split_ifs at h with hk
    · cases h
      exact hunopened hk
    · obtain h | ⟨statements, σ1, -, h⟩ := bind_eq_error.mp h
      · exact absurd h close_ne_reported
      · cases h
  | curly =>
    change (if b.levels.code = 0 then _ else _ : Build Step) σ = _ at h
    rw [hlevels] at h
    split_ifs at h with hk
    · cases h
      exact hunopened hk
    · obtain h | ⟨statements, σ1, -, h⟩ := bind_eq_error.mp h
      · exact absurd h close_ne_reported
      · cases h

end Reading

/-- A reader that reports about blocks without directives what can be reported. -/
def Reports (read : Reader) : Prop :=
  ∀ ⦃row⦄ ⦃start : Nat⦄ ⦃around stop σ d σ'⦄, row ≠ #[] → (∀ t ∈ row, t.isReplacing = false) →
    (∀ t ∈ row.toList.dropLast, t.IsToken) → σ.definitions = [] → start ≤ row.size →
    Leads around (row.toList.take start) →
    read row start (.ofOpen around) stop σ = .error (.reported d) σ' → Reportable row.toList d

namespace Reading

lemma reportable_step (hread : Reports read) (hplain : ∀ t ∈ row, t.isReplacing = false)
    (htokens : ∀ t ∈ row.toList.dropLast, t.IsToken)
    (hr : Reading stop around row.toList start σ0 b content σ)
    (hleads : Leads around (row.toList.take start))
    (ht : row[start + (flatList content).length]? = some t)
    (h : stepToken read row start stop b t σ = .error (.reported d) σ') : Reportable row.toList d := by
  have hrow := hr.row_eq ht
  cases ho : t.opens? with
  | some k =>
    have hne : row ≠ #[] := by
      rintro rfl
      cases ht
    rw [stepToken_opening ho, hr.levels, Levels.push_ofOpen] at h
    obtain h | ⟨p, σ1, -, h⟩ := bind_eq_error.mp h
    · have hnext : b.index + 1 = (start + (flatList content).length + 1 : Nat) := by
        rw [hr.index]
        rfl
      rw [hnext] at h
      refine hread hne hplain htokens hr.definitions (Array.getElem?_eq_some_iff.mp ht).1 ?_ h
      rw [take_add_one, hr.take_index, Array.getElem?_toList, ht]
      exact .behind (hleads.append hr.fits) ho
    · cases h
  | none =>
    cases hc : t.closes? with
    | some k =>
      refine hr.reportable_closing hleads ht hc (fun u hu => htokens u ?_) h
      rw [hrow, dropLast_append_of_ne_nil (by simp)]
      simp [hu]
    | none =>
      have hlevels : b.levels.inDirective = false := by
        rw [hr.levels]
        rfl
      rw [stepToken_plain ho hc (hplain t (Array.mem_of_getElem? ht)) hlevels] at h
      split_ifs at h
      · obtain h | ⟨statements, σ1, -, h⟩ := bind_eq_error.mp h
        · exact absurd h closeRow_ne_reported
        · cases h
      · cases h

lemma reportable_end (hr : Reading stop around row.toList start σ0 b content σ)
    (hstart : start ≤ row.size) (hleads : Leads around (row.toList.take start))
    (ht : row[start + (flatList content).length]? = none) {message : String}
    (hmessage : b.levels.unclosed? = some message) :
    Reportable row.toList ⟨.unbalanced, placeAfter row (start - 1), message⟩ := by
  have hdrop : row.toList.drop (start + (flatList content).length) = [] := by simpa using ht
  have hrow : row.toList = row.toList.take start ++ flatList content := by
    conv_lhs => rw [← take_append_drop start row.toList, hr.read, hdrop, append_nil]
  rw [hr.levels] at hmessage
  generalize hfront : row.toList.take start = front at hleads hrow
  cases hleads with
  | start => cases hmessage
  | @behind around before o k hbefore ho =>
    have hlength : start = before.length + 1 := by
      have hlength := congrArg length hfront
      rwa [length_take, Array.length_toList, Nat.min_eq_left hstart, length_append] at hlength
    have hplace : placeAfter row (start - 1) = .afterText (Tree.textList before) := by
      rw [hlength, Int.natCast_add, Int.natCast_one, Int.add_sub_cancel, placeAfter_natCast, hrow]
      simp
    rw [hplace]
    exact .unclosed (by simpa using hrow) hbefore ho hr.fits hmessage

lemma reportable_blockFrom (hsound : Sound read) (hread : Reports read)
    (hplain : ∀ t ∈ row, t.isReplacing = false) (htokens : ∀ t ∈ row.toList.dropLast, t.IsToken)
    (hstart : start ≤ row.size) (hleads : Leads around (row.toList.take start)) {fuel : Nat}
    (hr : Reading stop around row.toList start σ0 b content σ)
    (h : Build.blockFrom read row start stop fuel b σ = .error (.reported d) σ') :
    Reportable row.toList d := by
  induction fuel generalizing b content σ with
  | zero => cases h
  | succ fuel ih =>
    rw [blockFrom_succ hr.index] at h
    cases ht : row[start + (flatList content).length]? with
    | none =>
      rw [ht] at h
      dsimp only at h
      cases hl : b.levels.unclosed? with
      | some message =>
        rw [hl] at h
        cases h
        exact hr.reportable_end hstart hleads ht hl
      | none =>
        rw [hl] at h
        obtain h | ⟨statements, σ1, -, h⟩ := bind_eq_error.mp h
        · exact absurd h close_ne_reported
        · cases h
    | some t =>
      rw [ht] at h
      have hmem : t.isReplacing = false := hplain t (Array.mem_of_getElem? ht)
      obtain h | ⟨how, σ1, hstep, h⟩ := bind_eq_error.mp h
      · rw [step_eq_stepToken hmem hr.definitions] at h
        exact hr.reportable_step hread hplain htokens hleads ht h
      rw [step_eq_stepToken hmem hr.definitions] at hstep
      cases ho : t.opens? with
      | some k =>
        obtain ⟨b', content', rfl, hr'⟩ := hr.opened ht ho hsound hplain hstep
        exact ih hr' h
      | none =>
        cases hc : t.closes? with
        | some k =>
          obtain ⟨node, rfl, -⟩ := hr.closed ht hc hstep
          cases h
        | none =>
          obtain ⟨b', content', rfl, hr'⟩ := hr.plain ht ho hc hmem hstep
          exact ih hr' h

end Reading

lemma reports_block (depth : Nat) : Reports (block depth) := by
  induction depth with
  | zero =>
    intro row start around stop σ d σ' _ _ _ _ _ _ h
    cases h
  | succ depth ih =>
    intro row start around stop σ d σ' hne hplain htokens hσ hstart hleads h
    rw [block, if_neg (by simpa using hne)] at h
    have hr : Reading stop around row.toList start σ ⟨start, #[], #[], .ofOpen around⟩ [] σ :=
      ⟨by simp, by simp, trivial, by rw [buildList_nil]; rfl, rfl, hσ⟩
    exact hr.reportable_blockFrom (sound_block depth) ih hplain htokens hstart hleads h

end

end Build

namespace Script

/-- What is reported about a script without directives that replace tokens. -/
lemma reportable_of_read {text : String} {tokens : List Atom} (hlex : Atom.lex text = .ok tokens)
    (hplain : ∀ a ∈ tokens, a.isReplacing = false) {firstId : NodeId} {d : Diagnostic}
    (h : read text firstId = .error (.reported d)) :
    Reportable (leaves firstId (tokens ++ [.fileEnd])) d := by
  have htokens : ∀ t ∈ (leaves firstId (tokens ++ [.fileEnd])).dropLast, t.IsToken := by
    rw [leaves_append, leaves, leaves, dropLast_concat]
    intro t ht
    refine isToken_of_mem_leaves (fun a ha => ⟨?_, ?_⟩) ht
    · exact Atom.text_ne_empty_of_lex hlex a ha
    · exact Atom.kind_ne_fileEnd_of_lex hlex a ha
  rw [read_eq_of_lex hlex] at h
  cases hblock : Build.block (tokens.length + 1 + Build.expansionLimit)
      (leaves firstId (tokens ++ [.fileEnd])).toArray 0 .none .both
      ⟨firstId + (tokens.length + 1), []⟩ with
  | ok p σ =>
    rw [hblock] at h
    cases h
  | error fault σ =>
    rw [hblock] at h
    cases h
    exact Build.reports_block _ (row_ne_empty firstId tokens) (isReplacing_row hplain firstId) htokens
      rfl (Nat.zero_le _) .start hblock

end Script

end ArmaScript
