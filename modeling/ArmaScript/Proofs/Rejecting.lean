import ArmaScript.Proofs.Quotes
import ArmaScript.Proofs.Tracking

/-!
# Scripts that are rejected

Without `#define` and `#else`, a script that cannot be read has an error that is reported with its
place. No index runs out of its row, every row of nodes can be arranged, and reading comes to an end:
each step of a block goes on by a token, and a block inside starts behind a token that opens
something, of which there are fewer left. What a conditional stands for has fewer of them as well.

The one exception is an array without elements. The reader takes `[]` for one, and in the same way
`(]`, where the `]` closes an array around the parenthesis.
-/

namespace ArmaScript

open Tree List

namespace Build

/-! ### Blocks -/

/-- A reader that fails only in the allowed ways, wherever less than `depth` tokens open something. -/
def SafeReader (allowed : Fault → Prop) (depth : Nat) (read : Reader) : Prop :=
  ∀ ⦃row : Array Tree⦄ ⦃start : Nat⦄ ⦃levels : Levels⦄ (stop : Stop), IsUsualRow row →
    Decent allowed row → start ≤ row.size → Enters row start levels →
    openersUpTo row row.size < depth + openersUpTo row start →
    Safe allowed (read row start levels stop) fun p =>
      ∃ n : Nat, p.2 = n ∧ Gives (From row) start levels p.1 n

lemma isUsual_mark (text : String) (h : text ≠ "") : (Atom.mark text).IsUsual :=
  ⟨rfl, rfl, fun h' => absurd h' h⟩

section

variable {allowed : Fault → Prop} {row : Array Tree} {start i depth : Nat} {levels : Levels}
  {b : Block} {stop : Stop} {read : Reader}

lemma IsUsualRow.isOrdinaryRow (hrow : IsUsualRow row) : IsOrdinaryRow row := by
  intro t ht
  obtain ⟨id, a, rfl, ha⟩ := hrow t ht
  exact ⟨id, a, rfl, ha.define, ha.text⟩

lemma IsUsualRow.tracks_from (hrow : IsUsualRow row) : Tracks row (From row) where
  nil i := .nil (Nat.le_refl i)
  append _ h h' := h.append h'
  widen hi hj h := (h.mono_left hi).mono hj
  sublist hs h := h.sublist hs
  perm hp h := h.perm hp
  token ht := by
    obtain ⟨_, _, heq, ha⟩ := hrow _ (Array.mem_of_getElem? ht)
    cases heq
    exact .token ht ha
  opening k ht ha := .opening ht ha (isUsual_mark _ (by cases k <;> decide))
  closing i k := .closing i (isUsual_mark _ (by cases k <;> decide)) (by cases k <;> rfl)

lemma allows_of_isReported (hreported : ∀ fault, Fault.IsReported fault → allowed fault) :
    Allows allowed where
  unbalanced _ _ := hreported _ (by simp [Fault.unbalanced, Fault.IsReported])
  element _ := hreported _ (by simp [Fault.error, Fault.IsReported])
  statement _ _ := hreported _ (by simp [Fault.error, Fault.IsReported])

lemma isUsualRow_tokensList {ts : List Tree} (h : ∀ a ∈ atomsList ts, a.IsUsual) :
    IsUsualRow (tokensList ts).toArray := by
  intro t ht
  have ht : t ∈ tokensList ts := by simpa using ht
  obtain ⟨id, a, rfl⟩ := isAtom_of_mem_tokensList ts ht
  exact ⟨id, a, rfl, h a (mem_filterMap.mpr ⟨_, ht, rfl⟩)⟩

lemma openersUpTo_tokensList (ts : List Tree) :
    openersUpTo (tokensList ts).toArray (tokensList ts).toArray.size =
      Atom.openers (atomsList ts) := by
  rw [openersUpTo, size_toArray, take_length, atomsList_tokensList]

lemma safe_resolve (hreported : ∀ fault, Fault.IsReported fault → allowed fault) {d : Tree}
    {taken : List Tree} {size : Int} {isInner : Prop} (hd : startsConditional d = true)
    (hreads : ReadsConditional row start isInner d taken size)
    (helse : d.isDirective "#else" = false) (definitions : Definitions) (before : Position) :
    Safe allowed (lift (resolve (d :: taken) definitions before)) fun p =>
      atomsList p.2 = atomsList (d :: taken) ∧ (atomsList p.1).Sublist (atomsList taken) := by
  have helse : ∀ t ∈ d :: taken, t.isDirective "#else" = false := fun t ht => by
    rcases mem_cons.mp ht with rfl | ht
    · exact helse
    · exact hreads.otherwise t ht
  refine Safe.lift ?_
  rcases resolve_cases hd hreads.endif helse definitions before with
    ⟨taken', children, hresolve, hp⟩ | ⟨fault, hresolve, hfault⟩
  · exact .inl ⟨_, hresolve, hp⟩
  · exact .inr ⟨fault, hresolve, hreported _ hfault⟩

/-- The tokens begun before a conditional and those that it stands for have less tokens that open
something than the row. -/
lemma Block.Holds.openers_lt (hb : b.Holds (From row) row start levels i)
    (hdepth : openersUpTo row row.size < depth + 1 + openersUpTo row start) {id : NodeId} {a : Atom}
    (ht : row[i]? = some (.atom id a)) (hopener : a.isOpener = true) {taken taken' : List Tree}
    {size : Int} {isInner : Prop}
    (hreads : ReadsConditional row (i + 1) isInner (.atom id a) taken size)
    (hsub : (atomsList taken').Sublist (atomsList taken)) :
    Atom.openers (atomsList (b.row.toList ++ taken')) < depth := by
  have hone : Atom.openers [a] = 1 := by simp [Atom.openers, hopener]
  have hbegun := hb.atoms.openers
  have htaken := hreads.atoms.openers
  have hless : Atom.openers (atomsList taken') ≤ Atom.openers (atomsList taken) :=
    hsub.countP_le
  have hend := @openersUpTo_mono _ row _ hreads.inside
  have hnext := openersUpTo_succ ht
  rw [atoms_atom, hone] at hnext
  rw [Atom.openers_append] at hbegun
  rw [atomsList_append, Atom.openers_append]
  omega

lemma Block.Holds.safe_stepConditional (hb : b.Holds (From row) row start levels i)
    (hreported : ∀ fault, Fault.IsReported fault → allowed fault)
    (hread : SafeReader allowed depth read) (hrow : IsUsualRow row) (hdecent : Decent allowed row)
    (hdepth : openersUpTo row row.size < depth + 1 + openersUpTo row start) {t : Tree}
    (ht : row[i]? = some t) (hcond : startsConditional t = true) :
    Safe allowed (stepConditional read row stop b) (Step.Follows (From row) row start levels i) := by
  have hlt := (Array.getElem?_eq_some_iff.mp ht).1
  have hempty : allowed .emptyArray := by
    rcases hdecent with h | ⟨hno, -⟩
    · exact h
    · rw [hno t (Array.mem_of_getElem? ht)] at hcond
      cases hcond
  unfold stepConditional
  rw [hb.index]
  refine ((safe_conditional hrow (Nat.succ_pos i) hlt (by simp) (by omega)).allow hreported).bind ?_
  rintro ⟨node, size⟩ ⟨id, d, taken, hnode, hreads⟩
  obtain rfl : node = .conditional id (d :: taken) := hnode
  obtain rfl : d = t := Option.some.inj (hreads.directive.symm.trans ht)
  obtain ⟨did, a, rfl, ha⟩ := hrow d (Array.mem_of_getElem? ht)
  have hopener : a.isOpener = true := by
    simp only [startsConditional, isDirective, Bool.or_eq_true] at hcond
    simp only [Atom.isOpener, Bool.or_eq_true]
    tauto
  refine Safe.get_bind fun σ _ => (safe_resolve hreported hcond hreads ha.otherwise _ _).bind ?_
  rintro ⟨taken', children⟩ ⟨hchildren, hsub⟩
  dsimp only at hchildren hsub ⊢
  have husual : ∀ c ∈ atomsList (b.row.toList ++ taken'), c.IsUsual := by
    intro c hc
    rw [atomsList_append] at hc
    rcases mem_append.mp hc with hc | hc
    · exact hb.atoms.usual c (mem_append_right _ hc)
    · exact hreads.atoms.usual c (hsub.subset hc)
  have hless := hb.openers_lt hdepth ht hopener hreads hsub
  rw [← openersUpTo_tokensList] at hless
  refine (hread stop (isUsualRow_tokensList husual) (.inl hempty) (Nat.zero_le _) (.inl ⟨rfl, rfl⟩)
    (Nat.lt_add_right _ hless)).bind ?_
  rintro ⟨result, n⟩ -
  refine Safe.of_returns fun σ => ⟨_, _, rfl, rfl, ?_⟩
  -- the tokens of the conditional are those of its node, also where the row has brackets as nodes
  have hbegun := length_le_length_atomsList hb.text
  have hall : atomsList (b.row.toList ++ children) =
      atomsList b.row.toList ++ a :: atomsList taken := by
    simp [hchildren]
  let j := i + 1 + (atomsList taken).length +
    ((atomsList b.row.toList).length - b.row.toList.length)
  have hij : i + 1 + (atomsList taken).length ≤ j := Nat.le_add_right _ _
  have hatoms : From row start j (atomsList b.statements.toList ++
      (resolution σ.nextId result.children (b.row.toList ++ children)).atoms) := by
    simpa [hall] using ((hb.atoms.append (From.token ht ha)).append hreads.atoms).mono hij
  refine ⟨j, by omega, ?_⟩
  convert hb.pushStatement (by omega) hb.kind hatoms (by simp [Tree.kind]) using 2
  rw [← length_atomsList, hall]
  simp only [length_append, length_cons, j]
  omega

/-- Reading a script without `#define` and `#else` goes less than `depth` blocks deep where less than
`depth` tokens open something. -/
lemma safe_block (hreported : ∀ fault, Fault.IsReported fault → allowed fault) (depth : Nat) :
    SafeReader allowed depth (block depth) := by
  induction depth with
  | zero =>
    intro row start levels stop _ _ hle _ hdepth
    have := @openersUpTo_mono _ row _ hle
    omega
  | succ depth ih =>
    intro row start levels stop hrow hdecent hle henters hdepth
    refine safe_block_succ hrow.tracks_from (allows_of_isReported hreported) hrow.isOrdinaryRow
      hdecent hle henters (fun i hi id a levels stop ht ha => ?_) fun b i t hb ht hcond =>
        hb.safe_stepConditional hreported ih hrow hdecent hdepth ht hcond
    have hone : Atom.openers [a] = 1 := by simp [Atom.openers, ha]
    have hmono := @openersUpTo_mono _ row _ hi
    have hnext := openersUpTo_succ ht
    rw [atoms_atom, hone] at hnext
    exact ih stop hrow hdecent (Array.getElem?_eq_some_iff.mp ht).1
      (.inr ⟨Nat.succ_pos i, id, a, ht, ha⟩) (by omega)

end

end Build

/-! ### Scripts -/

lemma Lexeme.isReported_of_group {lexemes : List String} {fault : Fault}
    (h : group lexemes = .error fault) : fault.IsReported := by
  obtain ⟨quote, body, hout, hquote, hbody⟩ := exists_of_groupFrom_eq_error (.plain .start) h
  obtain ⟨front, hfront⟩ := hout.suffix
  rw [group_eq_error hfront hout hquote hbody] at h
  cases h
  simp [Fault.error, Fault.IsReported]

namespace Atom

lemma isReported_of_lex {text : String} {fault : Fault} (h : lex text = .error fault) :
    fault.IsReported := by
  unfold lex at h
  cases hgroup : Lexeme.group (Lexeme.split text) with
  | error fault' =>
    rw [hgroup] at h
    cases h
    exact Lexeme.isReported_of_group hgroup
  | ok pieces =>
    rw [hgroup] at h
    cases h

/-- Whether an array without elements may stand in a script: it has a conditional, or a `]` directly
behind a token that opens something. -/
def MayLackElements (tokens : List Atom) : Prop :=
  (∃ a ∈ tokens, a.isDirective "#ifdef" = true ∨ a.isDirective "#ifndef" = true) ∨
    ∃ front a rest, tokens = front ++ a :: .mark "]" :: rest ∧ a.isOpener = true

end Atom

namespace Script

lemma getElem?_leaves (firstId : NodeId) (tokens : List Atom) (i : Nat) :
    (leaves firstId tokens)[i]? = tokens[i]?.map (.atom (firstId + i)) := by
  induction tokens generalizing firstId i with
  | nil => simp [leaves]
  | cons a as ih =>
    cases i with
    | zero => simp [leaves]
    | succ i =>
      rw [leaves, getElem?_cons_succ, ih, getElem?_cons_succ, Nat.add_assoc, Nat.add_comm 1 i]

lemma atomsList_leaves (firstId : NodeId) (tokens : List Atom) :
    atomsList (leaves firstId tokens) = tokens := by
  induction tokens generalizing firstId with
  | nil => rfl
  | cons a as ih => simp [leaves, ih]

variable {tokens : List Atom} {text : String}

lemma isUsual_of_lex (hlex : Atom.lex text = .ok tokens)
    (h : ∀ a ∈ tokens, a.isDirective "#define" = false ∧ a.isDirective "#else" = false) :
    ∀ a ∈ tokens ++ [.fileEnd], a.IsUsual := by
  intro a ha
  rcases mem_append.mp ha with ha | ha
  · have htext := Atom.text_ne_empty_of_lex hlex a ha
    exact ⟨(h a ha).1, (h a ha).2, fun hempty => absurd hempty htext⟩
  · rw [mem_singleton.mp ha]
    exact ⟨rfl, rfl, fun _ => rfl⟩

lemma isUsualRow_leaves {firstId : NodeId} (h : ∀ a ∈ tokens, a.IsUsual) :
    Build.IsUsualRow (leaves firstId tokens).toArray := by
  intro t ht
  obtain ⟨i, hi⟩ := mem_iff_getElem?.mp (mem_toArray.mp ht)
  rw [getElem?_leaves] at hi
  obtain ⟨a, ha, rfl⟩ := Option.map_eq_some_iff.mp hi
  exact ⟨_, a, rfl, h a (mem_of_getElem? ha)⟩

lemma openers_leaves_lt (firstId : NodeId) (tokens : List Atom) :
    Build.openersUpTo (leaves firstId tokens).toArray (leaves firstId tokens).toArray.size <
      (leaves firstId tokens).length + Build.expansionLimit := by
  have hle : Atom.openers tokens ≤ tokens.length := countP_le_length
  have hpos : 0 < Build.expansionLimit := by decide
  rw [Build.openersUpTo, size_toArray, take_length, atomsList_leaves, length_leaves]
  omega

lemma decent_leaves (hlex : Atom.lex text = .ok tokens) {allowed : Fault → Prop}
    (hallowed : Atom.MayLackElements tokens → allowed .emptyArray) (firstId : NodeId) :
    Build.Decent allowed (leaves firstId (tokens ++ [.fileEnd])).toArray := by
  by_cases hmay : Atom.MayLackElements tokens
  · exact .inl (hallowed hmay)
  obtain ⟨hconditional, hadjacent⟩ := not_or.mp hmay
  refine .inr ⟨fun t ht => ?_, fun i id a u ha hu hmark => ?_⟩
  · obtain ⟨i, hi⟩ := mem_iff_getElem?.mp (mem_toArray.mp ht)
    rw [getElem?_leaves] at hi
    obtain ⟨a, ha, rfl⟩ := Option.map_eq_some_iff.mp hi
    rw [Bool.eq_false_iff]
    intro hstarts
    rcases mem_append.mp (mem_of_getElem? ha) with ha | ha
    · exact hconditional ⟨a, ha, by simpa [Build.startsConditional, isDirective] using hstarts⟩
    · rw [mem_singleton.mp ha] at hstarts
      cases hstarts
  · rw [getElem?_toArray, getElem?_leaves] at ha hu
    obtain ⟨a', ha, heq⟩ := Option.map_eq_some_iff.mp ha
    obtain ⟨b, hb, rfl⟩ := Option.map_eq_some_iff.mp hu
    cases heq
    obtain rfl := Atom.eq_mark_of_isMark hmark
    have hlt : i + 1 < tokens.length := by
      by_contra hge
      rw [getElem?_append_right (Nat.le_of_not_lt hge)] at hb
      have := mem_of_getElem? hb
      simp at this
    rw [getElem?_append_left (Nat.lt_of_succ_lt hlt)] at ha
    rw [getElem?_append_left hlt] at hb
    refine ⟨?_, Atom.kind_ne_fileEnd_of_lex hlex a (mem_of_getElem? ha)⟩
    rw [Bool.eq_false_iff]
    intro hopener
    refine hadjacent ⟨tokens.take i, a, tokens.drop (i + 2), ?_, hopener⟩
    obtain ⟨_, ha⟩ := List.getElem?_eq_some_iff.mp ha
    obtain ⟨_, hb⟩ := List.getElem?_eq_some_iff.mp hb
    rw [← hb, ← drop_eq_getElem_cons, ← ha, ← drop_eq_getElem_cons, take_append_drop]

/-- Tokens without `#define` and `#else` are read or an error in them is reported, or an array has no
elements. -/
lemma read_ok_or_error (hlex : Atom.lex text = .ok tokens)
    (h : ∀ a ∈ tokens, a.isDirective "#define" = false ∧ a.isDirective "#else" = false)
    (firstId : NodeId) : (∃ script, read text firstId = .ok script) ∨
      ∃ fault, read text firstId = .error fault ∧
        (fault.IsReported ∨ fault = .emptyArray ∧ Atom.MayLackElements tokens) := by
  have husual := isUsual_of_lex hlex h
  have hdecent : Build.Decent
      (fun fault => fault.IsReported ∨ fault = .emptyArray ∧ Atom.MayLackElements tokens)
      (leaves firstId (tokens ++ [.fileEnd])).toArray :=
    decent_leaves hlex (fun h => .inr ⟨rfl, h⟩) firstId
  have hopeners := openers_leaves_lt firstId (tokens ++ [.fileEnd])
  rw [length_row] at hopeners
  have hsafe := Build.safe_block (fun _ => .inl) _ .both (isUsualRow_leaves husual) hdecent
    (Nat.zero_le _) (.inl ⟨rfl, rfl⟩) (Nat.lt_add_right _ hopeners)
  have hblock := @hsafe ⟨firstId + (tokens.length + 1), []⟩ rfl
  rw [read_eq_of_lex hlex, ← Int.natCast_zero]
  split at hblock
  · rename_i p σ hp
    rw [hp]
    exact .inl ⟨_, rfl⟩
  · rename_i fault σ hp
    rw [hp]
    exact .inr ⟨fault, rfl, hblock⟩

/-- A script without `#define` and `#else` is read or an error in it is reported. The only other
failure is an array without elements, and only where the script has a conditional or a `]` directly
behind a token that opens something. -/
theorem read_returns_or_reports {text : String}
    (h : ∀ tokens, Atom.lex text = .ok tokens →
      ∀ a ∈ tokens, a.isDirective "#define" = false ∧ a.isDirective "#else" = false)
    (firstId : NodeId) :
    (∃ script, read text firstId = .ok script) ∨
      ∃ fault, read text firstId = .error fault ∧ (fault.IsReported ∨
        fault = .emptyArray ∧ ∃ tokens, Atom.lex text = .ok tokens ∧ Atom.MayLackElements tokens) := by
  cases hlex : Atom.lex text with
  | error fault =>
    exact .inr ⟨fault, by rw [read, hlex]; rfl, .inl (Atom.isReported_of_lex hlex)⟩
  | ok tokens =>
    refine (read_ok_or_error hlex (h tokens hlex) firstId).imp_right ?_
    rintro ⟨fault, hread, hfault⟩
    exact ⟨fault, hread, hfault.imp_right fun hempty => ⟨hempty.1, tokens, rfl, hempty.2⟩⟩

theorem read_returns_or_reports_unclosed :
    (∀ tokens, Atom.lex "[(\"a\"," = .ok tokens →
      ∀ a ∈ tokens, a.isDirective "#define" = false ∧ a.isDirective "#else" = false) ∧
    ((∃ script, read "[(\"a\"," 0 = .ok script) ∨
      ∃ fault, read "[(\"a\"," 0 = .error fault ∧ (fault.IsReported ∨ fault = .emptyArray ∧
        ∃ tokens, Atom.lex "[(\"a\"," = .ok tokens ∧ Atom.MayLackElements tokens)) := by
  obtain ⟨tokens, hlex, hall⟩ := exists_eq_ok_of_any (x := Atom.lex "[(\"a\",")
    (p := (·.all fun a => !a.isDirective "#define" && !a.isDirective "#else")) (by decide +kernel)
  have h : ∀ tokens, Atom.lex "[(\"a\"," = .ok tokens →
      ∀ a ∈ tokens, a.isDirective "#define" = false ∧ a.isDirective "#else" = false := by
    intro tokens' hlex'
    cases hlex.symm.trans hlex'
    simpa using hall
  exact ⟨h, read_returns_or_reports h 0⟩

/-- A parenthesis that is closed by the bracket of the array around it is an array without elements. -/
theorem read_crossed_empty_parenthesis : read "[(]]" 0 = .error .emptyArray := by
  rfl

end Script

end ArmaScript
