import ArmaScript.Proofs.Accepting
import ArmaScript.Proofs.Conditionals

/-!
# Tracking the tokens of a block

A block is read token by token. What can be said of the tokens of its nodes, such as how many of them
open something or where they stand in the row, is kept by each step, as long as it is kept where tokens
are put together, left out or put in another order. Conditionals are another matter, since what they stand
for is read as a row of its own.
-/

namespace ArmaScript

open Tree List

/-- A token other than `#define`. Only the end of the script has no text. -/
structure Atom.IsOrdinary (a : Atom) : Prop where
  define : a.isDirective "#define" = false
  text : a.text = "" → a = .fileEnd

namespace Build

/-- A row of tokens of a script without `#define`. -/
def IsOrdinaryRow (row : Array Tree) : Prop :=
  ∀ t ∈ row, ∃ id a, t = .atom id a ∧ a.IsOrdinary

/-- Where a block starts: with the row, outside of everything, or behind a token that opens
something. -/
def Enters (row : Array Tree) (start : Nat) (levels : Levels) : Prop :=
  (start = 0 ∧ levels = .none) ∨
    0 < start ∧ ∃ id a, row[start - 1]? = some (.atom id a) ∧ a.isOpener = true

/-- Either arrays without elements are allowed, or the row has no conditionals and no `]` that could
close such an array. -/
def Decent (allowed : Fault → Prop) (row : Array Tree) : Prop :=
  allowed .emptyArray ∨ (∀ t ∈ row, startsConditional t = false) ∧
    ∀ (i : Nat) (id : NodeId) (a : Atom) (u : Tree), row[i]? = some (.atom id a) →
      row[i + 1]? = some u → u.isMark "]" = true → a.isOpener = false ∧ a.kind ≠ .fileEnd

/-- What is reported about brackets and arrays is allowed. -/
structure Allows (allowed : Fault → Prop) : Prop where
  unbalanced (place : Position) (message : String) : allowed (.unbalanced place message)
  element (place : Position) : allowed (.error place "Array cannot have an empty element")
  statement (place : Position) (text : String) :
    allowed (.error place ("A statement " ++ text ++ " cannot be in an array"))

/-- What is kept of tokens: `P i j as` says it of tokens `as` between the indices `i` and `j` of a
row. Brackets that are nodes have marks of their own in the place of the tokens. -/
structure Tracks (row : Array Tree) (P : Nat → Nat → List Atom → Prop) : Prop where
  nil (i : Nat) : P i i []
  append {i j k : Nat} {as bs : List Atom} (hjk : j ≤ k) : P i j as → P j k bs → P i k (as ++ bs)
  widen {i i' j j' : Nat} {as : List Atom} (hi : i' ≤ i) (hj : j ≤ j') : P i j as → P i' j' as
  sublist {i j : Nat} {as bs : List Atom} (h : bs.Sublist as) : P i j as → P i j bs
  perm {i j : Nat} {as bs : List Atom} (h : bs.Perm as) : P i j as → P i j bs
  token {i : Nat} {id : NodeId} {a : Atom} : row[i]? = some (.atom id a) → P i (i + 1) [a]
  opening {i : Nat} {id : NodeId} {a : Atom} (k : Bracket) :
    row[i]? = some (.atom id a) → a.isOpener = true → P i (i + 1) [.mark k.openingText]
  closing (i : Nat) (k : Bracket) : P i i [.mark k.closingText]

/-- What is known of a block that is read up to the index `i`. -/
structure Block.Holds (P : Nat → Nat → List Atom → Prop) (row : Array Tree) (start : Nat)
    (levels : Levels) (i : Nat) (b : Block) : Prop where
  index : b.index = i
  start_le : start ≤ i
  levels : b.levels = levels
  atoms : P start i (atomsList b.statements.toList ++ atomsList b.row.toList)
  text : ∀ t ∈ b.row.toList, t.text ≠ ""
  ending : ∀ t ∈ b.row.toList, t.ending? = none
  kind : ∀ t ∈ b.statements.toList, t.kind ≠ .expansion
  empty : b.statements.toList = [] → b.row.toList = [] →
    i = start ∨ 0 < i ∧ ∃ id a, row[i - 1]? = some (.atom id a) ∧ a.kind = .fileEnd

/-- What is known of the node of a block that reaches over `size` tokens. -/
structure Gives (P : Nat → Nat → List Atom → Prop) (start : Nat) (levels : Levels) (node : Tree)
    (size : Nat) : Prop where
  atoms : 0 < start → P (start - 1) (start + size) node.atoms
  ending : node.ending? = none
  kind : node.kind ≠ .expansion
  text : levels.unclosed? ≠ none → node.text ≠ ""

/-- What follows a token of a block at the index `i`. -/
def Step.Follows (P : Nat → Nat → List Atom → Prop) (row : Array Tree) (start : Nat) (levels : Levels)
    (i : Nat) : Step → Prop
  | .more b => ∃ j, i < j ∧ b.Holds P row start levels j
  | .done node size => ∃ n : Nat, size = n ∧ Gives P start levels node n

lemma safe_arrange {allowed : Fault → Prop} {row : List Tree} (htext : ∀ t ∈ row, t.text ≠ "")
    (hending : ∀ t ∈ row, t.ending? = none) : Safe allowed (arrange row) fun t =>
      t.kind = .statement ∧ t.atoms.Sublist (atomsList row) ∧ (row ≠ [] → t.text ≠ "") := by
  refine Safe.of_returns fun σ => ?_
  obtain ⟨t, σ', h⟩ := exists_arrange htext σ
  exact ⟨t, σ', h, keeps_arrange row h, arrange_kind h, atoms_arrange_sublist h hending,
    fun hne => text_arrange_ne_empty h hne htext hending⟩

lemma safe_arrayElements {allowed : Fault → Prop} (hallowed : Allows allowed) {row : List Tree}
    (htext : ∀ t ∈ row, t.text ≠ "") (hending : ∀ t ∈ row, t.ending? = none) (place : Position) :
    Safe allowed (arrayElements row place) fun elements =>
      (commaJoin (elements.map atoms)).Sublist (atomsList row) ∧ (elements = [] → row = []) := by
  have hparts : ∀ parts : List (List Tree), (∀ part ∈ parts, ∀ t ∈ part, t ∈ row) →
      Safe allowed (parts.mapM fun part =>
        if part.isEmpty then throw (.error place "Array cannot have an empty element")
        else arrange part) fun elements =>
          Forall₂ Sublist (elements.map atoms) (parts.map atomsList) := by
    intro parts hmem
    induction parts with
    | nil =>
      rw [mapM_nil]
      exact .pure .nil
    | cons part parts ih =>
      rw [mapM_cons]
      have hpart : ∀ t ∈ part, t ∈ row := hmem part (by simp)
      have hfirst : Safe allowed (if part.isEmpty then
          throw (.error place "Array cannot have an empty element") else arrange part)
          fun t => t.atoms.Sublist (atomsList part) :=
        .ite (fun _ => Safe.throw (hallowed.element place)) fun _ =>
          (safe_arrange (fun t ht => htext t (hpart t ht)) fun t ht => hending t (hpart t ht)).mono
            fun t h => h.2.1
      refine hfirst.bind fun t ht => (ih fun p hp => hmem p (by simp [hp])).bind fun ts hts => ?_
      exact .pure (.cons ht hts)
  unfold arrayElements
  refine .ite (fun hempty => .pure ?_) fun _ => (hparts _ fun part hp t ht => ?_).mono ?_
  · simp [isEmpty_iff.mp hempty, commaJoin]
  · exact mem_of_mem_splitCommas hp ht
  · intro elements h
    have hsub := commaJoin_sublist h
    rw [commaJoin_splitCommas] at hsub
    refine ⟨hsub, fun hnil => absurd h.length_eq ?_⟩
    have hpos := length_pos_iff.mpr (splitCommas_ne_nil row)
    simp [hnil]
    omega

lemma unclosed?_ne_none {levels : Levels}
    (h : levels.array ≠ 0 ∨ levels.paren ≠ 0 ∨ levels.code ≠ 0) : levels.unclosed? ≠ none := by
  unfold Levels.unclosed?
  split_ifs <;> simp_all

lemma isOpener_of_isMark {a : Atom} {k : Bracket} (h : a.isMark k.openingText = true) :
    a.isOpener = true := by
  rw [Atom.eq_mark_of_isMark h]
  simp [Atom.isOpener]

section

variable {P : Nat → Nat → List Atom → Prop} {allowed : Fault → Prop} {row : Array Tree}
  {start i : Nat} {levels : Levels} {b : Block} {stop : Stop} {read : Reader}

/-! ### Blocks that become longer -/

lemma Enters.opener (h : Enters row start levels) (hpos : 0 < start) :
    ∃ id a, row[start - 1]? = some (.atom id a) ∧ a.isOpener = true :=
  h.elim (fun h => absurd h.1 (Nat.ne_of_gt hpos)) And.right

variable {node : Tree}

/-- The node of a block that ends with a closing bracket. -/
lemma gives_bracket (hP : Tracks row P) (k : Bracket) {inner : List Tree} (hi : start ≤ i)
    (henters : Enters row start levels)
    (hatoms : node.atoms = .mark k.openingText :: (atomsList inner ++ [.mark k.closingText]))
    (hinner : P start i (atomsList inner)) (hending : node.ending? = none)
    (hkind : node.kind ≠ .expansion) : Gives P start levels node (i - start) where
  atoms hpos := by
    obtain ⟨id, a, ht, ha⟩ := henters.opener hpos
    have hfirst := hP.opening k ht ha
    rw [Nat.sub_add_cancel hpos] at hfirst
    rw [hatoms, Nat.add_sub_cancel' hi]
    exact hP.append hi hfirst (hP.append (Nat.le_refl i) hinner (hP.closing i k))
  ending := hending
  kind := hkind
  text _ h := by
    have hopening : k.openingText ≠ "" := by cases k <;> decide
    rw [text_eq_join, hatoms, map_cons, String.join_cons] at h
    exact hopening (String.append_eq_empty_iff.mp h).1

variable (hb : b.Holds P row start levels i) (hP : Tracks row P)
include hb hP

lemma Block.Holds.push {j : Nat}
    (hij : i < j) (hatoms : P i j node.atoms) (htext : node.text ≠ "")
    (hending : node.ending? = none) :
    Holds P row start levels j { b with index := j, row := b.row.push node } where
  index := rfl
  start_le := hb.start_le.trans (Nat.le_of_lt hij)
  levels := hb.levels
  atoms := by
    have h := hP.append (Nat.le_of_lt hij) hb.atoms hatoms
    simpa using h
  text t ht := by
    obtain ht | rfl : t ∈ b.row.toList ∨ t = node := by simpa using ht
    · exact hb.text t ht
    · exact htext
  ending t ht := by
    obtain ht | rfl : t ∈ b.row.toList ∨ t = node := by simpa using ht
    · exact hb.ending t ht
    · exact hending
  kind := hb.kind
  empty _ h := by simp at h

lemma Block.Holds.next {id : NodeId}
    {a : Atom} (ht : row[i]? = some (.atom id a)) (ha : a.IsOrdinary) :
    Holds P row start levels (i + 1) { b with
      index := (i + 1 : Nat)
      row := if (atom id a).kind == .fileEnd then b.row else b.row.push (.atom id a) } := by
  by_cases hend : (atom id a).kind = .fileEnd
  · rw [if_pos (by simpa using hend)]
    exact ⟨rfl, Nat.le_succ_of_le hb.start_le, hb.levels,
      hP.widen (Nat.le_refl _) (Nat.le_succ i) hb.atoms, hb.text, hb.ending, hb.kind,
      fun _ _ => .inr ⟨Nat.succ_pos i, id, a, ht, hend⟩⟩
  · rw [if_neg (by simpa using hend)]
    have htext : a.text ≠ "" := fun h => hend (by rw [ha.text h]; rfl)
    exact hb.push hP (Nat.lt_succ_self i) (by simpa using hP.token ht) (by simpa using htext) rfl

omit hP in
lemma Block.Holds.closed {statements : Array Tree}
    (hkind : ∀ t ∈ statements.toList, t.kind ≠ .expansion)
    (hatoms : P start i (atomsList statements.toList))
    (hempty : statements.toList = [] → b.statements.toList = [] ∧ b.row.toList = []) :
    Holds P row start levels i { b with row := #[], statements := statements } where
  index := hb.index
  start_le := hb.start_le
  levels := hb.levels
  atoms := by simpa using hatoms
  text := by simp
  ending := by simp
  kind := hkind
  empty h _ := hb.empty (hempty h).1 (hempty h).2

omit hP in
lemma Block.Holds.pushStatement {j : Nat} (hij : i ≤ j)
    {statements : Array Tree} (hkind : ∀ t ∈ statements.toList, t.kind ≠ .expansion)
    (hatoms : P start j (atomsList statements.toList ++ node.atoms))
    (hnode : node.kind ≠ .expansion) :
    Holds P row start levels j { b with index := j, row := #[], statements := statements.push node }
    where
  index := rfl
  start_le := hb.start_le.trans hij
  levels := hb.levels
  atoms := by simpa using hatoms
  text := by simp
  ending := by simp
  kind t ht := by
    obtain ht | rfl : t ∈ statements.toList ∨ t = node := by simpa using ht
    · exact hkind t ht
    · exact hnode
  empty h := by simp at h

/-! ### Blocks that end -/

lemma Block.Holds.safe_close :
    Safe allowed b.close fun statements => (∀ t ∈ statements.toList, t.kind ≠ .expansion) ∧
      P start i (atomsList statements.toList) ∧
      (statements.toList = [] → b.statements.toList = [] ∧ b.row.toList = []) := by
  unfold Block.close
  refine .ite (fun hempty => .pure ?_) fun hne => ?_
  · have hrow : b.row.toList = [] := by simpa using hempty
    refine ⟨hb.kind, ?_, fun h => ⟨h, hrow⟩⟩
    have hatoms := hb.atoms
    rwa [hrow, atomsList_nil, append_nil] at hatoms
  · refine (safe_arrange hb.text hb.ending).bind fun t ⟨hkind, hsub, _⟩ => .pure ⟨?_, ?_, by simp⟩
    · intro u hu
      obtain hu | rfl : u ∈ b.statements.toList ∨ u = t := by simpa using hu
      · exact hb.kind u hu
      · rw [hkind]
        decide
    · rw [atomsList_push]
      exact hP.sublist ((Sublist.refl _).append hsub) hb.atoms

lemma Block.Holds.safe_closeArray (hallowed : Allows allowed)
    (hempty : b.statements.toList = [] → b.row.toList = [] → allowed .emptyArray)
    (henters : Enters row start levels) :
    Safe allowed (closeArray row b) fun node => Gives P start levels node (i - start) := by
  unfold closeArray
  cases hstatements : b.statements.toList with
  | nil =>
    have hatoms := hb.atoms
    rw [hstatements, atomsList_nil, nil_append] at hatoms
    refine (safe_arrayElements hallowed hb.text hb.ending _).bind fun elements ⟨hsub, hnil⟩ => ?_
    unfold array
    refine .ite (fun h => Safe.throw_bind (hempty hstatements (hnil (isEmpty_iff.mp h)))) fun _ => ?_
    refine Safe.of_returns fun σ => ?_
    obtain ⟨inner, σ1, h⟩ := exists_withCommas elements ⟨σ.nextId + 1, σ.definitions⟩
    have hσ1 := keeps_withCommas _ h
    have hinner : P start i (atomsList inner) := by
      rw [atomsList_withCommas h]
      exact hP.sublist hsub hatoms
    refine ⟨.array (σ1.nextId + 1) (.atom σ.nextId (.mark "[") :: inner ++
      [.atom σ1.nextId (.mark "]")]), ⟨σ1.nextId + 2, σ1.definitions⟩, ?_, hσ1, ?_⟩
    · exact bind_eq rfl (bind_eq h rfl)
    · exact gives_bracket hP .square hb.start_le henters
        (by simp [Bracket.openingText, Bracket.closingText]) hinner rfl nofun
  | cons t ts =>
    have ht : t.kind ≠ .expansion := hb.kind t (by simp [hstatements])
    cases t with
    | expansion id d r cs => exact absurd rfl ht
    | _ => exact Safe.throw (hallowed.statement _ _)

lemma Block.Holds.safe_closeRound (henters : Enters row start levels) :
    Safe allowed (do bracketed (← b.close).toList) fun node =>
      Gives P start levels node (i - start) := by
  refine (hb.safe_close hP).bind fun statements ⟨_, hatoms, _⟩ => ?_
  refine Safe.of_returns fun σ => ⟨_, _, rfl, rfl, ?_⟩
  exact gives_bracket hP .round hb.start_le henters
    (by simp [Bracket.openingText, Bracket.closingText]) hatoms rfl nofun

lemma Block.Holds.safe_closeCurly (henters : Enters row start levels) :
    Safe allowed (do code (← b.close).toList) fun node =>
      Gives P start levels node (i - start) := by
  refine (hb.safe_close hP).bind fun statements ⟨_, hatoms, _⟩ => ?_
  refine Safe.of_returns fun σ => ⟨_, _, rfl, rfl, ?_⟩
  exact gives_bracket hP .curly hb.start_le henters
    (by simp [Bracket.openingText, Bracket.closingText]) hatoms rfl nofun

lemma Block.Holds.safe_closeDirective (hrow : IsOrdinaryRow row) (hpos : 0 < start)
    (henters : Enters row start levels) :
    Safe allowed (closeDirective row start b) fun node =>
      Gives P start levels node (i - start) := by
  obtain ⟨id, a, ht, ha⟩ := henters.opener hpos
  obtain ⟨_, _, heq, hordinary⟩ := hrow _ (Array.mem_of_getElem? ht)
  cases heq
  have htext : a.text ≠ "" := by
    intro h
    rw [hordinary.text h] at ha
    cases ha
  unfold closeDirective
  rw [at?_pred row hpos, ht]
  dsimp only
  rw [if_neg (by simp [isDirective, hordinary.define])]
  have hfirst : ∀ t ∈ .atom id a :: b.row.toList, t.text ≠ "" ∧ t.ending? = none := by
    intro t ht
    rcases mem_cons.mp ht with rfl | ht
    · exact ⟨by simpa using htext, rfl⟩
    · exact ⟨hb.text t ht, hb.ending t ht⟩
  refine (safe_arrange (fun t ht => (hfirst t ht).1) fun t ht => (hfirst t ht).2).bind ?_
  rintro t ⟨hkind, hsub, hne⟩
  refine Safe.of_returns fun σ => ⟨_, _, rfl, rfl, ?_, rfl, by simp [Tree.kind], ?_⟩
  · intro _
    have hopening := hP.token ht
    rw [Nat.sub_add_cancel hpos] at hopening
    rw [Nat.add_sub_cancel' hb.start_le, atoms_statement, atomsList_push]
    -- the directive stands before the statements, and in the last of them
    have hatoms : P (start - 1) i
        (atomsList b.statements.toList ++ a :: atomsList b.row.toList) :=
      hP.perm perm_middle (hP.append hb.start_le hopening hb.atoms)
    exact hP.sublist ((Sublist.refl _).append hsub) hatoms
  · intro _ h
    rw [text_statement, Array.toList_push, textList_append, textList_cons] at h
    exact hne (by simp) (String.append_eq_empty_iff.mp (String.append_eq_empty_iff.mp h).2).1

omit hP in
/-- An array without elements is closed only where that is allowed. -/
lemma Block.Holds.allowed_empty (hdecent : Decent allowed row)
    (henters : Enters row start levels)
    (hpos : 0 < start) {t : Tree} (ht : row[i]? = some t) (hmark : t.isMark "]" = true)
    (hstatements : b.statements.toList = []) (hempty : b.row.toList = []) : allowed .emptyArray := by
  rcases hdecent with h | ⟨-, hno⟩
  · exact h
  · exfalso
    rcases hb.empty hstatements hempty with rfl | ⟨hi, id, a, hlast, hkind⟩
    · obtain ⟨id, a, hfirst, ha⟩ := henters.opener hpos
      have h := (hno (i - 1) id a t hfirst (by rwa [Nat.sub_add_cancel hpos]) hmark).1
      rw [ha] at h
      cases h
    · exact (hno (i - 1) id a t hlast (by rwa [Nat.sub_add_cancel hi]) hmark).2 hkind

lemma Block.Holds.safe_ended (hclosed : b.levels.unclosed? = none) :
    Safe allowed (do return (← statement (← b.close).toList, b.index - start)) fun p =>
      ∃ n : Nat, p.2 = n ∧ Gives P start levels p.1 n := by
  refine (hb.safe_close hP).bind fun statements ⟨_, hatoms, _⟩ => ?_
  refine Safe.of_returns fun σ => ⟨_, _, rfl, rfl, i - start, ?_, ?_⟩
  · have := hb.start_le
    rw [hb.index]
    omega
  · refine ⟨fun _ => ?_, rfl, nofun, fun h => absurd (hb.levels ▸ hclosed) h⟩
    rw [Nat.add_sub_cancel' hb.start_le, atoms_statement]
    exact hP.widen (Nat.sub_le _ _) (Nat.le_refl i) hatoms

/-! ### Steps -/

variable (P) in
/-- A reader that tells the same of the blocks behind the token at the index `i`, if it opens
something. -/
def ReadsBehind (allowed : Fault → Prop) (read : Reader) (row : Array Tree) (i : Nat) : Prop :=
  ∀ ⦃id : NodeId⦄ ⦃a : Atom⦄ (levels : Levels) (stop : Stop), row[i]? = some (.atom id a) →
    a.isOpener = true → Safe allowed (read row (i + 1 : Nat) levels stop) fun p =>
      ∃ n : Nat, p.2 = n ∧ Gives P (i + 1) levels p.1 n

lemma Block.Holds.safe_stepOpening (hread : ReadsBehind P allowed read row i) {id : NodeId}
    {a : Atom} {k : Bracket} (ht : row[i]? = some (.atom id a)) (ha : a.isMark k.openingText = true)
    {inner : Levels} (hinner : inner.array ≠ 0 ∨ inner.paren ≠ 0 ∨ inner.code ≠ 0) :
    Safe allowed (stepOpening read row b inner stop) (Step.Follows P row start levels i) := by
  unfold stepOpening
  rw [hb.index]
  refine (hread inner stop ht (isOpener_of_isMark ha)).bind ?_
  rintro ⟨node, size⟩ ⟨n, rfl, hgives⟩
  refine .pure ⟨i + n + 2, by omega, ?_⟩
  have hatoms := hP.widen (Nat.le_refl i) (show i + 1 + n ≤ i + n + 2 by omega)
    (hgives.atoms (Nat.succ_pos i))
  exact hb.push hP (by omega) hatoms (hgives.text (unclosed?_ne_none hinner)) hgives.ending

lemma Block.Holds.safe_stepToken (hallowed : Allows allowed)
    (hread : ReadsBehind P allowed read row i) (hrow : IsOrdinaryRow row)
    (hdecent : Decent allowed row) (henters : Enters row start levels) {t : Tree}
    (ht : row[i]? = some t) :
    Safe allowed (stepToken read row start stop b t) (Step.Follows P row start levels i) := by
  obtain rfl := hb.levels
  obtain ⟨id, a, rfl, ha⟩ := hrow t (Array.mem_of_getElem? ht)
  have hopen : b.levels.array ≠ 0 ∨ b.levels.inDirective = true → 0 < start := by
    rcases henters with ⟨rfl, hnone⟩ | ⟨hpos, -⟩
    · simp [hnone, Levels.none, Levels.inDirective]
    · exact fun _ => hpos
  have hsize : b.index - start = (i - start : Nat) := by
    have := hb.start_le
    rw [hb.index]
    omega
  have hnext := hb.next hP ht ha
  have hindex : b.index + 1 = (i + 1 : Nat) := by
    rw [hb.index]
    rfl
  unfold stepToken
  dsimp only
  refine .ite (fun h => ?_) fun _ => .ite (fun h => ?_) fun _ => .ite (fun h => ?_) fun _ =>
    .ite (fun h => ?_) fun _ => .ite (fun h => ?_) fun _ => .ite (fun h => ?_) fun _ =>
    .ite (fun h => ?_) fun _ => .ite (fun h => ?_) fun _ => .ite (fun h => ?_) fun _ => ?_
  · exact @safe_stepOpening _ _ _ _ _ _ _ _ _ hb hP hread id a .square ht h _
      (.inl (Nat.succ_ne_zero _))
  · exact @safe_stepOpening _ _ _ _ _ _ _ _ _ hb hP hread id a .round ht h _
      (.inr (.inl (Nat.succ_ne_zero _)))
  · exact @safe_stepOpening _ _ _ _ _ _ _ _ _ hb hP hread id a .curly ht h _
      (.inr (.inr (Nat.succ_ne_zero _)))
  · refine .ite (fun _ => Safe.throw (hallowed.unbalanced _ _)) fun hne => ?_
    have hempty := hb.allowed_empty hdecent henters (hopen (.inl hne)) ht h
    exact (hb.safe_closeArray hP hallowed hempty henters).bind fun node hnode =>
      .pure ⟨i - start, hsize, hnode⟩
  · refine .ite (fun _ => Safe.throw (hallowed.unbalanced _ _)) fun _ => ?_
    rw [← bind_assoc]
    exact (hb.safe_closeRound hP henters).bind fun node hnode => .pure ⟨i - start, hsize, hnode⟩
  · refine .ite (fun _ => Safe.throw (hallowed.unbalanced _ _)) fun _ => ?_
    rw [← bind_assoc]
    exact (hb.safe_closeCurly hP henters).bind fun node hnode => .pure ⟨i - start, hsize, hnode⟩
  · cases hend : (atom id a).kind == .fileEnd
    all_goals
      simp only [hend, Bool.false_eq_true, if_true, if_false] at hnext ⊢
      refine (hnext.safe_close hP).bind ?_
      rintro statements ⟨hkind, hatoms, hempty⟩
      rw [hindex]
      exact .pure ⟨i + 1, Nat.lt_succ_self i, hnext.closed hkind hatoms hempty⟩
  · have hdefine : (atom id a).isDirective "#define" = false := ha.define
    have hinclude : a.isDirective "#include" = true := by
      simpa [isDirective, ha.define] using h
    have hopener : a.isOpener = true := by simp [Atom.isOpener, hinclude]
    refine (hb.safe_close hP).bind ?_
    rintro statements ⟨hkind, hatoms, -⟩
    rw [hdefine, hb.index]
    refine (hread _ stop ht hopener).bind ?_
    rintro ⟨node, size⟩ ⟨n, rfl, hgives⟩
    refine .pure ⟨i + n + 1, by omega, ?_⟩
    have hgiven := hP.widen (Nat.le_refl i) (show i + 1 + n ≤ i + n + 1 by omega)
      (hgives.atoms (Nat.succ_pos i))
    exact hb.pushStatement (by omega) hkind (hP.append (by omega) hatoms hgiven) hgives.kind
  · have hpos := hopen (.inr (by simp at h; exact h.2))
    exact (hb.safe_closeDirective hP hrow hpos henters).bind fun node hnode =>
      .pure ⟨i - start, hsize, hnode⟩
  · rw [hb.index]
    exact .pure ⟨i + 1, Nat.lt_succ_self i, hnext⟩

/-! ### Runs -/

/-- Reading a block token by token: each step goes on by at least one token. -/
lemma Block.Holds.safe_blockFrom (hallowed : Allows allowed)
    (hstep : ∀ ⦃b : Block⦄ ⦃i : Nat⦄ ⦃t : Tree⦄, b.Holds P row start levels i → row[i]? = some t →
      Safe allowed (step read row start stop b t) (Step.Follows P row start levels i)) {fuel : Nat}
    (hfuel : row.size < fuel + i) (hpos : 0 < fuel) :
    Safe allowed (blockFrom read row start stop fuel b) fun p =>
      ∃ n : Nat, p.2 = n ∧ Gives P start levels p.1 n := by
  induction fuel generalizing b i with
  | zero => omega
  | succ fuel ih =>
    rw [blockFrom_succ hb.index]
    cases ht : row[i]? with
    | none =>
      cases hlevels : b.levels.unclosed? with
      | some message => exact Safe.throw (hallowed.unbalanced _ _)
      | none => exact hb.safe_ended hP hlevels
    | some t =>
      refine (hstep hb ht).bind fun s hs => ?_
      have hlt := (Array.getElem?_eq_some_iff.mp ht).1
      cases s with
      | more b =>
        obtain ⟨j, hij, hb⟩ := hs
        exact ih hb (by omega) (by omega)
      | done node size => exact .pure hs

omit hb in
lemma safe_block_succ {depth : Nat} (hallowed : Allows allowed)
    (hrow : IsOrdinaryRow row) (hdecent : Decent allowed row) (hle : start ≤ row.size)
    (henters : Enters row start levels)
    (hread : ∀ ⦃i : Nat⦄, start ≤ i → ReadsBehind P allowed (block depth) row i)
    (hconditional : ∀ ⦃b : Block⦄ ⦃i : Nat⦄ ⦃t : Tree⦄, b.Holds P row start levels i →
      row[i]? = some t → startsConditional t = true →
      Safe allowed (stepConditional (block depth) row stop b) (Step.Follows P row start levels i)) :
    Safe allowed (block (depth + 1) row start levels stop) fun p =>
      ∃ n : Nat, p.2 = n ∧ Gives P start levels p.1 n := by
  rw [block]
  refine .ite (fun hempty => ?_) fun _ => ?_
  · obtain rfl : row = #[] := by simpa using hempty
    obtain ⟨rfl, rfl⟩ : start = 0 ∧ levels = .none := by
      rcases henters with h | ⟨hpos, _⟩
      · exact h
      · exact absurd hle (by simp; omega)
    refine Safe.of_returns fun σ => ⟨_, _, rfl, rfl, 0, rfl, ?_⟩
    exact ⟨fun h => absurd h (Nat.lt_irrefl 0), rfl, by simp [kind], fun h => absurd rfl h⟩
  · have hfuel := Nat.le_mul_self (row.size + 2)
    have hb : Block.Holds P row start levels start ⟨start, #[], #[], levels⟩ :=
      ⟨rfl, Nat.le_refl _, rfl, by simpa using hP.nil start, by simp, by simp, by simp,
        fun _ _ => .inl rfl⟩
    refine hb.safe_blockFrom hP hallowed (fun b i t hb ht => ?_) (by omega) (by omega)
    unfold step
    refine .ite (hconditional hb ht) fun _ => Safe.get_bind fun σ hσ => ?_
    rw [hσ]
    exact hb.safe_stepToken hP hallowed (hread hb.start_le) hrow hdecent henters ht

end

end Build

end ArmaScript
