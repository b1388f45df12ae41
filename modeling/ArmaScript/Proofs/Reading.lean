import ArmaScript.Proofs.Making
import ArmaScript.Proofs.Outline
import Mathlib.Tactic.ByContra

/-!
# Reading an outline

Without directives that replace tokens, a block is read in two steps: the tokens up to the bracket
that ends it have an outline, and the outline is built into a tree. `Build.block` does both at once;
here it is taken apart.
-/

namespace ArmaScript

open Item Build List

def Tree.ending? : Tree → Option Ending
  | .statement _ _ ending _ => ending
  | _ => none

def Stop.inside (stop : Stop) : Bracket → Stop
  | .square => .semicolon
  | _ => stop

def Levels.ofOpen (around : List Bracket) : Levels :=
  ⟨around.count .square, around.count .round, around.count .curly, 0, 0, 0, 0⟩

def Levels.push (levels : Levels) : Bracket → Levels
  | .round => { levels with paren := levels.paren + 1 }
  | .square => { levels with array := levels.array + 1 }
  | .curly => { levels with code := levels.code + 1 }

lemma Levels.push_ofOpen (around : List Bracket) (k : Bracket) :
    (Levels.ofOpen around).push k = .ofOpen (k :: around) := by
  cases k <;> simp [push, ofOpen]

lemma Levels.eq_nil_of_unclosed? {around : List Bracket}
    (h : (Levels.ofOpen around).unclosed? = Option.none) : around = [] := by
  unfold unclosed? ofOpen at h
  have hsquare : around.count .square = 0 := by
    by_contra hne
    simp [hne] at h
  have hround : around.count .round = 0 := by
    by_contra hne
    simp [hsquare, hne] at h
  have hcurly : around.count .curly = 0 := by
    by_contra hne
    simp [hsquare, hround, hne] at h
  refine eq_nil_iff_forall_not_mem.mpr fun k => count_eq_zero.mp ?_
  cases k with
  | round => exact hround
  | square => exact hsquare
  | curly => exact hcurly

namespace Build

/-- The row with one more token. The end of the script is not kept. -/
def rowWith (row : List Tree) (t : Tree) : List Tree :=
  if t.kind == .fileEnd then row else row ++ [t]

/-- The statements of a block when the row that is left of it is closed. -/
def closeRow (row statements : List Tree) : Build (List Tree) := do
  if row.isEmpty then return statements
  return statements ++ [← arrange row]

/-- The node of a block that ends with a closing bracket. The places of errors are left out. -/
def closeBlock (row statements : List Tree) : Bracket → Build Tree
  | .round => do bracketed (← closeRow row statements)
  | .curly => do code (← closeRow row statements)
  | .square =>
    if statements.isEmpty then do array (← arrayElements row .start)
    else throw (.error .start "A statement cannot be in an array")

end Build

namespace Item

mutual

def build (stop : Stop) : Item → Build Tree
  | .token t => return t
  | .group o c content => do
    let (row, statements) ← buildList (stop.inside (o.opens?.getD .round)) content [] []
    closeBlock row statements (c.closes?.getD .round)

/-- The statements of several items in a row, and the row that is left. -/
def buildList (stop : Stop) :
    List Item → List Tree → List Tree → Build (List Tree × List Tree)
  | [], row, statements => return (row, statements)
  | i :: is, row, statements => do
    let t ← i.build stop
    if stop.isEnd t then buildList stop is [] (← closeRow (rowWith row t) statements)
    else buildList stop is (rowWith row t) statements

end

lemma build_token (stop : Stop) (t : Tree) : (token t).build stop = pure t := by
  rw [build]

lemma buildList_nil (stop : Stop) (row statements : List Tree) :
    buildList stop [] row statements = pure (row, statements) := by
  rw [buildList]

lemma buildList_cons (stop : Stop) (i : Item) (is : List Item) (row statements : List Tree) :
    buildList stop (i :: is) row statements = (do
      let t ← i.build stop
      if stop.isEnd t then buildList stop is [] (← closeRow (rowWith row t) statements)
      else buildList stop is (rowWith row t) statements) := by
  rw [buildList]

lemma buildList_append (stop : Stop) (is js : List Item) (row statements : List Tree) :
    buildList stop (is ++ js) row statements =
      buildList stop is row statements >>= fun p => buildList stop js p.1 p.2 := by
  induction is generalizing row statements with
  | nil => simp [buildList_nil]
  | cons i is ih =>
    simp only [cons_append, buildList_cons, ih, bind_assoc]
    congr 1
    funext t
    split_ifs <;> simp

end Item

namespace Build

namespace Closed

variable {n k : Nat} {P : Nat → Tree → Prop} {row statements : List Tree}
  (hP : Closed n P) (hn : n ≤ k)
include hP hn

lemma makes_closeRow (hrow : ∀ t ∈ row, P k t) (hstatements : ∀ t ∈ statements, P k t) :
    Makes k (closeRow row statements) fun k' ts => ∀ t ∈ ts, P k' t := by
  unfold closeRow
  split
  · exact .pure hstatements
  · exact (hP.makes_arrange hn hrow).bind fun _ h _ ht =>
      .pure (concat (hP.monoList h hstatements) ht)

lemma makes_closeBlock (hrow : ∀ t ∈ row, P k t) (hstatements : ∀ t ∈ statements, P k t)
    (b : Bracket) : Makes k (closeBlock row statements b) P := by
  cases b with
  | round =>
    exact (hP.makes_closeRow hn hrow hstatements).bind fun _ h _ hts =>
      hP.makes_bracketed (Nat.le_trans hn h) hts
  | curly =>
    exact (hP.makes_closeRow hn hrow hstatements).bind fun _ h _ hts =>
      hP.makes_code (Nat.le_trans hn h) hts
  | square =>
    unfold closeBlock
    dsimp only
    split
    · exact (hP.makes_arrayElements hn hrow _).bind fun _ h _ hts =>
        hP.makes_array (Nat.le_trans hn h) hts
    · exact .throw

omit hn in
mutual

theorem makes_build {k : Nat} (hn : n ≤ k) (stop : Stop) :
    ∀ i : Item, (∀ t ∈ i.flat, P k t) → Makes k (i.build stop) P
  | .token t, h => by
    rw [build]
    exact .pure (h t (by simp))
  | .group o c content, h => by
    rw [build]
    rw [flat_group] at h
    have hcontent : ∀ t ∈ flatList content, P k t := fun t ht => h t (by simp [ht])
    exact (makes_buildList hn _ content hcontent nil nil).bind fun _ h1 _ hleft =>
      hP.makes_closeBlock (Nat.le_trans hn h1) hleft.1 hleft.2 _

theorem makes_buildList {k : Nat} (hn : n ≤ k) (stop : Stop) :
    ∀ (is : List Item) {row statements : List Tree}, (∀ t ∈ flatList is, P k t) →
      (∀ t ∈ row, P k t) → (∀ t ∈ statements, P k t) →
      Makes k (buildList stop is row statements)
        fun k' p => (∀ t ∈ p.1, P k' t) ∧ ∀ t ∈ p.2, P k' t
  | [], _, _, _, hrow, hstatements => by
    rw [buildList]
    exact .pure ⟨hrow, hstatements⟩
  | i :: is, row, statements, h, hrow, hstatements => by
    rw [buildList]
    rw [flatList_cons] at h
    obtain ⟨hi, his⟩ := forall_mem_append.mp h
    refine (makes_build hn stop i hi).bind fun k1 h1 t ht => ?_
    have hn1 := Nat.le_trans hn h1
    have hwith : ∀ u ∈ rowWith row t, P k1 u := by
      unfold rowWith
      split
      · exact hP.monoList h1 hrow
      · exact concat (hP.monoList h1 hrow) ht
    split
    · refine (hP.makes_closeRow hn1 hwith (hP.monoList h1 hstatements)).bind fun k2 h2 ss hss => ?_
      exact makes_buildList (Nat.le_trans hn1 h2) stop is
        (hP.monoList (Nat.le_trans h1 h2) his) nil hss
    · exact makes_buildList hn1 stop is (hP.monoList h1 his) hwith (hP.monoList h1 hstatements)

end

end Closed

lemma keeps_statement (nodes : List Tree) : Keeps (statement nodes) :=
  keeps_of_makes fun k => closed_true.makes_statement k.zero_le fun _ _ => trivial

lemma keeps_withCommas (nodes : List Tree) : Keeps (withCommas nodes) :=
  keeps_of_makes fun k => closed_true.makes_withCommas k.zero_le fun _ _ => trivial

lemma keeps_arrange (row : List Tree) : Keeps (arrange row) :=
  keeps_of_makes fun k => closed_true.makes_arrange k.zero_le fun _ _ => trivial

lemma keeps_closeRow (row statements : List Tree) : Keeps (closeRow row statements) :=
  keeps_of_makes fun k =>
    closed_true.makes_closeRow k.zero_le (fun _ _ => trivial) fun _ _ => trivial

lemma keeps_closeBlock (row statements : List Tree) (b : Bracket) :
    Keeps (closeBlock row statements b) :=
  keeps_of_makes fun k =>
    closed_true.makes_closeBlock k.zero_le (fun _ _ => trivial) (fun _ _ => trivial) b

end Build

lemma Item.keeps_buildList (stop : Stop) (is : List Item) (row statements : List Tree) :
    Build.Keeps (buildList stop is row statements) :=
  keeps_of_makes fun k => closed_true.makes_buildList k.zero_le stop is
    (fun _ _ => trivial) (fun _ _ => trivial) fun _ _ => trivial

namespace Build

/-- What reading a block of the tokens `row` inside the brackets `around` gives: the node of an outline
that ends with a closing bracket or, outside all brackets, with the tokens. -/
inductive Reads (stop : Stop) (around : List Bracket) (row : List Tree) (σ : BuildState) :
    Tree → Int → BuildState → Prop where
  | closed {content : List Item} {c node : Tree} {rest : List Tree} {k : Bracket}
      {left : List Tree × List Tree} {σ1 σ' : BuildState}
      (hrow : row = Item.flatList content ++ c :: rest) (hopen : Item.OpenList around content)
      (hc : c.closes? = some k) (hk : k ∈ around)
      (hcontent : Item.buildList stop content [] [] σ = .ok left σ1)
      (hclose : closeBlock left.1 left.2 k σ1 = .ok node σ') :
      Reads stop around row σ node (Item.flatList content).length σ'
  | ended {content : List Item} {node : Tree} {left : List Tree × List Tree} {statements : List Tree}
      {σ1 σ2 σ' : BuildState}
      (hrow : row = Item.flatList content) (hopen : Item.OpenList [] content) (haround : around = [])
      (hcontent : Item.buildList stop content [] [] σ = .ok left σ1)
      (hclose : closeRow left.1 left.2 σ1 = .ok statements σ2)
      (hnode : statement statements σ2 = .ok node σ') :
      Reads stop around row σ node (Item.flatList content).length σ'

/-- A reader that reads blocks without directives as it should. -/
def Sound (read : Reader) : Prop :=
  ∀ ⦃row⦄ ⦃start : Nat⦄ ⦃around stop σ node size σ'⦄, row ≠ #[] →
    (∀ t ∈ row, t.isReplacing = false) → σ.definitions = [] →
    read row start (.ofOpen around) stop σ = .ok (node, size) σ' →
    Reads stop around (row.toList.drop start) σ node size σ'

/-- How a block is read: the tokens so far have an outline, and it is built. -/
structure Reading (stop : Stop) (around : List Bracket) (row : List Tree) (start : Nat)
    (σ0 : BuildState) (b : Block) (content : List Item) (σ : BuildState) : Prop where
  index : b.index = (start + (Item.flatList content).length : Nat)
  read : row.drop start = Item.flatList content ++ row.drop (start + (Item.flatList content).length)
  fits : Item.OpenList around content
  built : Item.buildList stop content [] [] σ0 = .ok (b.row.toList, b.statements.toList) σ
  levels : b.levels = .ofOpen around
  definitions : σ.definitions = []

variable {k : Bracket} {σ σ' : BuildState} {statements : List Tree}

lemma eq_atom_of_opens? {t : Tree} (h : t.opens? = some k) :
    ∃ id, t = .atom id (.mark k.openingText) := by
  cases t with
  | atom id a => exact ⟨id, by rw [Atom.eq_of_opens? h]⟩
  | _ => cases h

lemma eq_atom_of_closes? {t : Tree} (h : t.closes? = some k) :
    ∃ id, t = .atom id (.mark k.closingText) := by
  cases t with
  | atom id a => exact ⟨id, by rw [Atom.eq_of_closes? h]⟩
  | _ => cases h

variable {read : Reader} {row : Array Tree} {start : Nat} {stop : Stop} {b : Block} {t : Tree}
  {around : List Bracket}

variable (row) in
@[simp]
lemma at?_natCast (i : Nat) : at? row (i : Int) = row[i]? := by
  unfold at? index?
  by_cases hi : i < row.size <;> simp [hi]

/-- One round of the loop over the tokens of a block, as long as the index does not count from the
end. -/
lemma blockFrom_succ {fuel i : Nat} (hi : b.index = i) :
    blockFrom read row start stop (fuel + 1) b =
      match row[i]? with
      | some t => do
        match ← step read row start stop b t with
        | .more b => blockFrom read row start stop fuel b
        | .done node size => return (node, size)
      | none => do
        match b.levels.unclosed? with
        | some message => throw (.unbalanced (placeAfter row (start - 1)) message)
        | none => return (← statement (← b.close).toList, b.index - start) := by
  rw [blockFrom, hi, at?_natCast]
  by_cases hlt : i < row.size
  · rw [if_neg (by omega), Array.getElem?_eq_getElem hlt] <;> rfl
  · rw [if_pos (by omega), Array.getElem?_eq_none (Nat.le_of_not_lt hlt)] <;> rfl

lemma blockFrom_more {fuel i : Nat} {b' : Block} {σ σ' : BuildState} (hi : b.index = i)
    (ht : row[i]? = some t) (h : step read row start stop b t σ = .ok (.more b') σ') :
    blockFrom read row start stop (fuel + 1) b σ = blockFrom read row start stop fuel b' σ' := by
  rw [blockFrom_succ hi, ht]
  exact bind_of_eq_ok h

lemma stepToken_opening (h : t.opens? = some k) : stepToken read row start stop b t =
      stepOpening read row b (b.levels.push k) (stop.inside k) := by
  obtain ⟨id, rfl⟩ := eq_atom_of_opens? h
  cases k <;> rfl

lemma stepToken_closing (h : t.closes? = some k) {how : Step} (hb : b.levels = .ofOpen around)
    (hs : stepToken read row start stop b t σ = .ok how σ') :
    k ∈ around ∧ ∃ node, how = .done node (b.index - start) ∧
      match k with
      | .round => (do bracketed (← b.close).toList) σ = .ok node σ'
      | .curly => (do code (← b.close).toList) σ = .ok node σ'
      | .square => closeArray row b σ = .ok node σ' := by
  obtain ⟨id, rfl⟩ := eq_atom_of_closes? h
  have hcount : ∀ k : Bracket, around.count k ≠ 0 → k ∈ around := fun k hk =>
    count_pos_iff.mp (Nat.pos_of_ne_zero hk)
  cases k with
  | square =>
    change (if b.levels.array = 0 then _ else _ : Build Step) σ = _ at hs
    split_ifs at hs with hl
    · cases hs
    · obtain ⟨node, σ1, h1, h2⟩ := bind_eq_ok.mp hs
      cases h2
      rw [hb] at hl
      exact ⟨hcount _ hl, node, rfl, h1⟩
  | round =>
    change (if b.levels.paren = 0 then _ else _ : Build Step) σ = _ at hs
    split_ifs at hs with hl
    · cases hs
    · obtain ⟨statements, σ1, h1, h2⟩ := bind_eq_ok.mp hs
      obtain ⟨node, σ2, h2, h3⟩ := bind_eq_ok.mp h2
      cases h3
      rw [hb] at hl
      exact ⟨hcount _ hl, node, rfl, bind_eq h1 h2⟩
  | curly =>
    change (if b.levels.code = 0 then _ else _ : Build Step) σ = _ at hs
    split_ifs at hs with hl
    · cases hs
    · obtain ⟨statements, σ1, h1, h2⟩ := bind_eq_ok.mp hs
      obtain ⟨node, σ2, h2, h3⟩ := bind_eq_ok.mp h2
      cases h3
      rw [hb] at hl
      exact ⟨hcount _ hl, node, rfl, bind_eq h1 h2⟩

lemma isMark_of_opens? (h : t.opens? = none) :
    t.isMark "[" = false ∧ t.isMark "(" = false ∧ t.isMark "\x7b" = false := by
  cases t with
  | atom id a =>
    change a.opens? = none at h
    unfold Atom.opens? at h
    split_ifs at h with h1 h2 h3
    exact ⟨eq_false_of_ne_true h1, eq_false_of_ne_true h2, eq_false_of_ne_true h3⟩
  | _ => exact ⟨rfl, rfl, rfl⟩

lemma isMark_of_closes? (h : t.closes? = none) :
    t.isMark "]" = false ∧ t.isMark ")" = false ∧ t.isMark "\x7d" = false := by
  cases t with
  | atom id a =>
    change a.closes? = none at h
    unfold Atom.closes? at h
    split_ifs at h with h1 h2 h3
    exact ⟨eq_false_of_ne_true h1, eq_false_of_ne_true h2, eq_false_of_ne_true h3⟩
  | _ => exact ⟨rfl, rfl, rfl⟩

lemma isDirective_of_isReplacing (h : t.isReplacing = false) :
    t.isDirective "#define" = false ∧ t.isDirective "#include" = false ∧
      startsConditional t = false := by
  cases t with
  | atom id a =>
    change a.isReplacing = false at h
    simpa [Atom.isReplacing, startsConditional, Tree.isDirective, and_assoc] using h
  | _ => exact ⟨rfl, rfl, rfl⟩

lemma step_eq_stepToken (ht : t.isReplacing = false) (hσ : σ.definitions = []) :
    step read row start stop b t σ = stepToken read row start stop b t σ := by
  obtain ⟨-, -, hd⟩ := isDirective_of_isReplacing ht
  unfold step
  rw [hd]
  refine (bind_of_eq_ok (x := get) (a := σ) rfl).trans ?_
  rw [hσ]
  rfl

lemma setEnding_kind {u : Tree} {ending : Option Ending} (h : setEnding u ending σ = .ok t σ') :
    t.kind = u.kind := by
  cases u with
  | statement id b old cs =>
    cases ending <;>
    · cases h
      rfl
  | _ =>
    cases h
    rfl

lemma arrange_kind {row : List Tree} (h : arrange row σ = .ok t σ') : t.kind = .statement := by
  obtain ⟨e, σ1, -, h⟩ := bind_eq_ok.mp h
  obtain ⟨u, σ2, -, h⟩ := bind_eq_ok.mp h
  split at h
  · exact setEnding_kind h
  · obtain ⟨u, σ3, h1, h2⟩ := bind_eq_ok.mp h
    cases h1
    exact setEnding_kind h2

lemma closeRow_kind {row statements' : List Tree}
    (h : closeRow row statements σ = .ok statements' σ')
    (hs : ∀ t ∈ statements, t.kind = .statement) : ∀ t ∈ statements', t.kind = .statement := by
  unfold closeRow at h
  split_ifs at h
  · cases h
    exact hs
  · obtain ⟨t, σ1, h1, h2⟩ := bind_eq_ok.mp h
    cases h2
    intro u hu
    rcases mem_append.mp hu with hu | hu
    · exact hs u hu
    · rw [mem_singleton.mp hu]
      exact arrange_kind h1

lemma close_eq_closeRow (b : Block) :
    b.close = Array.mk <$> closeRow b.row.toList b.statements.toList := by
  unfold Block.close closeRow
  by_cases h : b.row.isEmpty = true
  · simp [h]
  · have hpush : b.statements.push = fun t => Array.mk (b.statements.toList ++ [t]) := by
      funext t
      apply Array.ext'
      simp
    simp [h, hpush]

lemma stepToken_plain (ho : t.opens? = none) (hc : t.closes? = none) (ht : t.isReplacing = false)
    (hb : b.levels.inDirective = false) :
    stepToken read row start stop b t =
      if stop.isEnd t then do
        let statements ← closeRow (rowWith b.row.toList t) b.statements.toList
        return .more ⟨b.index + 1, #[], ⟨statements⟩, b.levels⟩
      else return .more ⟨b.index + 1, ⟨rowWith b.row.toList t⟩, b.statements, b.levels⟩ := by
  obtain ⟨ho1, ho2, ho3⟩ := isMark_of_opens? ho
  obtain ⟨hc1, hc2, hc3⟩ := isMark_of_closes? hc
  obtain ⟨hd1, hd2, -⟩ := isDirective_of_isReplacing ht
  have hpush : b.row.push t = ⟨b.row.toList ++ [t]⟩ := by
    apply Array.ext'
    simp
  by_cases hf : t.kind = .fileEnd <;>
  · simp [stepToken, ho1, ho2, ho3, hc1, hc2, hc3, hd1, hd2, hb, hf, rowWith, close_eq_closeRow, hpush]

lemma arrayElements_place {row elements : List Tree} {place place' : Position}
    (h : arrayElements row place σ = .ok elements σ') :
    arrayElements row place' σ = .ok elements σ' := by
  unfold arrayElements at h ⊢
  split_ifs at h ⊢
  · exact h
  · generalize splitCommas row = parts at h ⊢
    induction parts generalizing elements σ σ' with
    | nil => exact h
    | cons part parts ih =>
      rw [mapM_cons] at h ⊢
      obtain ⟨t, σ1, h1, h2⟩ := bind_eq_ok.mp h
      obtain ⟨ts, σ2, h2, h3⟩ := bind_eq_ok.mp h2
      refine bind_eq_ok.mpr ⟨t, σ1, ?_, bind_eq (ih h2) h3⟩
      split_ifs at h1 ⊢
      · cases h1
      · exact h1

lemma closeArray_eq_closeBlock {node : Tree} (hb : ∀ t ∈ b.statements.toList, t.kind = .statement)
    (h : closeArray row b σ = .ok node σ') :
    closeBlock b.row.toList b.statements.toList .square σ = .ok node σ' := by
  unfold closeArray at h
  unfold closeBlock
  cases hs : b.statements.toList with
  | nil =>
    rw [hs] at h
    obtain ⟨elements, σ1, h1, h2⟩ := bind_eq_ok.mp h
    exact bind_eq (arrayElements_place h1) h2
  | cons t ts =>
    have ht : t.kind = .statement := hb t (by simp [hs])
    rw [hs] at h
    cases t with
    | expansion id d r cs => cases ht
    | _ => cases h

lemma isEnd_of_atom? (stop : Stop) (h : t.atom? = none) : stop.isEnd t = false := by
  cases t with
  | atom id a => cases h
  | _ => rfl

lemma rowWith_of_atom? {row : List Tree} (h : t.atom? = none) : rowWith row t = row ++ [t] := by
  cases t with
  | atom id a => cases h
  | _ => rfl

/-- A closed block is neither a token nor has it an ending. -/
lemma closeBlock_whole {row : List Tree} (h : closeBlock row statements k σ = .ok t σ') :
    t.atom? = none ∧ t.ending? = none := by
  cases k with
  | round | curly =>
    obtain ⟨ts, σ1, -, h⟩ := bind_eq_ok.mp h
    cases h
    exact ⟨rfl, rfl⟩
  | square =>
    unfold closeBlock at h
    split_ifs at h
    · obtain ⟨elements, σ1, -, h⟩ := bind_eq_ok.mp h
      unfold array at h
      split_ifs at h
      · cases h
      · obtain ⟨opening, σ2, -, h⟩ := bind_eq_ok.mp h
        obtain ⟨inner, σ3, -, h⟩ := bind_eq_ok.mp h
        cases h
        exact ⟨rfl, rfl⟩
    · cases h

lemma buildList_kind {content : List Item} {row : List Tree} {left : List Tree × List Tree}
    (h : buildList stop content row statements σ = .ok left σ')
    (hs : ∀ t ∈ statements, t.kind = .statement) : ∀ t ∈ left.2, t.kind = .statement := by
  induction content generalizing row statements σ with
  | nil =>
    rw [buildList_nil] at h
    cases h
    exact hs
  | cons i is ih =>
    rw [buildList_cons] at h
    obtain ⟨t, σ1, -, h⟩ := bind_eq_ok.mp h
    split_ifs at h
    · obtain ⟨statements', σ2, h1, h2⟩ := bind_eq_ok.mp h
      exact ih h2 (closeRow_kind h1 hs)
    · exact ih h hs

namespace Reading

variable {σ0 σ σ' : BuildState} {content : List Item}

lemma drop_index {i : Nat} (ht : row[i]? = some t) :
    row.toList.drop i = t :: row.toList.drop (i + 1) := by
  obtain ⟨hlt, rfl⟩ := Array.getElem?_eq_some_iff.mp ht
  rw [drop_eq_getElem_cons (by simpa using hlt)]
  simp

section

variable (hr : Reading stop around row.toList start σ0 b content σ)
include hr

lemma closed (ht : row[start + (flatList content).length]? = some t) {k : Bracket}
    (hc : t.closes? = some k) {how : Step} (hs : stepToken read row start stop b t σ = .ok how σ') :
    ∃ node, how = .done node (b.index - start) ∧
      Reads stop around (row.toList.drop start) σ0 node (b.index - start) σ' := by
  obtain ⟨hk, node, rfl, hnode⟩ := stepToken_closing hc hr.levels hs
  have hclose : closeBlock b.row.toList b.statements.toList k σ = .ok node σ' := by
    cases k with
    | square => exact closeArray_eq_closeBlock (buildList_kind hr.built (by simp)) hnode
    | round | curly =>
      obtain ⟨statements, σ1, h1, h2⟩ := bind_eq_ok.mp hnode
      rw [close_eq_closeRow] at h1
      obtain ⟨ts, h1', rfl⟩ := map_eq_ok.mp h1
      exact bind_eq h1' h2
  refine ⟨node, rfl, ?_⟩
  have hsize : b.index - start = (flatList content).length := by
    rw [hr.index]
    omega
  have hrow : row.toList.drop start =
      flatList content ++ t :: row.toList.drop (start + (flatList content).length + 1) := by
    rw [hr.read, drop_index ht]
  rw [hsize]
  exact .closed hrow hr.fits hc hk hr.built hclose

/-- One more item of a block, which reaches over the tokens of the item. -/
lemma more {i : Item}
    (hi : row.toList.drop (start + (flatList content).length) =
      i.flat ++ row.toList.drop (start + (flatList content).length + i.flat.length))
    (hopen : i.Open around) {b' : Block} (hindex : b'.index = b.index + i.flat.length)
    (hlevels : b'.levels = b.levels)
    (hbuilt : buildList stop [i] b.row.toList b.statements.toList σ =
      .ok (b'.row.toList, b'.statements.toList) σ') :
    Reading stop around row.toList start σ0 b' (content ++ [i]) σ' where
  index := by
    rw [hindex, hr.index]
    simp [Int.add_assoc]
  read := by
    rw [hr.read, hi]
    simp [Nat.add_assoc]
  fits := openList_append.mpr ⟨hr.fits, hopen, trivial⟩
  built := by
    rw [buildList_append]
    exact bind_eq hr.built hbuilt
  levels := hlevels.trans hr.levels
  definitions := (keeps_buildList _ _ _ _ hbuilt).trans hr.definitions

/-- A token that is no bracket becomes part of the block. -/
lemma plain (ht : row[start + (flatList content).length]? = some t) (ho : t.opens? = none)
    (hc : t.closes? = none) (hd : t.isReplacing = false) {how : Step}
    (hs : stepToken read row start stop b t σ = .ok how σ') :
    ∃ b' content', how = .more b' ∧ Reading stop around row.toList start σ0 b' content' σ' := by
  have hlevels : b.levels.inDirective = false := by
    rw [hr.levels]
    rfl
  rw [stepToken_plain ho hc hd hlevels] at hs
  have hrow : row.toList.drop (start + (flatList content).length) = (token t).flat ++
      row.toList.drop (start + (flatList content).length + (token t).flat.length) := by
    rw [drop_index ht]
    simp
  have hopen : (token t).Open around := ⟨ho, hc⟩
  split_ifs at hs with hend
  · obtain ⟨statements, σ1, h1, h2⟩ := bind_eq_ok.mp hs
    cases h2
    refine ⟨_, content ++ [.token t], rfl, hr.more hrow hopen ?_ ?_ ?_⟩
    · simp
    · rfl
    · rw [buildList_cons, build_token, pure_bind, if_pos hend]
      refine bind_eq h1 ?_
      rw [buildList_nil]
      rfl
  · cases hs
    refine ⟨_, content ++ [.token t], rfl, hr.more hrow hopen ?_ ?_ ?_⟩
    · simp
    · rfl
    · rw [buildList_cons, build_token, pure_bind, if_neg hend, buildList_nil]
      rfl

/-- Behind an opening bracket the block inside is read, and becomes one item. -/
lemma opened (ht : row[start + (flatList content).length]? = some t) {k : Bracket}
    (ho : t.opens? = some k) (hread : Sound read) (hplain : ∀ t ∈ row, t.isReplacing = false)
    {how : Step} (hs : stepToken read row start stop b t σ = .ok how σ') :
    ∃ b' content', how = .more b' ∧ Reading stop around row.toList start σ0 b' content' σ' := by
  rw [stepToken_opening ho, hr.levels, Levels.push_ofOpen] at hs
  obtain ⟨⟨node, size⟩, σ1, h1, h2⟩ := bind_eq_ok.mp hs
  cases h2
  have hne : row ≠ #[] := by
    rintro rfl
    cases ht
  have hnext : b.index + 1 = (start + (flatList content).length + 1 : Nat) := by
    rw [hr.index]
    rfl
  rw [hnext] at h1
  cases hread hne hplain hr.definitions h1 with
  | ended _ _ haround => cases haround
  | @closed inner c _ rest k' left σ2 _ hrow hopen hc hk hcontent hclose =>
    have hi : row.toList.drop (start + (flatList content).length) =
        (group t c inner).flat ++ rest := by
      rw [drop_index ht, hrow]
      simp
    have hlen : (group t c inner).flat.length = (flatList inner).length + 2 := by
      simp
    have hrest : rest = row.toList.drop
        (start + (flatList content).length + (group t c inner).flat.length) := by
      rw [← drop_drop, hi, drop_left]
    refine ⟨_, content ++ [.group t c inner], rfl, hr.more (hrest ▸ hi) ?_ ?_ ?_ ?_⟩
    · exact ⟨k, ho, ⟨k', hc, hk⟩, hopen⟩
    · rw [hlen, Int.natCast_add, ← Int.add_assoc]
      rfl
    · rfl
    · have hnode : (group t c inner).build stop σ = .ok node σ' := by
        rw [build, ho, hc]
        exact bind_eq hcontent hclose
      have hinner := (closeBlock_whole hclose).1
      rw [buildList_cons]
      refine bind_eq hnode ?_
      rw [if_neg (by simp [isEnd_of_atom? stop hinner]), rowWith_of_atom? hinner, buildList_nil]
      simp
      rfl

lemma ended (ht : row[start + (flatList content).length]? = none) {node : Tree} {size : Int}
    (hlevels : b.levels.unclosed? = none)
    (hs : (do return (← statement (← b.close).toList, b.index - start) : Build (Tree × Int)) σ =
      .ok (node, size) σ') : Reads stop around (row.toList.drop start) σ0 node size σ' := by
  have haround : around = [] := Levels.eq_nil_of_unclosed? (hr.levels ▸ hlevels)
  obtain ⟨statements, σ1, h1, h2⟩ := bind_eq_ok.mp hs
  obtain ⟨node', σ2, h2, h3⟩ := bind_eq_ok.mp h2
  cases h3
  rw [close_eq_closeRow] at h1
  obtain ⟨ts, h1', rfl⟩ := map_eq_ok.mp h1
  have hsize : b.index - start = (flatList content).length := by
    rw [hr.index]
    omega
  have hrow : row.toList.drop start = flatList content := by
    have : row.toList.drop (start + (flatList content).length) = [] := by simpa using ht
    rw [hr.read, this, append_nil]
  rw [hsize]
  exact .ended hrow (haround ▸ hr.fits) haround hr.built h1' h2

end

lemma blockFrom (hread : Sound read) (hplain : ∀ t ∈ row, t.isReplacing = false) {fuel : Nat}
    (hr : Reading stop around row.toList start σ0 b content σ) {node : Tree} {size : Int}
    (h : blockFrom read row start stop fuel b σ = .ok (node, size) σ') :
    Reads stop around (row.toList.drop start) σ0 node size σ' := by
  induction fuel generalizing b content σ with
  | zero => cases h
  | succ fuel ih =>
    rw [blockFrom_succ hr.index] at h
    cases ht : row[start + (flatList content).length]? with
    | none =>
      rw [ht] at h
      dsimp only at h
      cases hl : b.levels.unclosed? with
      | some message =>
        rw [hl] at h
        cases h
      | none =>
        rw [hl] at h
        exact hr.ended ht hl h
    | some t =>
      rw [ht] at h
      obtain ⟨how, σ1, h1, h2⟩ := bind_eq_ok.mp h
      have hmem : t.isReplacing = false := hplain t (Array.mem_of_getElem? ht)
      rw [step_eq_stepToken hmem hr.definitions] at h1
      cases ho : t.opens? with
      | some k =>
        obtain ⟨b', content', rfl, hr'⟩ := hr.opened ht ho hread hplain h1
        exact ih hr' h2
      | none =>
        cases hc : t.closes? with
        | some k =>
          obtain ⟨node', rfl, hreads⟩ := hr.closed ht hc h1
          cases h2
          exact hreads
        | none =>
          obtain ⟨b', content', rfl, hr'⟩ := hr.plain ht ho hc hmem h1
          exact ih hr' h2

end Reading

/-- Every block without directives is read as its outline says. -/
lemma sound_block (depth : Nat) : Sound (block depth) := by
  induction depth with
  | zero =>
    intro row start around stop σ node size σ' hne hplain hσ h
    cases h
  | succ depth ih =>
    intro row start around stop σ node size σ' hne hplain hσ h
    unfold block at h
    rw [if_neg (by simpa using hne)] at h
    have hr : Reading stop around row.toList start σ ⟨start, #[], #[], .ofOpen around⟩ [] σ :=
      ⟨by simp, by simp, trivial, by rw [buildList_nil]; rfl, rfl, hσ⟩
    exact hr.blockFrom ih hplain h

end Build

namespace Item

/-- The last of the tokens of several items is the last of the items, if it is no bracket. -/
lemma exists_of_flatList_concat {around : List Bracket} {content : List Item} {row : List Tree}
    {t : Tree} (hopen : OpenList around content) (ht : t.closes? = none)
    (h : flatList content = row ++ [t]) :
    ∃ front, content = front ++ [.token t] ∧ flatList front = row := by
  rcases eq_nil_or_concat content with rfl | ⟨front, i, rfl⟩
  · simp at h
  · rw [concat_eq_append] at hopen h ⊢
    rw [flatList_append] at h
    cases i with
    | token u =>
      obtain ⟨hrow, rfl⟩ : flatList front = row ∧ u = t := by simpa using h
      exact ⟨front, rfl, hrow⟩
    | group o c inner =>
      obtain ⟨_, _, ⟨k, hc, _⟩, _⟩ := (openList_append.mp hopen).2.1
      have hlast : c = t := by
        have h : (flatList front ++ o :: flatList inner) ++ [c] = row ++ [t] := by simpa using h
        simpa using (append_inj' h rfl).2
      rw [hlast, ht] at hc
      cases hc

end Item

namespace Script

/-- How a script is read from its tokens: they have an outline, and it is built into the tree. -/
structure Outlined (tokens : List Atom) (firstId : NodeId) (tree : Tree) (content : List Item) :
    Prop where
  tokens : Item.flatList content = leaves firstId tokens
  fits : Item.OpenList [] content
  built : ∃ σ left σ1 statements σ2 σ', Item.buildList .both content [] [] σ = .ok left σ1 ∧
    Build.closeRow left.1 left.2 σ1 = .ok statements σ2 ∧
    Build.statement statements σ2 = .ok tree σ'

lemma leaves_append (firstId : NodeId) (as bs : List Atom) :
    leaves firstId (as ++ bs) = leaves firstId as ++ leaves (firstId + as.length) bs := by
  induction as generalizing firstId with
  | nil => simp [leaves]
  | cons a as ih => simp [leaves, ih, Nat.add_assoc, Nat.add_comm 1]

variable {tokens : List Atom} {firstId : NodeId}

lemma exists_of_mem_leaves {t : Tree} (ht : t ∈ leaves firstId tokens) :
    ∃ id, ∃ a ∈ tokens, t = .atom id a := by
  induction tokens generalizing firstId with
  | nil => simp [leaves] at ht
  | cons a as ih =>
    rcases mem_cons.mp ht with rfl | ht
    · exact ⟨firstId, a, mem_cons_self, rfl⟩
    · obtain ⟨id, b, hb, rfl⟩ := ih ht
      exact ⟨id, b, mem_cons_of_mem _ hb, rfl⟩

lemma isReplacing_of_mem_leaves {t : Tree} (h : ∀ a ∈ tokens, a.isReplacing = false)
    (ht : t ∈ leaves firstId tokens) : t.isReplacing = false := by
  obtain ⟨id, a, ha, rfl⟩ := exists_of_mem_leaves ht
  exact h a ha

lemma outlined_of_reads {σ σ' : BuildState} {tree : Tree} {size : Int}
    (h : Build.Reads .both [] (leaves firstId (tokens ++ [.fileEnd])) σ tree size σ') :
    ∃ content, Outlined tokens firstId tree content := by
  cases h with
  | closed _ _ _ hk => cases hk
  | @ended content _ left statements σ1 σ2 _ hcontent hopen _ hbuilt hclose hnode =>
    rw [leaves_append] at hcontent
    obtain ⟨front, rfl, hfront⟩ := exists_of_flatList_concat hopen rfl hcontent.symm
    rw [buildList_append] at hbuilt
    obtain ⟨left', σ3, h1, h2⟩ := bind_eq_ok.mp hbuilt
    rw [buildList_cons, build_token, pure_bind] at h2
    -- the end of the script closes the last statement
    change (do buildList .both [] [] (← closeRow left'.1 left'.2)) σ3 = _ at h2
    obtain ⟨statements', σ4, h2, h3⟩ := bind_eq_ok.mp h2
    rw [buildList_nil] at h3
    cases h3
    cases hclose
    exact ⟨front, hfront, (openList_append.mp hopen).1, σ, left', σ3, statements', σ1, σ',
      h1, h2, hnode⟩

/-! ### Reading a script -/

lemma length_leaves (firstId : NodeId) (tokens : List Atom) :
    (leaves firstId tokens).length = tokens.length := by
  induction tokens generalizing firstId with
  | nil => rfl
  | cons a as ih => simp [leaves, ih]

section

variable (firstId : NodeId) (tokens : List Atom)

lemma length_row : (leaves firstId (tokens ++ [.fileEnd])).length = tokens.length + 1 := by
  simp [length_leaves]

lemma row_ne_empty : (leaves firstId (tokens ++ [.fileEnd])).toArray ≠ #[] := by
  simp [leaves_append, leaves]

end

lemma isReplacing_row (hplain : ∀ a ∈ tokens, a.isReplacing = false) (firstId : NodeId) :
    ∀ t ∈ (leaves firstId (tokens ++ [.fileEnd])).toArray, t.isReplacing = false := by
  intro t ht
  refine isReplacing_of_mem_leaves (fun a ha => ?_) (mem_toArray.mp ht)
  obtain ha | ha := mem_append.mp ha
  · exact hplain a ha
  · rw [mem_singleton.mp ha]
    rfl

def ofResult : EStateM.Result Fault BuildState (Tree × Int) → Except Fault Script
  | .ok (tree, _) state => .ok ⟨tree, state.nextId⟩
  | .error fault _ => .error fault

lemma ofResult_eq_ok {r : EStateM.Result Fault BuildState (Tree × Int)} {script : Script} :
    ofResult r = .ok script ↔ ∃ size σ, r = .ok (script.tree, size) σ ∧ σ.nextId = script.nextId := by
  cases r with
  | ok p σ =>
    constructor
    · intro h
      cases h
      exact ⟨p.2, σ, rfl, rfl⟩
    · rintro ⟨size, σ, h, hnext⟩
      cases h
      rw [ofResult, hnext]
  | error fault σ => simp [ofResult]

lemma read_eq_of_lex {text : String} (hlex : Atom.lex text = .ok tokens) (firstId : NodeId) :
    read text firstId = ofResult (block (tokens.length + 1 + expansionLimit)
      (leaves firstId (tokens ++ [.fileEnd])).toArray 0 .none .both
      ⟨firstId + (tokens.length + 1), []⟩) := by
  rw [read, hlex, ← length_row firstId]
  rfl

/-- A text with the given tokens is a script exactly if the block of its tokens can be read. -/
lemma read_eq_ok {text : String} {script : Script} (hlex : Atom.lex text = .ok tokens) :
    read text firstId = .ok script ↔ ∃ size σ,
      block ((leaves firstId (tokens ++ [.fileEnd])).length + expansionLimit)
        (leaves firstId (tokens ++ [.fileEnd])).toArray 0 (.ofOpen []) .both
        ⟨firstId + (tokens.length + 1), []⟩ = .ok (script.tree, size) σ ∧
      σ.nextId = script.nextId := by
  rw [read_eq_of_lex hlex, ofResult_eq_ok, length_row]
  rfl

/-- A script without directives that replace tokens is read by way of its outline. -/
lemma exists_outlined {text : String} {script : Script} (hlex : Atom.lex text = .ok tokens)
    (hplain : ∀ a ∈ tokens, a.isReplacing = false) (hread : read text firstId = .ok script) :
    ∃ content, Outlined tokens firstId script.tree content := by
  obtain ⟨size, σ, hblock, -⟩ := (read_eq_ok hlex).mp hread
  exact outlined_of_reads (sound_block _ (row_ne_empty firstId tokens)
    (isReplacing_row hplain firstId) rfl hblock)

end Script

end ArmaScript
