import ArmaScript.Proofs.BuildCorrespondence
import ArmaScript.Proofs.Rejecting

/-!
# Blocks that are read alike

A row of tokens is read in the same way wherever it stands: with other identities, with other tokens in
front, and with other statements before it. Two readers go through corresponding tokens side by side,
and what they build is linked, as long as there are no definitions and neither comes to its limit.

A block inside brackets looks back at the token in front of it, so its row must have one. The outermost
block does not, and it alone may have statements in front in only one of the rows.
-/

namespace ArmaScript.Build

open Array List

variable {κ κ' : Link} {t u : Tree} {ts us : List Tree} {α : Type}

/-- A row of tokens that has `k` more tokens in front than another. -/
structure Shifted (κ : Link) (k : Nat) (row row' : Array Tree) : Prop where
  size : row'.size = row.size + k
  tokens : ∀ i : Nat, Option.Rel (Nodes κ) row[i]? row'[i + k]?

section

variable {k start : Nat} {row row' : Array Tree} {stop : Stop}

lemma Shifted.mono (hκ : κ ≤ κ') (h : Shifted κ k row row') : Shifted κ' k row row' :=
  ⟨h.size, fun i => (h.tokens i).imp fun _ _ h => h.mono hκ.1⟩

lemma Shifted.at?_pred (h : Shifted κ k row row') (hstart : 0 < start) :
    Option.Rel (Nodes κ) (at? row ((start : Int) - 1))
      (at? row' (((start + k : Nat) : Int) - 1)) := by
  rw [Build.at?_pred row hstart, Build.at?_pred row' (Nat.add_pos_left hstart k),
    Nat.sub_add_comm hstart]
  exact h.tokens _

/-- A node and how many tokens it reaches over. -/
def Reached (κ : Link) (p q : Tree × Int) : Prop :=
  Nodes κ p.1 q.1 ∧ ∃ n : Nat, p.2 = n ∧ q.2 = n

lemma alike_conditionalNode (h : Shifted κ k row row') (hstart : 0 < start) (hts : Rows κ ts us) :
    Alike True κ (conditionalNode row start ts) (conditionalNode row' (start + k : Nat) us) Nodes := by
  unfold conditionalNode
  obtain ⟨hs, ht⟩ | ⟨d, e, hs, ht, hde⟩ := (h.at?_pred hstart).eq_or_exists
  · rw [hs, ht]
    exact .throw
  · rw [hs, ht]
    refine alike_fresh.bind fun κ1 h1 i j hij => .pure (.conditional hij ?_)
    exact .cons (hde.mono h1.1) (hts.mono h1.1)

/-- Conditionals that are read alike so far. -/
structure Conditional.Alike (κ : Link) (k start i : Nat) (c c' : Conditional) : Prop where
  start_le : start ≤ i
  index : c.index = i
  index' : c'.index = (i + k : Nat)
  taken : Rows κ c.taken.toList c'.taken.toList
  endifs : c.endifs = c'.endifs
  levels : c.levels = c'.levels

namespace Conditional.Alike

variable {i : Nat} {c c' : Conditional}

lemma mono (hκ : κ ≤ κ') (h : Alike κ k start i c c') : Alike κ' k start i c c' :=
  { h with taken := h.taken.mono hκ.1 }

lemma isComplete (h : Alike κ k start i c c') : c.isComplete = c'.isComplete := by
  rw [Conditional.isComplete, Conditional.isComplete, h.endifs, h.levels]

lemma noteOpening (h : Alike κ k start i c c') (htu : Nodes κ t u) :
    Alike κ k start i (c.noteOpening t) (c'.noteOpening u) := by
  unfold Conditional.noteOpening
  rw [htu.isOpening]
  split
  · exact { h with levels := by rw [h.levels] }
  · exact h

lemma noteClosing (h : Alike κ k start i c c') (htu : Nodes κ t u) :
    Alike κ k start i (c.noteClosing t) (c'.noteClosing u) := by
  unfold Conditional.noteClosing
  rw [htu.isClosing, htu.isMark]
  split
  · exact { h with levels := by rw [h.levels] }
  · exact h

lemma take (h : Alike κ k start i c c') (htu : Nodes κ t u) :
    Alike κ k start i (c.take t) (c'.take u) where
  start_le := h.start_le
  index := h.index
  index' := h.index'
  taken := by
    simp only [Conditional.take, toList_push]
    exact rel_append h.taken (.cons htu .nil)
  endifs := by
    simp only [Conditional.take, htu.isDirective, h.endifs]
  levels := h.levels

lemma goTo (h : Alike κ k start i c c') {j : Nat} (hij : i ≤ j) {m m' : Int} (hm : m = j)
    (hm' : m' = (j + k : Nat)) :
    Alike κ k start j { c with index := m } { c' with index := m' } :=
  ⟨h.start_le.trans hij, hm, hm', h.taken, h.endifs, h.levels⟩

end Conditional.Alike

variable {P : Link → α → α → Prop} {fuel fuel' : Nat}

lemma alike_exhausted_left {y : Build α} : Alike True κ (throw .exhausted) y P :=
  fun _ _ _ => .left trivial

lemma alike_exhausted_right {x : Build α} : Alike True κ x (throw .exhausted) P :=
  fun _ _ _ => .right trivial

lemma alike_conditionalFrom {inner inner' : Int → Levels → Build (Tree × Int)}
    (h : Shifted κ k row row') (hstart : 0 < start)
    (hinner : ∀ ⦃κ'⦄, κ ≤ κ' → ∀ i : Nat, 0 < i → ∀ levels,
      Alike True κ' (inner i levels) (inner' (i + k : Nat) levels) Reached)
    {i : Nat} {c c' : Conditional} (hc : c.Alike κ k start i c') :
    Alike True κ (conditionalFrom inner row start stop fuel c)
      (conditionalFrom inner' row' (start + k : Nat) stop fuel' c') Reached := by
  induction fuel generalizing κ fuel' i c c' with
  | zero => exact alike_exhausted_left
  | succ fuel ih =>
    cases fuel' with
    | zero => exact alike_exhausted_right
    | succ fuel' =>
      have hsize : c.index - start = (i - start : Nat) := by
        have := hc.start_le
        rw [hc.index]
        omega
      have hsize' : c'.index - (start + k : Nat) = (i - start : Nat) := by
        have := hc.start_le
        rw [hc.index']
        omega
      rw [conditionalFrom_succ hc.index, conditionalFrom_succ hc.index']
      obtain ⟨hs, ht⟩ | ⟨t, u, hs, ht, htu⟩ := (h.tokens i).eq_or_exists
      · rw [hs, ht]
        refine .ite (by rw [hc.isComplete]) ?_ .throw
        exact (alike_conditionalNode h hstart hc.taken).bind fun κ1 _ node node' hnode =>
          .pure ⟨hnode, i - start, hsize, hsize'⟩
      · rw [hs, ht]
        have hc := hc.noteOpening htu
        dsimp only
        rw [htu.startsConditional, hc.isComplete, htu.isEnd, hc.levels, htu.closesOuter,
          htu.isDirective, htu.kind, htu.isClosing]
        refine .ite Iff.rfl ?_ (.ite Iff.rfl ?_ ?_)
        · have hindex : (c.noteOpening t).index + 1 = (i + 1 : Nat) := by
            rw [hc.index]
            rfl
          have hindex' : (c'.noteOpening u).index + 1 = (i + 1 + k : Nat) := by
            rw [hc.index']
            omega
          rw [hindex, hindex']
          refine (hinner κ.le_refl (i + 1) (Nat.succ_pos i) _).bind ?_
          rintro κ1 h1 ⟨node, size⟩ ⟨node', size'⟩ ⟨hnode, n, rfl, rfl⟩
          refine ih (h.mono h1) (fun κ' hκ' => hinner (Link.le_trans h1 hκ'))
            (((hc.mono h1).take hnode).goTo (j := i + n + 2) (by omega) ?_ ?_)
          · rw [((hc.mono h1).take hnode).index]
            omega
          · rw [((hc.mono h1).take hnode).index']
            omega
        · have htaken : Rows κ
              (if u.kind == .fileEnd || isClosing u then (c.noteOpening t).taken
                else (c.noteOpening t).taken.push t).toList
              (if u.kind == .fileEnd || isClosing u then (c'.noteOpening u).taken
                else (c'.noteOpening u).taken.push u).toList := by
            split
            · exact hc.taken
            · rw [toList_push, toList_push]
              exact rel_append hc.taken (.cons htu .nil)
          refine (alike_conditionalNode h hstart htaken).bind fun κ1 _ node node' hnode =>
            .pure ⟨hnode, i - start, ?_, ?_⟩
          · simpa using hsize
          · simpa using hsize'
        · have hc := (hc.take htu).noteClosing htu
          refine ih h hinner (hc.goTo (j := i + 1) (by omega) ?_ ?_)
          · rw [hc.index]
            rfl
          · rw [hc.index']
            omega

lemma alike_conditional (h : Shifted κ k row row') {depth depth' : Nat} (hstart : 0 < start)
    (levels : Levels) : Alike True κ (conditional row stop depth start levels)
      (conditional row' stop depth' (start + k : Nat) levels) Reached := by
  induction depth generalizing κ depth' start levels with
  | zero => exact alike_exhausted_left
  | succ depth ih =>
    cases depth' with
    | zero => exact alike_exhausted_right
    | succ depth' =>
      refine alike_conditionalFrom h hstart (fun κ' hκ i hi levels => ih (h.mono hκ) hi levels)
        (i := start) ⟨Nat.le_refl _, rfl, rfl, .nil, rfl, rfl⟩

/-! ### Blocks -/

/-- Blocks that are read alike up to the index `i`. The second one has some statements more in
front. -/
structure Block.Alike (κ : Link) (k start : Nat) (front : List Tree) (around : Levels) (i : Nat)
    (b b' : Block) : Prop where
  index : b.index = i
  index' : b'.index = (i + k : Nat)
  length_le : start + b.row.toList.length ≤ i
  row : Rows κ b.row.toList b'.row.toList
  statements : ∃ rest, b'.statements.toList = front ++ rest ∧ Rows κ b.statements.toList rest
  levels : b.levels = around
  levels' : b'.levels = around

/-- Where blocks that are read alike start. Inside brackets and directives they start behind a
token, and have the same statements. -/
def Starts (k : Nat) (front : List Tree) (around : Levels) (start start' : Nat) : Prop :=
  around ≠ .none → 0 < start ∧ start' = start + k ∧ front = []

/-- What follows a token in blocks that are read alike. -/
def Step.Alike (κ : Link) (k start : Nat) (front : List Tree) (around : Levels) : Step → Step → Prop
  | .more b, .more b' => ∃ i, b.Alike κ k start front around i b'
  | .done node size, .done node' size' => around ≠ .none ∧ Reached κ (node, size) (node', size')
  | _, _ => False

/-- Readers that read blocks alike, wherever they stand. -/
def ReadersAlike (κ : Link) (read read' : Reader) : Prop :=
  ∀ ⦃κ'⦄, κ ≤ κ' → ∀ ⦃k : Nat⦄ ⦃row row' : Array Tree⦄ ⦃start : Nat⦄ ⦃around : Levels⦄
    (stop : Stop), Shifted κ' k row row' → (0 < start ∧ start ≤ row.size ∨ around = .none) →
    Alike True κ' (read row start around stop) (read' row' (start + k : Nat) around stop) Reached

variable {front : List Tree} {around : Levels} {i start' : Nat} {b b' : Block} {read read' : Reader}

lemma alike_close (b b' : Block) (hrow : Rows κ b.row.toList b'.row.toList)
    (hstatements : ∃ rest, b'.statements.toList = front ++ rest ∧ Rows κ b.statements.toList rest) :
    Alike True κ b.close b'.close fun κ' ss ss' =>
      ∃ rest, ss'.toList = front ++ rest ∧ Rows κ' ss.toList rest := by
  obtain ⟨rest, hrest, hrows⟩ := hstatements
  have hempty : b.row.isEmpty = b'.row.isEmpty := by
    rw [← isEmpty_toList, ← isEmpty_toList, hrow.isEmpty]
  refine .ite (by rw [hempty]) (.pure ⟨rest, hrest, hrows⟩) ?_
  refine (alike_arrange hrow).bind fun κ1 h1 t u htu => .pure ⟨rest ++ [u], ?_, ?_⟩
  · rw [toList_push, hrest, List.append_assoc]
  · rw [toList_push]
    exact List.rel_append (hrows.mono h1.1) (.cons htu .nil)

namespace Block.Alike

lemma mono (hκ : κ ≤ κ') (h : Alike κ k start front around i b b') :
    Alike κ' k start front around i b b' := by
  obtain ⟨rest, hrest, hrows⟩ := h.statements
  exact { h with row := h.row.mono hκ.1, statements := ⟨rest, hrest, hrows.mono hκ.1⟩ }

variable {m m' : Int}

lemma push (h : Alike κ k start front around i b b') (htu : Nodes κ t u) {j : Nat} (hij : i < j)
    (hm : m = j) (hm' : m' = (j + k : Nat)) :
    Alike κ k start front around j { b with index := m, row := b.row.push t }
      { b' with index := m', row := b'.row.push u } where
  index := hm
  index' := hm'
  length_le := by
    have := h.length_le
    rw [toList_push, length_append]
    simp only [length_singleton]
    omega
  row := by
    rw [toList_push, toList_push]
    exact rel_append h.row (.cons htu .nil)
  statements := h.statements
  levels := h.levels
  levels' := h.levels'

lemma begin (k start : Nat) (around : Levels) :
    Alike κ k start [] around start ⟨start, #[], #[], around⟩
      ⟨(start + k : Nat), #[], #[], around⟩ :=
  ⟨rfl, rfl, Nat.le_refl _, .nil, ⟨[], rfl, .nil⟩, rfl, rfl⟩

lemma closed (h : Alike κ k start front around i b b') {ss ss' : Array Tree}
    (hss : ∃ rest, ss'.toList = front ++ rest ∧ Rows κ ss.toList rest) {j : Nat} (hj : start ≤ j)
    (hm : m = j) (hm' : m' = (j + k : Nat)) :
    Alike κ k start front around j { b with index := m, row := #[], statements := ss }
      { b' with index := m', row := #[], statements := ss' } where
  index := hm
  index' := hm'
  length_le := hj
  row := .nil
  statements := hss
  levels := h.levels
  levels' := h.levels'

end Block.Alike

lemma alike_stepOpening (h : Shifted κ k row row') (hread : ReadersAlike κ read read')
    (hi : i < row.size) (hb : b.Alike κ k start front around i b') (inner : Levels) :
    Alike True κ (stepOpening read row b inner stop) (stepOpening read' row' b' inner stop)
      fun κ' => Step.Alike κ' k start front around := by
  have hindex : b.index + 1 = (i + 1 : Nat) := by
    rw [hb.index]
    rfl
  have hindex' : b'.index + 1 = (i + 1 + k : Nat) := by
    rw [hb.index']
    omega
  unfold stepOpening
  rw [hindex, hindex']
  refine (hread κ.le_refl stop h (.inl ⟨Nat.succ_pos i, hi⟩)).bind ?_
  rintro κ1 h1 ⟨node, size⟩ ⟨node', size'⟩ ⟨hnode, n, rfl, rfl⟩
  refine .pure ⟨i + n + 2, (hb.mono h1).push hnode (by omega) ?_ ?_⟩
  · rw [hb.index]
    omega
  · rw [hb.index']
    omega

mutual

theorem rows_tokens : ∀ {t u : Tree}, Nodes κ t u → Rows κ t.tokens u.tokens
  | _, _, .atom h ha => by
    rw [Tree.tokens, Tree.tokens]
    exact .cons (.atom h ha) .nil
  | _, _, .statement _ hcs | _, _, .code _ hcs | _, _, .array _ hcs | _, _, .conditional _ hcs
  | _, _, .resolution _ _ hcs => by
    rw [Tree.tokens, Tree.tokens]
    exact rows_tokensList hcs

theorem rows_tokensList :
    ∀ {ts us : List Tree}, Rows κ ts us → Rows κ (Tree.tokensList ts) (Tree.tokensList us)
  | _, _, .nil => by
    rw [Tree.tokensList]
    exact .nil
  | _, _, .cons h hs => by
    rw [Tree.tokensList, Tree.tokensList]
    exact rel_append (rows_tokens h) (rows_tokensList hs)

end

lemma shifted_zero (h : Rows κ ts us) : Shifted κ 0 ts.toArray us.toArray :=
  ⟨by simp [h.length_eq], fun i => by simpa using h.getElem? i⟩

lemma alike_fromStart (hread : ReadersAlike κ read read') (hκ : κ ≤ κ') (stop : Stop)
    (h : Shifted κ' 0 row row') :
    Alike True κ' (read row 0 .none stop) (read' row' 0 .none stop) Reached :=
  @hread κ' hκ 0 row row' 0 .none stop h (.inr rfl)

lemma alike_stepConditional (h : Shifted κ k row row') (hread : ReadersAlike κ read read')
    (hb : b.Alike κ k start front around i b') :
    Alike True κ (stepConditional read row stop b) (stepConditional read' row' stop b')
      fun κ' => Step.Alike κ' k start front around := by
  obtain ⟨index, begun, statements, levels⟩ := b
  obtain ⟨index', begun', statements', levels'⟩ := b'
  obtain rfl : index = i := hb.index
  obtain rfl : index' = (i + k : Nat) := hb.index'
  obtain rfl : around = levels := hb.levels.symm
  obtain rfl : around = levels' := hb.levels'.symm
  have hindex' : ((i + k : Nat) : Int) + 1 = (i + 1 + k : Nat) := by omega
  unfold stepConditional
  dsimp only
  rw [hindex']
  refine (alike_conditional h (Nat.succ_pos i) _).bind ?_
  rintro κ1 h1 ⟨node, size⟩ ⟨node', size'⟩ ⟨hnode, -⟩
  refine ReadAlike.get.bind fun s t hst => ?_
  dsimp only
  rw [hst.left, hst.right]
  refine (alike_resolve hnode.children _ _ _).bind ?_
  rintro κ2 h2 ⟨taken, children⟩ ⟨taken', children'⟩ ⟨htaken, hchildren⟩
  have hrow := hb.row.mono (Link.le_trans h1 h2).1
  have hagain := shifted_zero (rows_tokensList (List.rel_append hrow htaken))
  have hfrom := alike_fromStart hread (Link.le_trans h1 h2) stop hagain
  refine hfrom.bind ?_
  rintro κ3 h3 ⟨result, n⟩ ⟨result', n'⟩ ⟨hresult, -⟩
  refine alike_fresh.bind fun κ4 h4 id id' hid => ?_
  have h₂4 := Link.le_trans h3 h4
  have hall : Rows κ4 (begun.toList ++ children) (begun'.toList ++ children') :=
    List.rel_append (hrow.mono h₂4.1) (hchildren.mono h₂4.1)
  have hres := Tree.Alike.resolution hid (hresult.mono h4.1).children hall
  have hb := hb.mono (Link.le_trans (Link.le_trans h1 h2) h₂4)
  obtain ⟨rest, hrest, hrows⟩ := hb.statements
  have hle : start + begun.toList.length ≤ i := hb.length_le
  have hlength : begun.toList.length = begun'.toList.length := hb.row.length_eq
  have htokens := (rows_tokensList hall).length_eq
  refine .pure ⟨i + (Tree.tokensList (begun.toList ++ children)).length - begun.toList.length,
    hb.closed ⟨rest ++ [.resolution id' result'.children (begun'.toList ++ children')], ?_, ?_⟩
      ?_ ?_ ?_⟩
  · rw [toList_push, hrest, List.append_assoc]
  · rw [toList_push]
    exact List.rel_append hrows (.cons hres .nil)
  · omega
  · dsimp only
    omega
  · dsimp only
    omega

lemma alike_closeArray (hb : b.Alike κ k start [] around i b') :
    Alike True κ (closeArray row b) (closeArray row' b') Nodes := by
  obtain ⟨rest, hrest, hrows⟩ := hb.statements
  rw [nil_append] at hrest
  subst hrest
  unfold closeArray
  generalize b.statements.toList = ss at hrows
  generalize b'.statements.toList = ss' at hrows
  cases hrows with
  | nil => exact (alike_arrayElements hb.row _ _).bind fun _ _ _ _ h => alike_array h
  | cons htu _ => cases htu <;> exact .throw

lemma alike_closeDirective (h : Shifted κ k row row') (hstart : 0 < start)
    (hb : b.Alike κ k start [] around i b') :
    Alike True κ (closeDirective row start b) (closeDirective row' (start + k : Nat) b') Nodes := by
  obtain ⟨rest, hrest, hrows⟩ := hb.statements
  rw [nil_append] at hrest
  subst hrest
  unfold closeDirective
  obtain ⟨hs, ht⟩ | ⟨d, e, hs, ht, hde⟩ := (h.at?_pred hstart).eq_or_exists
  · rw [hs, ht]
    exact .throw
  · rw [hs, ht]
    dsimp only
    rw [hde.isDirective, hde.not_define, if_neg Bool.false_ne_true, if_neg Bool.false_ne_true]
    refine (alike_arrange (.cons hde hb.row)).bind fun κ1 h1 t u htu => alike_statement ?_
    rw [toList_push, toList_push]
    exact rel_append (hrows.mono h1.1) (.cons htu .nil)

lemma alike_stepToken (h : Shifted κ k row row') (hread : ReadersAlike κ read read')
    (hstarts : Starts k front around start start') (hi : i < row.size)
    (hb : b.Alike κ k start front around i b') (htu : Nodes κ t u) :
    Alike True κ (stepToken read row start stop b t) (stepToken read' row' start' stop b' u)
      fun κ' => Step.Alike κ' k start front around := by
  obtain ⟨index, begun, statements, levels⟩ := b
  obtain ⟨index', begun', statements', levels'⟩ := b'
  obtain rfl : index = i := hb.index
  obtain rfl : index' = (i + k : Nat) := hb.index'
  obtain rfl : around = levels := hb.levels.symm
  obtain rfl : around = levels' := hb.levels'.symm
  unfold stepToken
  dsimp only
  rw [htu.isMark, htu.isMark, htu.isMark, htu.isMark, htu.isMark, htu.isMark, htu.isEnd,
    htu.isDirective, htu.isDirective, htu.kind]
  have hle : start ≤ i := Nat.le_of_add_right_le hb.length_le
  have hsize : (i : Int) - start = (i - start : Nat) ∧
      ((i + k : Nat) : Int) - (start + k : Nat) = (i - start : Nat) := by omega
  have hnext : ((i + k : Nat) : Int) + 1 = (i + 1 + k : Nat) := by omega
  refine .ite Iff.rfl ?_ (.ite Iff.rfl ?_ (.ite Iff.rfl ?_ (.ite Iff.rfl ?_ (.ite Iff.rfl ?_
    (.ite Iff.rfl ?_ (.ite Iff.rfl ?_ (.ite Iff.rfl ?_
      (.ite_same (fun hin => ?_) fun _ => ?_))))))))
  · exact alike_stepOpening h hread hi hb _
  · exact alike_stepOpening h hread hi hb _
  · exact alike_stepOpening h hread hi hb _
  · refine .ite_same (fun _ => .bind_of_throw) fun harray => ?_
    have hne : around ≠ .none := fun h => harray (by rw [h]; rfl)
    obtain ⟨hstart, rfl, rfl⟩ := hstarts hne
    refine (alike_closeArray hb).bind fun κ1 _ node node' hnode => .pure ⟨hne, hnode, _, hsize⟩
  · refine .ite_same (fun _ => .bind_of_throw) fun hparen => ?_
    have hne : around ≠ .none := fun h => hparen (by rw [h]; rfl)
    obtain ⟨hstart, rfl, rfl⟩ := hstarts hne
    refine (alike_close _ _ hb.row hb.statements).bind fun κ1 _ ss ss' ⟨rest, hrest, hss⟩ => ?_
    rw [List.nil_append] at hrest
    subst hrest
    refine (alike_bracketed hss).bind fun κ2 _ node node' hnode => .pure ⟨hne, hnode, _, hsize⟩
  · refine .ite_same (fun _ => .bind_of_throw) fun hcode => ?_
    have hne : around ≠ .none := fun h => hcode (by rw [h]; rfl)
    obtain ⟨hstart, rfl, rfl⟩ := hstarts hne
    refine (alike_close _ _ hb.row hb.statements).bind fun κ1 _ ss ss' ⟨rest, hrest, hss⟩ => ?_
    rw [List.nil_append] at hrest
    subst hrest
    refine (alike_code hss).bind fun κ2 _ node node' hnode => .pure ⟨hne, hnode, _, hsize⟩
  · split
    · refine (alike_close _ _ hb.row hb.statements).bind fun κ1 h1 ss ss' hss => ?_
      exact .pure ⟨i + 1, (hb.mono h1).closed hss (Nat.le_succ_of_le hle) rfl hnext⟩
    · have hrow : Rows κ (begun.push t).toList (begun'.push u).toList := by
        rw [toList_push, toList_push]
        exact List.rel_append hb.row (.cons htu .nil)
      refine (alike_close ⟨i, begun.push t, _, around⟩ ⟨(i + k : Nat), begun'.push u, _, around⟩
        hrow hb.statements).bind fun κ1 h1 ss ss' hss => ?_
      exact .pure ⟨i + 1, (hb.mono h1).closed hss (Nat.le_succ_of_le hle) rfl hnext⟩
  · refine (alike_close _ _ hb.row hb.statements).bind fun κ1 h1 ss ss' hss => ?_
    rw [hnext]
    refine (hread h1 stop (h.mono h1) (.inl ⟨Nat.succ_pos i, hi⟩)).bind ?_
    rintro κ2 h2 ⟨node, size⟩ ⟨node', size'⟩ ⟨hnode, n, rfl, rfl⟩
    obtain ⟨rest, hrest, hrows⟩ := hss
    have hb := hb.mono (Link.le_trans h1 h2)
    refine .pure ⟨i + n + 1, hb.closed ⟨rest ++ [node'], ?_, ?_⟩ ?_ ?_ ?_⟩
    · rw [toList_push, hrest, List.append_assoc]
    · rw [toList_push]
      exact List.rel_append (hrows.mono h2.1) (.cons hnode .nil)
    · omega
    · dsimp only
      omega
    · dsimp only
      omega
  · have hne : around ≠ .none := by
      rintro rfl
      simp [Levels.inDirective, Levels.none] at hin
    obtain ⟨hstart, rfl, rfl⟩ := hstarts hne
    refine (alike_closeDirective h hstart hb).bind fun κ1 _ node node' hnode =>
      .pure ⟨hne, hnode, _, hsize⟩
  · refine .pure ⟨i + 1, ?_⟩
    split
    · exact { hb with index := rfl, index' := hnext, length_le := hb.length_le.step }
    · exact hb.push htu (Nat.lt_succ_self i) rfl hnext

lemma alike_step (h : Shifted κ k row row') (hread : ReadersAlike κ read read')
    (hstarts : Starts k front around start start') (hi : i < row.size)
    (hb : b.Alike κ k start front around i b') (htu : Nodes κ t u) :
    Alike True κ (step read row start stop b t) (step read' row' start' stop b' u)
      fun κ' => Step.Alike κ' k start front around := by
  unfold step
  rw [htu.startsConditional]
  refine .ite Iff.rfl (alike_stepConditional h hread hb) ?_
  refine ReadAlike.get.bind fun s t hst => ?_
  dsimp only
  rw [hst.left, hst.right]
  exact alike_stepToken h hread hstarts hi hb htu

/-- What is read of a whole block. The second one has some statements more in front. -/
def BlockReached (κ : Link) (k : Nat) (front : List Tree) (start start' : Nat)
    (p q : Tree × Int) : Prop :=
  (∃ rest, q.1.children = front ++ rest ∧ Rows κ p.1.children rest) ∧
    (front = [] → start' = start + k → Reached κ p q)

lemma alike_blockFrom (h : Shifted κ k row row') (hread : ReadersAlike κ read read')
    (hstarts : Starts k front around start start') (hb : b.Alike κ k start front around i b') :
    Alike True κ (blockFrom read row start stop fuel b) (blockFrom read' row' start' stop fuel' b')
      fun κ' => BlockReached κ' k front start start' := by
  induction fuel generalizing κ fuel' i b b' with
  | zero => exact alike_exhausted_left
  | succ fuel ih =>
    cases fuel' with
    | zero => exact alike_exhausted_right
    | succ fuel' =>
      unfold blockFrom
      rw [hb.index, hb.index', hb.levels, hb.levels', h.size]
      refine .ite (by omega) ?_ ?_
      · cases around.unclosed? with
        | some message => exact .throw
        | none =>
          refine (alike_close _ _ hb.row hb.statements).bind ?_
          rintro κ1 h1 ss ss' ⟨rest, hrest, hss⟩
          simp only [statement, bind_assoc, pure_bind]
          refine alike_fresh.bind fun κ2 h2 id id' hid => .pure ⟨⟨rest, hrest, hss.mono h2.1⟩, ?_⟩
          rintro rfl rfl
          rw [nil_append] at hrest
          subst hrest
          have hle : start ≤ i := Nat.le_of_add_right_le hb.length_le
          refine ⟨.statement hid (hss.mono h2.1), i - start, ?_, ?_⟩
          · dsimp only
            omega
          · dsimp only
            omega
      · rw [at?_natCast, at?_natCast]
        obtain ⟨hs, ht⟩ | ⟨t, u, hs, ht, htu⟩ := (h.tokens i).eq_or_exists
        · rw [hs, ht]
          exact .throw
        · rw [hs, ht]
          have hi : i < row.size := (Array.getElem?_eq_some_iff.mp hs).1
          refine (alike_step h hread hstarts hi hb htu).bind fun κ1 h1 s s' hss => ?_
          cases s with
          | more b =>
            cases s' with
            | more b' =>
              obtain ⟨j, hb⟩ := hss
              exact ih (h.mono h1) (fun κ' hκ' => hread (Link.le_trans h1 hκ')) hb
            | done node' size' => exact hss.elim
          | done node size =>
            cases s' with
            | more b' => exact hss.elim
            | done node' size' =>
              obtain ⟨hne, hreached⟩ := hss
              obtain ⟨-, -, rfl⟩ := hstarts hne
              exact .pure ⟨⟨_, (nil_append _).symm, hreached.1.children⟩, fun _ _ => hreached⟩

lemma blockFrom_of_isEmpty (h : row.isEmpty) (read : Reader) (start : Nat) (stop : Stop)
    (fuel : Nat) : blockFrom read row start stop (fuel + 1) ⟨start, #[], #[], .none⟩ =
      (do return (← statement [], 0)) := by
  have hsize : (start : Int) ≥ row.size := by
    rw [isEmpty_iff_size_eq_zero.mp h]
    omega
  rw [blockFrom, if_pos hsize]
  simp [Levels.unclosed?, Levels.none, Block.close]

lemma alike_block (depth depth' : Nat) : ReadersAlike κ (block depth) (block depth') := by
  induction depth generalizing κ depth' with
  | zero => exact fun _ _ _ _ _ _ _ _ _ _ => alike_exhausted_left
  | succ depth ih =>
    cases depth' with
    | zero => exact fun _ _ _ _ _ _ _ _ _ _ => alike_exhausted_right
    | succ depth' =>
      intro κ' hκ k row row' start around stop h hstart
      have hstarts : Starts k [] around start (start + k) := fun hne =>
        ⟨(hstart.resolve_right hne).1, rfl, rfl⟩
      have hfrom (fuel fuel' : Nat) : Alike True κ'
          (blockFrom (block depth) row start stop fuel ⟨start, #[], #[], around⟩)
          (blockFrom (block depth') row' (start + k : Nat) stop fuel'
            ⟨(start + k : Nat), #[], #[], around⟩) Reached :=
        .mono_post (alike_blockFrom h (ih depth') hstarts (Block.Alike.begin k start around))
          fun _ _ _ hreached => hreached.2 rfl rfl
      unfold block
      by_cases hrow : row.isEmpty
      · by_cases hrow' : row'.isEmpty
        · rw [if_pos hrow, if_pos hrow']
          exact (alike_statement .nil).bind fun _ _ _ _ hnode => .pure ⟨hnode, 0, rfl, rfl⟩
        · have hsize := isEmpty_iff_size_eq_zero.mp hrow
          obtain rfl : around = .none := hstart.resolve_left fun hpos => by omega
          rw [if_pos hrow, if_neg hrow', ← blockFrom_of_isEmpty hrow (block depth) start stop 0]
          exact hfrom _ _
      · have hrow' : ¬row'.isEmpty := by
          rw [isEmpty_iff_size_eq_zero] at hrow ⊢
          rw [h.size]
          omega
        rw [if_neg hrow, if_neg hrow']
        exact hfrom _ _

end

end ArmaScript.Build
