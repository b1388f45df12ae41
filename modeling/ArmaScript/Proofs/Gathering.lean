import ArmaScript.Proofs.Branches

/-!
# What a conditional gathers

A conditional is read as a row that starts with its directive. All other conditionals in it are nodes, so
that no other token of the row starts one. Resolved, it stands for tokens behind its directive. If its
line has no word, this is reported one line below what the reader takes for the place before it.
-/

namespace ArmaScript

open List

/-- The place in the same column, one line further down. -/
def Position.below (p : Position) : Position :=
  ⟨p.line + 1, p.column⟩

lemma Position.offset_empty (p : Position) : p.offset "" = p.below := rfl

variable {ts : List Tree}

lemma Tree.mem_atomsList {a : Atom} : a ∈ Tree.atomsList ts ↔ ∃ t ∈ ts, a ∈ t.atoms := by
  induction ts with
  | nil => simp
  | cons t ts ih => simp [ih]

lemma Tree.atomsList_subset {us : List Tree} (h : ∀ t ∈ ts, t.atoms ⊆ Tree.atomsList us) :
    Tree.atomsList ts ⊆ Tree.atomsList us := by
  intro a ha
  obtain ⟨t, ht, ha⟩ := Tree.mem_atomsList.mp ha
  exact h t ht ha

lemma Tree.atoms_subset {t : Tree} (h : t ∈ ts) : t.atoms ⊆ Tree.atomsList ts :=
  fun _ ha => Tree.mem_atomsList.mpr ⟨t, h, ha⟩

open Tree (atomsList atomsList_subset atoms_conditional atoms_subset mem_atomsList)

namespace Build

/-- What is reported about a conditional without a name. -/
def namelessMessage : String :=
  "#ifdef statement must contain a variable"

/-! ### Resolving -/

variable {rest : List Tree}

/-- The directive of a conditional is its first token if no other starts one. -/
lemma directive_eq_zero {d : Tree} (hd : startsConditional d = true)
    (hrest : ∀ t ∈ rest, startsConditional t = false) :
    lastIndex? (·.isDirective (if (lastIndex? (·.isDirective "#ifdef") (d :: rest)).isSome
      then "#ifdef" else "#ifndef")) (d :: rest) = some 0 := by
  have hboth : ∀ t ∈ rest, t.isDirective "#ifdef" = false ∧ t.isDirective "#ifndef" = false :=
    fun t ht => by simpa [startsConditional] using hrest t ht
  cases hpositive : d.isDirective "#ifdef" with
  | true =>
    have hfirst : lastIndex? (·.isDirective "#ifdef") (d :: rest) = some 0 :=
      @lastIndex?_append_cons _ [] rest d hpositive fun t ht => (hboth t ht).1
    simp only [hfirst, Option.isSome_some, if_true]
  | false =>
    have hnone : lastIndex? (·.isDirective "#ifdef") (d :: rest) = none :=
      lastIndex?_eq_none (forall_mem_cons.mpr ⟨hpositive, fun t ht => (hboth t ht).1⟩)
    have hnegative : d.isDirective "#ifndef" = true := by
      simpa [startsConditional, hpositive] using hd
    simp only [hnone, Option.isSome_none, Bool.false_eq_true, if_false]
    exact @lastIndex?_append_cons _ [] rest d hnegative fun t ht => (hboth t ht).2

/-- The branch that is taken has no token of the row before its second. -/
lemma mem_of_mem_branch {d t : Tree} {positive defined : Bool} {line endif : Nat}
    {elseAt : Option Nat} (hline : 0 < line)
    (h : t ∈ branch (d :: rest) positive defined line elseAt endif) : t ∈ rest := by
  have hbetween : ∀ {i j : Nat}, 0 < i → t ∈ between (d :: rest) i j → t ∈ rest := by
    intro i j hi ht
    obtain ⟨k, rfl⟩ := Nat.exists_eq_succ_of_ne_zero (Nat.ne_of_gt hi)
    exact mem_of_mem_drop (mem_of_mem_take ht)
  unfold branch at h
  dsimp only at h
  split_ifs at h
  · exact hbetween hline h
  · split at h
    · exact hbetween (Nat.succ_pos _) h
    · cases h

/-- What a conditional stands for are tokens behind its directive, which stays its first child. It is
said to have no name at the place one line below that of what comes before. -/
lemma resolve_cons_cases {d : Tree} (hd : startsConditional d = true)
    (hrest : ∀ t ∈ rest, startsConditional t = false) (definitions : Definitions)
    (before : Position) : (∃ fault, resolve (d :: rest) definitions before = .error fault ∧
      ∀ place, fault = .error place namelessMessage → place = before.below) ∨
    ∃ taken children, resolve (d :: rest) definitions before = .ok (taken, d :: children) ∧
      atomsList taken ⊆ atomsList rest ∧ atomsList children ⊆ atomsList rest := by
  have hstart := directive_eq_zero hd hrest
  unfold resolve
  simp only [hstart]
  cases lastIndex? (·.isDirective "#endif") (d :: rest) with
  | none => exact .inl ⟨_, rfl, fun place h => by cases h⟩
  | some endif =>
    cases hname : conditionName? ((d :: rest).drop 0) 0 none with
    | none =>
      refine .inl ⟨_, rfl, fun place h => ?_⟩
      injection h with h
      injection h with _ h
      rw [← h, take_zero, Tree.textList_nil, Position.offset_empty]
    | some found =>
      obtain ⟨name, line⟩ := found
      have hline : 0 < line := lt_of_directive hstart hname
      dsimp only
      right
      split
      · refine ⟨_, rest, rfl, atomsList_subset fun t ht => ?_, Subset.refl _⟩
        obtain ht | ht := mem_append.mp ht
        · exact atoms_subset (mem_of_mem_branch hline ht)
        · exact atoms_subset (mem_of_mem_drop ht)
      · rename_i k _
        have hi : endif + 1 + k = endif + k + 1 := by omega
        rw [hi, getElem?_cons_succ, drop_succ_cons]
        split
        · rename_i id cs hget
          have hnext : (Tree.conditional id (cs ++ rest.drop (endif + k + 1))).atoms ⊆
              atomsList rest := by
            rw [atoms_conditional, Tree.atomsList_append]
            refine append_subset.mpr ⟨?_, ?_⟩
            · rw [← atoms_conditional id]
              exact atoms_subset (mem_of_getElem? hget)
            · exact (Tree.atomsList_sublist (drop_sublist _ _)).subset
          rw [set_cons_succ, take_succ_cons]
          refine ⟨_, _, rfl, atomsList_subset fun t ht => ?_, atomsList_subset fun t ht => ?_⟩
          · obtain ht | ht := mem_append.mp ht
            · obtain ht | rfl := mem_or_eq_of_mem_set (mem_of_mem_branch hline ht)
              · exact atoms_subset ht
              · exact hnext
            · rwa [mem_singleton.mp ht]
          · obtain ht | ht := mem_append.mp ht
            · exact atoms_subset (mem_of_mem_take ht)
            · rwa [mem_singleton.mp ht]
        · refine ⟨_, rest, rfl, atomsList_subset fun t ht => ?_, Subset.refl _⟩
          exact atoms_subset (mem_of_mem_branch hline ht)

/-! ### Reading a conditional -/

/-- Faults other than that a conditional has no name. -/
def IsOther (fault : Fault) : Prop :=
  ∀ place, fault ≠ .error place namelessMessage

lemma isOther_unbalanced (place : Position) (message : String) :
    IsOther (.unbalanced place message) :=
  fun _ h => nomatch h

/-- What reading a conditional gives: its directive before `start`, and tokens of the row from there on.
No other directive starts a conditional, since inner ones are nodes. -/
def Gathers (row : Array Tree) (start : Nat) (p : Tree × Int) : Prop :=
  ∃ (id : NodeId) (d : Tree) (taken : List Tree) (size : Nat),
    p = (.conditional id (d :: taken), (size : Int)) ∧ row[start - 1]? = some d ∧
      (∀ t ∈ taken, startsConditional t = false) ∧
      atomsList taken ⊆ atomsList (row.toList.drop start)

/-- How a conditional is read: the tokens so far come from `start` on. -/
structure Conditional.Collects (row : Array Tree) (start i : Nat) (c : Conditional) : Prop where
  index : c.index = i
  start_le : start ≤ i
  inner : ∀ t ∈ c.taken.toList, startsConditional t = false
  atoms : atomsList c.taken.toList ⊆ atomsList (row.toList.drop start)

section

variable {row : Array Tree} {start i : Nat} {t : Tree}

lemma toList_eq_of_getElem? (ht : row[i]? = some t) :
    row.toList = row.toList.take i ++ t :: row.toList.drop (i + 1) := by
  obtain ⟨hlt, hget⟩ := Array.getElem?_eq_some_iff.mp ht
  rw [← hget, ← Array.getElem_toList, ← drop_eq_getElem_cons, take_append_drop]

lemma mem_drop_of_getElem? (ht : row[i]? = some t) (hle : start ≤ i) : t ∈ row.toList.drop start := by
  have hget : (row.toList.drop start)[i - start]? = some t := by
    rw [getElem?_drop, Nat.add_sub_cancel' hle, Array.getElem?_toList, ht]
  exact mem_of_getElem? hget

namespace Conditional.Collects

variable {c : Conditional}

lemma noteOpening (h : c.Collects row start i) (t : Tree) :
    (c.noteOpening t).Collects row start i := by
  refine ⟨?_, h.start_le, ?_, ?_⟩ <;> simp only [noteOpening_index, noteOpening_taken]
  exacts [h.index, h.inner, h.atoms]

lemma push (h : c.Collects row start i) (hinner : startsConditional t = false)
    (hatoms : t.atoms ⊆ atomsList (row.toList.drop start)) {c' : Conditional} {j : Nat}
    (hij : i ≤ j) (hindex : c'.index = j) (htaken : c'.taken = c.taken.push t) :
    c'.Collects row start j := by
  refine ⟨hindex, h.start_le.trans hij, ?_, ?_⟩
  · rw [htaken]
    intro u hu
    obtain hu | rfl : u ∈ c.taken.toList ∨ u = t := by simpa using hu
    · exact h.inner u hu
    · exact hinner
  · rw [htaken, atomsList_push]
    exact append_subset.mpr ⟨h.atoms, hatoms⟩

lemma safe_node {allowed : Fault → Prop} {d : Tree} (h : c.Collects row start i) (hpos : 0 < start)
    (hd : row[start - 1]? = some d) {index : Int} (hindex : index = i) :
    Safe allowed (do return (← conditionalNode row start c.taken.toList, index - start))
      (Gathers row start) := by
  refine (safe_conditionalNode hpos hd _).bind fun node ⟨id, hnode⟩ => .pure ?_
  refine ⟨id, d, _, i - start, ?_, hd, h.inner, h.atoms⟩
  have := h.start_le
  rw [hnode, hindex]
  simp only [Prod.mk.injEq, true_and]
  omega

end Conditional.Collects

/-- Reading a conditional never says that it has no name. -/
lemma gathers_conditionalFrom {inner : Int → Levels → Build (Tree × Int)} {fuel : Nat}
    {stop : Stop} {c : Conditional} (hpos : 0 < start) {d : Tree} (hd : row[start - 1]? = some d)
    (hinner : ∀ (i : Nat) (levels : Levels), i < row.size →
      Safe IsOther (inner (i + 1 : Nat) levels) (Gathers row (i + 1))) (hc : c.Collects row start i) :
    Safe IsOther (conditionalFrom inner row start stop fuel c) (Gathers row start) := by
  induction fuel generalizing c i with
  | zero => exact Safe.throw nofun
  | succ fuel ih =>
    rw [conditionalFrom_succ hc.index]
    cases ht : row[i]? with
    | none =>
      dsimp only
      exact .ite (fun _ => hc.safe_node hpos hd hc.index) fun _ => Safe.throw (isOther_unbalanced _ _)
    | some t =>
      have hlt := (Array.getElem?_eq_some_iff.mp ht).1
      have hc' := hc.noteOpening t
      have hmem := mem_drop_of_getElem? ht hc.start_le
      dsimp only
      refine .ite (fun hcond => ?_) fun hcond => .ite (fun hend => ?_) fun hend => ?_
      · rw [hc'.index]
        refine (hinner i _ hlt).bind ?_
        rintro p ⟨id, d', taken, size, rfl, hd', hno, htaken⟩
        obtain rfl : d' = t := Option.some.inj (hd'.symm.trans ht)
        refine ih (hc'.push rfl ?_ (show i ≤ i + size + 2 by omega)
          (by simp [Conditional.take, hc.index]) rfl)
        rw [atoms_conditional, Tree.atomsList_cons]
        refine append_subset.mpr ⟨atoms_subset hmem, Subset.trans htaken ?_⟩
        have hdrop : (row.toList.drop (i + 1)).Sublist (row.toList.drop start) :=
          drop_sublist_drop_left _ (hc.start_le.trans (Nat.le_succ i))
        exact (Tree.atomsList_sublist hdrop).subset
      · have hcond : startsConditional t = false := by simpa using hcond
        have hpush := @Conditional.Collects.push _ _ _ _ _ hc' hcond (atoms_subset hmem)
          { c.noteOpening t with taken := (c.noteOpening t).taken.push t } i (Nat.le_refl i) hc'.index
          rfl
        split_ifs
        · exact hc'.safe_node hpos hd hc'.index
        · exact hpush.safe_node hpos hd hc'.index
      · have hcond : startsConditional t = false := by simpa using hcond
        exact ih (hc'.push hcond (atoms_subset hmem) (Nat.le_succ i)
          (by simp [Conditional.take, hc.index]) (by simp [Conditional.take]))

lemma gathers_conditional {depth : Nat} {stop : Stop} {levels : Levels} (hpos : 0 < start)
    (hle : start ≤ row.size) :
    Safe IsOther (conditional row stop depth start levels) (Gathers row start) := by
  induction depth generalizing start levels with
  | zero => exact Safe.throw nofun
  | succ depth ih =>
    obtain ⟨d, hd⟩ : ∃ d, row[start - 1]? = some d := ⟨_, Array.getElem?_eq_getElem (by omega)⟩
    have hc : Conditional.Collects row start start ⟨start, #[], 0, levels⟩ :=
      ⟨rfl, Nat.le_refl _, by simp, by simp⟩
    rw [conditional]
    exact gathers_conditionalFrom hpos hd (fun i levels hi => ih (Nat.succ_pos i) hi) hc

end

end Build

end ArmaScript
