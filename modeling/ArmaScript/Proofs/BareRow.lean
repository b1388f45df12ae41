import ArmaScript.Proofs.InStep

/-!
# Rows without layout

Layout has no part in how a row is arranged. If it is taken out of an arranged row, together with the
groups that only held an item with its layout, what is left is the same for the row with its layout and
for the row without: `strip_arrange`. Both rows are arranged in step; `Matches` says what they have in
common at each moment.
-/

namespace ArmaScript

variable {α : Type}

namespace Exp

/-- A group of what is left of it: nothing if it is empty, and a single one is not grouped. -/
def collapse : List (Exp α) → Option (Exp α)
  | [] => none
  | [e] => some e
  | es => some (.group es)

mutual

/-- An arranged row without layout. -/
def strip (isLayout : α → Bool) : Exp α → Option (Exp α)
  | .leaf a => if isLayout a then none else some (.leaf a)
  | .group es => collapse (stripList isLayout es)

/-- What is left of several arranged rows without layout. -/
def stripList (isLayout : α → Bool) : List (Exp α) → List (Exp α)
  | [] => []
  | e :: es => (strip isLayout e).toList ++ stripList isLayout es

end

variable (isLayout : α → Bool)

@[simp] lemma strip_leaf (a : α) :
    (Exp.leaf a).strip isLayout = if isLayout a then none else some (.leaf a) := by
  rw [strip]

@[simp] lemma strip_group (es : List (Exp α)) :
    (Exp.group es).strip isLayout = collapse (stripList isLayout es) := by
  rw [strip]

@[simp] lemma stripList_nil : stripList isLayout ([] : List (Exp α)) = [] := by
  rw [stripList]

@[simp] lemma stripList_cons (e : Exp α) (es : List (Exp α)) :
    stripList isLayout (e :: es) = (e.strip isLayout).toList ++ stripList isLayout es := by
  rw [stripList]

@[simp] lemma stripList_append (es fs : List (Exp α)) :
    stripList isLayout (es ++ fs) = stripList isLayout es ++ stripList isLayout fs := by
  induction es with
  | nil => simp
  | cons e es ih => simp [ih]

@[simp] lemma collapse_toList (o : Option (Exp α)) : collapse o.toList = o := by
  cases o <;> rfl

variable {isLayout}

lemma stripList_layout {as : List α} (h : ∀ a ∈ as, isLayout a = true) :
    stripList isLayout (as.map .leaf) = [] := by
  induction as with
  | nil => simp
  | cons a as ih =>
    obtain ⟨ha, has⟩ := List.forall_mem_cons.mp h
    simp [ha, ih has]

end Exp

namespace Precedence

variable {items : Items α}

/-- Layout around an arranged row is not seen without layout. -/
lemma strip_surround {before after : List α} (hbefore : ∀ a ∈ before, items.isLayout a = true)
    (hafter : ∀ a ∈ after, items.isLayout a = true) (e : Exp α) :
    (surround before e after).strip items.isLayout = e.strip items.isLayout := by
  unfold surround
  split_ifs
  · rfl
  · simp [Exp.stripList_layout hbefore, Exp.stripList_layout hafter]

/-- Layout that is left at the end of a row is not seen without layout. -/
lemma strip_ending {skipped : List α} (h : ∀ a ∈ skipped, items.isLayout a = true) :
    (ending skipped).strip items.isLayout = none := by
  rcases skipped with _ | ⟨a, _ | ⟨b, skipped⟩⟩
  · simp [ending, Exp.collapse]
  · simp [ending, h a (by simp)]
  · rw [ending, Exp.strip_group, Exp.stripList_layout h, Exp.collapse]
    exact nofun

/-! ### Rows that differ in their layout -/

/-- What is left to arrange of two rows that differ in their layout. -/
abbrev Matches (items : Items α) (s t : Ahead α) : Prop :=
  Ahead.Rel Eq (fun l m => (∀ a ∈ l, items.isLayout a = true) ∧ ∀ a ∈ m, items.isLayout a = true)
    (fun as bs => (as.filter fun a => !items.isLayout a) = bs.filter fun a => !items.isLayout a) s t

lemma advance_next_rest (s : Ahead α) (hs : ∀ a ∈ s.skipped, items.isLayout a = true) :
    (s.advance items).next = (s.rest.filter fun a => !items.isLayout a).head? ∧
      ((s.advance items).rest.filter fun a => !items.isLayout a)
        = (s.rest.filter fun a => !items.isLayout a).tail := by
  have hw := Ahead.advance_wellformed items s hs
  rw [← Ahead.advance_operands items s]
  refine ⟨(head?_operands items hw).symm, ?_⟩
  cases hn : (s.advance items).next with
  | none => simp [Ahead.operands_of_next_none hw hn, hw.rest_nil hn]
  | some a => rw [Ahead.operands_of_next_some hw hn, List.tail_cons]

lemma Matches.advance {s t : Ahead α} (h : Matches items s t) :
    Matches items (s.advance items) (t.advance items) := by
  obtain ⟨hnext, hrest⟩ := advance_next_rest s h.skipped.1
  obtain ⟨hnext', hrest'⟩ := advance_next_rest t h.skipped.2
  have heq : (s.advance items).next = (t.advance items).next := by rw [hnext, hnext', h.rest]
  refine ⟨?_, ⟨?_, ?_⟩, ?_⟩
  · rw [heq]
    cases (t.advance items).next with
    | none => exact .none
    | some a => exact .some rfl
  · exact (Ahead.advance_wellformed items s h.skipped.1).skipped_layout
  · exact (Ahead.advance_wellformed items t h.skipped.2).skipped_layout
  · rw [hrest, hrest', h.rest]

variable (items) in
/-- Rows that differ in their layout are arranged in step. -/
def bareAlignment : Alignment items items where
  item := Eq
  gap l m := (∀ a ∈ l, items.isLayout a = true) ∧ ∀ a ∈ m, items.isLayout a = true
  row as bs := (as.filter fun a => !items.isLayout a) = bs.filter fun a => !items.isLayout a
  exp e f := e.strip items.isLayout = f.strip items.isLayout
  advance := Matches.advance
  power_eq hab := by rw [hab]
  opening_eq := by
    rintro a _ s t rfl hnext
    refine opening_congr items a ?_
    generalize s.next = next at hnext
    generalize t.next = next' at hnext
    cases hnext with
    | none => rfl
    | some h => exact congrArg some h
  gap_nil := ⟨nofun, nofun⟩
  leaf hab := by rw [hab]
  ending h := by rw [strip_ending h.1, strip_ending h.2]
  surround h he h' := by rw [strip_surround h.1 h'.1, strip_surround h.2 h'.2, he]
  group h := by
    rw [Exp.strip_group, Exp.strip_group]
    congr 1
    induction h with
    | nil => rfl
    | cons he _ ih => rw [Exp.stripList_cons, Exp.stripList_cons, he, ih]

lemma strip_eq_of_outcomes {x y : Except Fault (Exp α × Ahead α)}
    (h : (bareAlignment items).Outcomes x y) :
    (x.map fun r => r.1.strip items.isLayout) = y.map fun r => r.1.strip items.isLayout := by
  cases h with
  | ok he _ => exact congrArg Except.ok he
  | error fault => rfl

variable (items) in
lemma exists_opening_end (a : α) (skipped rest : List α) :
    ∃ how, opening items a ⟨none, skipped, rest⟩ = .ok how := by
  unfold opening
  dsimp only
  split_ifs <;> exact ⟨_, rfl⟩

variable (items) in
/-- What starts at the end of a row is the item alone, layout apart. -/
lemma start_end (fuel : Nat) (a : α) :
    ∃ e, start items (fuel + 2) a ⟨none, [], []⟩ = .ok (e, ⟨none, [], []⟩) ∧
      e.strip items.isLayout = (Exp.leaf a).strip items.isLayout := by
  obtain ⟨how, hhow⟩ := exists_opening_end items a [] []
  have hend := operand_end items [] [] fuel prefixPower
  have hstrip : (ending ([] : List α)).strip items.isLayout = none :=
    strip_ending (List.forall_mem_nil _)
  rw [start, hhow]
  cases how with
  | alone => exact ⟨_, rfl, rfl⟩
  | one =>
    refine ⟨.group [.leaf a, ending []], ?_, by simp [hstrip]⟩
    exact except_bind_eq_ok.mpr ⟨.one, rfl, except_bind_eq_ok.mpr ⟨_, hend, rfl⟩⟩
  | three =>
    refine ⟨.group [.leaf a, ending [], ending [], ending []], ?_, by simp [hstrip]⟩
    exact except_bind_eq_ok.mpr ⟨.three, rfl, except_bind_eq_ok.mpr ⟨_, hend,
      except_bind_eq_ok.mpr ⟨_, hend, except_bind_eq_ok.mpr ⟨_, hend, rfl⟩⟩⟩⟩

/-- That a single item is not arranged at all is not seen without layout. -/
lemma strip_arrange_eq (row : List α) : (arrange items row).map (Exp.strip items.isLayout)
      = (operand items (3 * row.length + 6) 0 (Ahead.advance items ⟨none, [], row⟩)).map
          fun r => r.1.strip items.isLayout := by
  by_cases hone : row.length = 1
  · obtain ⟨a, rfl⟩ := List.length_eq_one_iff.mp hone
    cases ha : items.isLayout a with
    | true =>
      have hadvance : Ahead.advance items ⟨none, [], [a]⟩ = ⟨none, [a], []⟩ := by
        simp [Ahead.advance, ha]
      rw [hadvance, List.length_singleton, operand_end items [a] [] 8 0]
      simp [arrange, Except.map, ha, ending]
    | false =>
      have hadvance : Ahead.advance items ⟨none, [], [a]⟩ = ⟨some a, [], []⟩ := by
        simp [Ahead.advance, ha]
      have hend : Ahead.advance items ⟨none, [], []⟩ = ⟨none, [], []⟩ := by
        simp [Ahead.advance]
      obtain ⟨e, he, hstrip⟩ := start_end items 6 a
      have hoperand : operand items 9 0 ⟨some a, [], []⟩ = .ok (e, ⟨none, [], []⟩) := by
        rw [operand]
        exact except_bind_eq_ok.mpr ⟨_, hend ▸ he, operators_end 7 0 e [] []⟩
      rw [hadvance, List.length_singleton, hoperand]
      exact congrArg Except.ok hstrip.symm
  · rw [arrange_of_length_ne_one hone]
    cases operand items (3 * row.length + 6) 0 (Ahead.advance items ⟨none, [], row⟩) <;> rfl

variable (items)

/-- Arranging a row with its layout and without it comes to the same, if layout is taken out of the
arranged rows. Nothing but layout is lost, and the order is kept. A row of items that have a text can
always be arranged. -/
theorem strip_arrange (row : List α) :
    (arrange items row).map (Exp.strip items.isLayout)
        = (arrange items (row.filter fun a => !items.isLayout a)).map (Exp.strip items.isLayout) ∧
      (∀ e, arrange items row = .ok e →
        (e.leaves.filter fun a => !items.isLayout a) = row.filter fun a => !items.isLayout a) ∧
      ((∀ a ∈ row, items.text a ≠ "") → ∃ e, arrange items row = .ok e) := by
  refine ⟨?_, fun e he => ?_, exists_arrange⟩
  · have hrow : (bareAlignment items).row row (row.filter fun a => !items.isLayout a) := by
      simp [bareAlignment]
    rw [strip_arrange_eq, strip_arrange_eq]
    exact strip_eq_of_outcomes (Alignment.outcomes_operand hrow)
  · obtain ⟨dropped, hrow, hdropped, -⟩ := exists_kept_append items row
    have hnil : (dropped.filter fun a => !items.isLayout a) = [] := by
      rw [List.filter_eq_nil_iff]
      intro a ha
      simp [hdropped a ha]
    rw [leaves_arrange he]
    conv_rhs => rw [hrow, List.filter_append, hnil, List.append_nil]

/-- The sum `1 + 2`, with spaces and without. -/
theorem strip_arrange_sum :
    (∃ e, arrange ⟨id, (· == " ")⟩ [" ", "1", " ", "+", " ", "2"] = .ok e) ∧
      (arrange ⟨id, (· == " ")⟩ [" ", "1", " ", "+", " ", "2"]).map (Exp.strip (· == " "))
        = (arrange ⟨id, (· == " ")⟩ ["1", "+", "2"]).map (Exp.strip (· == " ")) :=
  ⟨(strip_arrange ⟨id, (· == " ")⟩ _).2.2 (by decide), (strip_arrange ⟨id, (· == " ")⟩ _).1⟩

end Precedence

end ArmaScript
