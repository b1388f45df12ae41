import ArmaScript.Precedence
import ArmaScript.Proofs.Computation
import Mathlib.Data.List.DropRight
import Mathlib.Tactic.SplitIfs

/-!
# What arranging a row keeps

Arranging a row by precedence keeps its items in order. There is one exception: behind an operator at
the end of the row, which has no right operand, the layout is dropped. `dangles` tells from the items
alone whether a row ends so, and `leaves_arrange` is the exact account.
-/

namespace ArmaScript

open List

variable {α : Type}

namespace Exp

mutual

/-- The items of an arranged row, in order. -/
def leaves : Exp α → List α
  | .leaf a => [a]
  | .group es => leavesList es

/-- The items of several arranged rows, in order. -/
def leavesList : List (Exp α) → List α
  | [] => []
  | e :: es => e.leaves ++ leavesList es

end

@[simp] lemma leaves_leaf (a : α) : (Exp.leaf a).leaves = [a] := by rw [leaves]

@[simp] lemma leaves_group (es : List (Exp α)) : (Exp.group es).leaves = leavesList es := by
  rw [leaves]

@[simp] lemma leavesList_nil : leavesList ([] : List (Exp α)) = [] := by rw [leavesList]

@[simp] lemma leavesList_cons (e : Exp α) (es : List (Exp α)) :
    leavesList (e :: es) = e.leaves ++ leavesList es := by rw [leavesList]

@[simp] lemma leavesList_append (es fs : List (Exp α)) :
    leavesList (es ++ fs) = leavesList es ++ leavesList fs := by
  induction es with
  | nil => simp
  | cons e es ih => simp [ih]

@[simp] lemma leavesList_map_leaf (as : List α) : leavesList (as.map Exp.leaf) = as := by
  induction as with
  | nil => simp
  | cons a as ih => simp [ih]

end Exp

namespace Precedence

variable (items : Items α)

@[simp] lemma leaves_surround (before : List α) (e : Exp α) (after : List α) :
    (surround before e after).leaves = before ++ e.leaves ++ after := by
  unfold surround
  split_ifs with h
  · simp only [Bool.and_eq_true, List.isEmpty_iff] at h
    simp [h.1, h.2]
  · simp

lemma power_bounds (word : String) : 0 < power word ∧ power word < prefixPower := by
  have hite : ∀ (p : Prop) [Decidable p] (a b : Nat), 0 < a ∧ a < prefixPower →
      0 < b ∧ b < prefixPower → 0 < (if p then a else b) ∧ (if p then a else b) < prefixPower := by
    intro p _ a b ha hb
    split
    · exact ha
    · exact hb
  unfold power
  repeat' apply hite
  all_goals decide

lemma power_pos (word : String) : 0 < power word :=
  (power_bounds word).1

lemma power_lt_prefixPower (word : String) : power word < prefixPower :=
  (power_bounds word).2

/-! ### What is left to arrange -/

namespace Ahead

/-- All that is left to arrange, layout included. -/
def pending (s : Ahead α) : List α :=
  s.skipped ++ s.next.toList ++ s.rest

/-- What is left to arrange without the layout. -/
def operands (s : Ahead α) : List α :=
  (s.next.toList ++ s.rest).filter fun a => !items.isLayout a

/-- Only at the end is there no next item, the next item is never layout, and what was skipped
always is. -/
structure Wellformed (s : Ahead α) : Prop where
  rest_nil : s.next = none → s.rest = []
  next_item : ∀ a, s.next = some a → items.isLayout a = false
  skipped_layout : ∀ a ∈ s.skipped, items.isLayout a = true

variable {items}

lemma operands_of_next_none {s : Ahead α} (hs : s.Wellformed items) (h : s.next = none) :
    s.operands items = [] := by
  simp [operands, h, hs.rest_nil h]

lemma operands_of_next_some {s : Ahead α} {a : α} (hs : s.Wellformed items) (h : s.next = some a) :
    s.operands items = a :: s.rest.filter fun b => !items.isLayout b := by
  simp [operands, h, hs.next_item a h]

variable (items)

lemma advance_wellformed (s : Ahead α) (hs : ∀ a ∈ s.skipped, items.isLayout a = true) :
    (s.advance items).Wellformed items := by
  have hskip : ∀ a ∈ s.skipped ++ s.rest.takeWhile items.isLayout, items.isLayout a = true := by
    intro a ha
    rcases mem_append.mp ha with h | h
    · exact hs a h
    · exact mem_takeWhile_imp h
  unfold advance
  cases h : s.rest.dropWhile items.isLayout with
  | nil => exact ⟨fun _ => rfl, fun a ha => (by cases ha), hskip⟩
  | cons a rest =>
    refine ⟨fun hn => (by cases hn), fun b hb => ?_, hskip⟩
    cases hb
    have hd := head_dropWhile_not items.isLayout (l := s.rest) (by simp [h])
    simpa [h] using hd

@[simp] lemma advance_pending (s : Ahead α) : (s.advance items).pending = s.skipped ++ s.rest := by
  have hsplit := takeWhile_append_dropWhile (p := items.isLayout) (l := s.rest)
  unfold advance pending
  cases h : s.rest.dropWhile items.isLayout with
  | nil | cons a rest =>
    rw [h] at hsplit
    simpa using hsplit

@[simp] lemma advance_operands (s : Ahead α) :
    (s.advance items).operands items = s.rest.filter fun a => !items.isLayout a := by
  have hsplit := takeWhile_append_dropWhile (p := items.isLayout) (l := s.rest)
  have htake : (s.rest.takeWhile items.isLayout).filter (fun a => !items.isLayout a) = [] := by
    rw [filter_eq_nil_iff]
    intro a ha
    simp [mem_takeWhile_imp ha]
  conv_rhs => rw [← hsplit, filter_append, htake, nil_append]
  unfold advance operands
  cases h : s.rest.dropWhile items.isLayout with
  | nil => simp
  | cons a rest => simp

end Ahead

/-! ### Operators without a right operand -/

/-- The number of operands of its own that an item has. -/
def Opening.operands : Opening → Nat
  | .alone => 0
  | .one => 1
  | .three => 3

/-- Whether a row of items that are not layout ends with an operator that has no right operand, if
`opens` tells how an item starts an operand from the item and the one behind it. `expected` operands
come first; where none is expected, an operator comes. -/
def danglesWith (opens : α → Option α → Except Fault Opening) : Nat → List α → Bool
  | _, [] => false
  | 0, [_] => true
  | 0, _ :: b :: rest => danglesWith opens 1 (b :: rest)
  | expected + 1, a :: rest =>
    match opens a rest.head? with
    | .ok how => danglesWith opens (expected + how.operands) rest
    | .error _ => false

/-- Whether a row of items that are not layout ends with an operator that has no right operand. -/
def dangles (expected : Nat) (row : List α) : Bool :=
  danglesWith (fun a next => opening items a ⟨next, [], []⟩) expected row

@[simp] lemma dangles_nil (expected : Nat) : dangles items expected [] = false := by
  cases expected <;> rfl

variable {a : α} {rest row : List α} {s s' : Ahead α} {fuel bound : Nat} {left e : Exp α}

lemma danglesWith_succ (opens : α → Option α → Except Fault Opening) {how : Opening} (n : Nat)
    (h : opens a rest.head? = .ok how) :
    danglesWith opens (n + 1) (a :: rest) = danglesWith opens (n + how.operands) rest := by
  rw [danglesWith, h]

lemma dangles_succ {how : Opening} (n : Nat) (h : opening items a ⟨rest.head?, [], []⟩ = .ok how) :
    dangles items (n + 1) (a :: rest) = dangles items (n + how.operands) rest :=
  danglesWith_succ (fun a next => opening items a ⟨next, [], []⟩) n h

lemma opening_congr (a : α) (h : s.next = s'.next) : opening items a s = opening items a s' := by
  unfold opening
  rw [h]

lemma head?_operands (hs : s.Wellformed items) : (s.operands items).head? = s.next := by
  cases h : s.next with
  | none => simp [Ahead.operands_of_next_none hs h]
  | some a => simp [Ahead.operands_of_next_some hs h]

/-- The opening that `dangles` sees for an item is the one with which it is arranged. -/
lemma opening_operands (a : α) (hs : s.Wellformed items) :
    opening items a ⟨(s.operands items).head?, [], []⟩ = opening items a s :=
  opening_congr items a (head?_operands items hs)

/-- The outcome of arranging up to `s`: either all layout so far is in its place and `d` tells
whether what is left ends with an operator, or the row is at its end, behind such an operator. -/
inductive Settled (d : Bool) (e : Exp α) (s : Ahead α) : Prop where
  | placed (hskip : s.skipped = []) (hd : dangles items 0 (s.operands items) = d)
  | dangling (hnext : s.next = none) (hd : d = true)
      (hlast : ∃ front a, e.leaves = front ++ [a] ∧ items.isLayout a = false)

/-- What arranging an operand with the operators behind it achieves. -/
structure OperandSpec (s : Ahead α) (e : Exp α) (s' : Ahead α) : Prop where
  wellformed : s'.Wellformed items
  kept : e.leaves ++ s'.pending = s.pending
  settled : Settled items (dangles items 1 (s.operands items)) e s'

/-- What arranging the operand of a prefix operator achieves: it takes exactly one operand. -/
structure PrefixSpec (s : Ahead α) (e : Exp α) (s' : Ahead α) : Prop where
  wellformed : s'.Wellformed items
  kept : e.leaves ++ s'.pending = s.pending
  placed : s'.skipped = []
  taken : ∀ n, dangles items (n + 1) (s.operands items) = dangles items n (s'.operands items)

/-- What arranging an item with its own operands achieves. -/
structure StartSpec (a : α) (s : Ahead α) (e : Exp α) (s' : Ahead α) : Prop where
  wellformed : s'.Wellformed items
  kept : e.leaves ++ s'.pending = a :: s.pending
  taken : ∀ n, dangles items (n + 1) (a :: s.operands items) = dangles items n (s'.operands items)

/-- What arranging the operators behind an operand achieves. -/
structure OperatorsSpec (left : Exp α) (s : Ahead α) (e : Exp α) (s' : Ahead α) : Prop where
  wellformed : s'.Wellformed items
  kept : e.leaves ++ s'.pending = left.leaves ++ s.pending
  settled : Settled items (dangles items 0 (s.operands items)) e s'

variable {items}

lemma operators_of_next_none (hn : s.next = none)
    (h : operators items fuel bound left s = .ok (e, s')) : e = left ∧ s' = s := by
  cases fuel with
  | zero => cases h
  | succ fuel =>
    rw [operators, hn] at h
    cases h
    exact ⟨rfl, rfl⟩

/-- An operand behind a prefix operator takes no operators: none binds strongly enough. -/
lemma operators_prefixPower (h : operators items fuel prefixPower left s = .ok (e, s')) :
    e = left ∧ s' = s := by
  cases fuel with
  | zero => cases h
  | succ fuel =>
    cases hn : s.next with
    | none => exact operators_of_next_none hn h
    | some a =>
      have hlt : ¬ prefixPower < s.power items := by
        simp only [Ahead.power, hn]
        exact Nat.not_lt.mpr (Nat.le_of_lt (power_lt_prefixPower _))
      rw [operators, hn] at h
      simp only [hlt, if_false] at h
      cases h
      exact ⟨rfl, rfl⟩

/-- At the end of a row an operand is made of the layout that is left. -/
lemma operand_of_next_none (hn : s.next = none) (h : operand items fuel bound s = .ok (e, s')) :
    e.leaves = s.skipped ∧ s' = ⟨none, [], s.rest⟩ := by
  cases fuel with
  | zero => cases h
  | succ fuel =>
    rw [operand, hn] at h
    rcases hk : s.skipped with _ | ⟨a, _ | ⟨b, rest⟩⟩ <;> rw [hk] at h <;> cases h <;> simp

lemma operand_of_next_some (hn : s.next = some a)
    (h : operand items (fuel + 1) bound s = .ok (e, s')) :
    ∃ e1 s1, start items fuel a (Ahead.advance items ⟨none, [], s.rest⟩) = .ok (e1, s1) ∧
      operators items fuel bound (surround s.skipped e1 s1.skipped) ⟨s1.next, [], s1.rest⟩
        = .ok (e, s') := by
  rw [operand, hn] at h
  obtain ⟨⟨e1, s1⟩, h1, h2⟩ := except_bind_eq_ok.mp h
  exact ⟨e1, s1, h1, h2⟩

lemma operators_of_next_some (hn : s.next = some a)
    (h : operators items (fuel + 1) bound left s = .ok (e, s')) :
    (e = left ∧ s' = s ∧ ¬ bound < s.power items) ∨
    (e = .group [left, .leaf a] ∧ s' = Ahead.advance items s ∧ s'.next = none) ∨
    ∃ right s1, (Ahead.advance items s).next ≠ none ∧
      operand items fuel (s.power items) (Ahead.advance items s) = .ok (right, s1) ∧
      operators items fuel bound (.group [left, .leaf a, right]) s1 = .ok (e, s') := by
  rw [operators, hn] at h
  by_cases hb : bound < s.power items
  · simp only [hb, if_true] at h
    cases hn' : (Ahead.advance items s).next with
    | none =>
      simp only [hn', Option.isNone_none, if_true] at h
      cases h
      exact .inr (.inl ⟨rfl, rfl, hn'⟩)
    | some b =>
      simp only [hn', Option.isNone_some, Bool.false_eq_true, if_false] at h
      obtain ⟨⟨right, s1⟩, h1, h2⟩ := except_bind_eq_ok.mp h
      exact .inr (.inr ⟨right, s1, by simp, h1, h2⟩)
  · simp only [hb, if_false] at h
    cases h
    exact .inl ⟨rfl, rfl, hb⟩

variable (items) in
/-- One more item at the end of what is left: the row behind a leaf. -/
lemma advance_next (rest : List α) : (Ahead.advance items ⟨none, [], rest⟩).Wellformed items ∧
      (Ahead.advance items ⟨none, [], rest⟩).pending = rest ∧
      (Ahead.advance items ⟨none, [], rest⟩).operands items
        = rest.filter fun a => !items.isLayout a := by
  refine ⟨Ahead.advance_wellformed items _ (by simp), ?_, ?_⟩
  · simp
  · simp

lemma Ahead.Wellformed.placed (hs : s.Wellformed items) :
    (⟨s.next, [], s.rest⟩ : Ahead α).Wellformed items :=
  ⟨hs.rest_nil, hs.next_item, by simp⟩

lemma startSpec_succ
    (hoperand : ∀ s e s', s.Wellformed items → operand items fuel prefixPower s = .ok (e, s') →
      PrefixSpec items s e s')
    (hs : s.Wellformed items) (h : start items (fuel + 1) a s = .ok (e, s')) :
    StartSpec items a s e s' := by
  rw [start] at h
  obtain ⟨how, ho, h⟩ := except_bind_eq_ok.mp h
  rw [← opening_operands items a hs] at ho
  cases how with
  | alone =>
    cases h
    exact ⟨hs, by simp, fun n => dangles_succ items n ho⟩
  | one =>
    obtain ⟨⟨e1, s1⟩, h1, h⟩ := except_bind_eq_ok.mp h
    cases h
    have h1 := hoperand _ _ _ hs h1
    refine ⟨h1.wellformed, by simp [h1.kept], fun n => ?_⟩
    exact (dangles_succ items n ho).trans (h1.taken n)
  | three =>
    obtain ⟨⟨e1, s1⟩, h1, h⟩ := except_bind_eq_ok.mp h
    obtain ⟨⟨e2, s2⟩, h2, h⟩ := except_bind_eq_ok.mp h
    obtain ⟨⟨e3, s3⟩, h3, h⟩ := except_bind_eq_ok.mp h
    cases h
    have h1 := hoperand _ _ _ hs h1
    have h2 := hoperand _ _ _ h1.wellformed h2
    have h3 := hoperand _ _ _ h2.wellformed h3
    refine ⟨h3.wellformed, by simp [h3.kept, h2.kept, h1.kept], fun n => ?_⟩
    calc dangles items (n + 1) (a :: s.operands items)
        = dangles items (n + 3) (s.operands items) := dangles_succ items n ho
      _ = dangles items (n + 2) (s1.operands items) := h1.taken _
      _ = dangles items (n + 1) (s2.operands items) := h2.taken _
      _ = dangles items n (s'.operands items) := h3.taken _

lemma prefixSpec_succ
    (hstart : ∀ a s e s', s.Wellformed items → start items fuel a s = .ok (e, s') →
      StartSpec items a s e s')
    (hs : s.Wellformed items) (h : operand items (fuel + 1) prefixPower s = .ok (e, s')) :
    PrefixSpec items s e s' := by
  cases hn : s.next with
  | none =>
    obtain ⟨he, rfl⟩ := operand_of_next_none hn h
    have hr := hs.rest_nil hn
    refine ⟨⟨fun _ => hr, by simp, by simp⟩, by simp [he, Ahead.pending, hn], rfl, fun n => ?_⟩
    simp [Ahead.operands, hn, hr]
  | some a =>
    obtain ⟨e1, s1, h1, h2⟩ := operand_of_next_some hn h
    obtain ⟨hw, hp, ho⟩ := advance_next items s.rest
    have h1 := hstart _ _ _ _ hw h1
    obtain ⟨rfl, rfl⟩ := operators_prefixPower h2
    refine ⟨h1.wellformed.placed, ?_, rfl, fun n => ?_⟩
    · have := h1.kept
      rw [hp] at this
      simp [Ahead.pending, hn] at this ⊢
      exact this
    · have := h1.taken n
      rw [ho] at this
      rw [Ahead.operands_of_next_some hs hn, this]
      rfl

lemma operandSpec_succ
    (hstart : ∀ a s e s', s.Wellformed items → start items fuel a s = .ok (e, s') →
      StartSpec items a s e s') (hoperators : ∀ left s e s', s.Wellformed items → s.skipped = [] →
      operators items fuel bound left s = .ok (e, s') → OperatorsSpec items left s e s')
    (hs : s.Wellformed items) (h : operand items (fuel + 1) bound s = .ok (e, s')) :
    OperandSpec items s e s' := by
  cases hn : s.next with
  | none =>
    obtain ⟨he, rfl⟩ := operand_of_next_none hn h
    have hr := hs.rest_nil hn
    refine ⟨⟨fun _ => hr, by simp, by simp⟩, by simp [he, Ahead.pending, hn], .placed rfl ?_⟩
    simp [Ahead.operands, hn, hr]
  | some a =>
    obtain ⟨e1, s1, h1, h2⟩ := operand_of_next_some hn h
    obtain ⟨hw, hp, ho⟩ := advance_next items s.rest
    have h1 := hstart _ _ _ _ hw h1
    have h2 := hoperators _ _ _ _ h1.wellformed.placed rfl h2
    have ht := h1.taken 0
    rw [ho] at ht
    refine ⟨h2.wellformed, ?_, ?_⟩
    · have hk := h1.kept
      rw [hp] at hk
      rw [h2.kept]
      simp [Ahead.pending, hn] at hk ⊢
      exact hk
    · rw [Ahead.operands_of_next_some hs hn, ht]
      exact h2.settled

lemma operatorsSpec_succ
    (hoperand : ∀ bound s e s', s.Wellformed items → operand items fuel bound s = .ok (e, s') →
      OperandSpec items s e s') (hoperators : ∀ left s e s', s.Wellformed items → s.skipped = [] →
      operators items fuel bound left s = .ok (e, s') → OperatorsSpec items left s e s')
    (hs : s.Wellformed items) (hk : s.skipped = [])
    (h : operators items (fuel + 1) bound left s = .ok (e, s')) :
    OperatorsSpec items left s e s' := by
  cases hn : s.next with
  | none =>
    obtain ⟨rfl, rfl⟩ := operators_of_next_none hn h
    exact ⟨hs, rfl, .placed hk rfl⟩
  | some a =>
    have hw := Ahead.advance_wellformed items s (by simp [hk])
    have hp : s.pending = a :: (Ahead.advance items s).pending := by
      rw [Ahead.advance_pending]
      simp [Ahead.pending, hn, hk]
    have ho : s.operands items = a :: (Ahead.advance items s).operands items := by
      simp [Ahead.operands_of_next_some hs hn]
    rcases operators_of_next_some hn h with ⟨rfl, rfl, -⟩ | ⟨rfl, rfl, hnone⟩ |
      ⟨right, s1, hsome, h1, h2⟩
    · exact ⟨hs, rfl, .placed hk rfl⟩
    · -- the operator at the end of the row
      refine ⟨hw, by simp [hp], .dangling hnone ?_ ⟨left.leaves, a, by simp, hs.next_item a hn⟩⟩
      rw [ho, Ahead.operands_of_next_none hw hnone]
      rfl
    · have h1 := hoperand _ _ _ _ hw h1
      have hd : dangles items 0 (s.operands items)
          = dangles items 1 ((Ahead.advance items s).operands items) := by
        obtain ⟨b, hb⟩ := Option.ne_none_iff_exists'.mp hsome
        rw [ho, Ahead.operands_of_next_some hw hb]
        rfl
      have hleft : (Exp.group [left, .leaf a, right]).leaves
          = left.leaves ++ a :: right.leaves := by simp
      have hkept : (Exp.group [left, .leaf a, right]).leaves ++ s1.pending
          = left.leaves ++ s.pending := by
        rw [hleft, append_assoc, cons_append, h1.kept, hp]
      cases h1.settled with
      | placed hk1 hd1 =>
        have h2 := hoperators _ _ _ _ h1.wellformed hk1 h2
        exact ⟨h2.wellformed, h2.kept.trans hkept, by rw [hd, ← hd1]; exact h2.settled⟩
      | dangling hnext hd1 hlast =>
        obtain ⟨rfl, rfl⟩ := operators_of_next_none hnext h2
        obtain ⟨front, b, hb, hlay⟩ := hlast
        refine ⟨h1.wellformed, hkept, .dangling hnext (hd.trans hd1) ?_⟩
        exact ⟨left.leaves ++ a :: front, b, by rw [hleft, hb]; simp, hlay⟩

/-- All four accounts at once, by induction on the fuel. -/
lemma arranging (fuel : Nat) :
    (∀ bound s e s', s.Wellformed items → operand items fuel bound s = .ok (e, s') →
      OperandSpec items s e s') ∧
    (∀ s e s', s.Wellformed items → operand items fuel prefixPower s = .ok (e, s') →
      PrefixSpec items s e s') ∧
    (∀ a s e s', s.Wellformed items → start items fuel a s = .ok (e, s') →
      StartSpec items a s e s') ∧ ∀ bound left s e s', s.Wellformed items → s.skipped = [] →
      operators items fuel bound left s = .ok (e, s') → OperatorsSpec items left s e s' := by
  induction fuel with
  | zero =>
    refine ⟨fun _ _ _ _ _ h => ?_, fun _ _ _ _ h => ?_, fun _ _ _ _ _ h => ?_,
      fun _ _ _ _ _ _ _ h => ?_⟩ <;> cases h
  | succ fuel ih =>
    obtain ⟨hoperand, hprefix, hstart, hoperators⟩ := ih
    refine ⟨?_, ?_, ?_, ?_⟩
    · intro bound s e s' hs h
      exact operandSpec_succ hstart (hoperators bound) hs h
    · intro s e s' hs h
      exact prefixSpec_succ hstart hs h
    · intro a s e s' hs h
      exact startSpec_succ hprefix hs h
    · intro bound left s e s' hs hk h
      exact operatorsSpec_succ hoperand (hoperators bound) hs hk h

/-- With nothing to bind against, operators are taken up to the end of the row. -/
lemma operators_zero_next (h : operators items fuel 0 left s = .ok (e, s')) : s'.next = none := by
  induction fuel generalizing left s with
  | zero => cases h
  | succ fuel ih =>
    cases hn : s.next with
    | none =>
      obtain ⟨-, rfl⟩ := operators_of_next_none hn h
      exact hn
    | some a =>
      rcases operators_of_next_some hn h with ⟨-, -, hlt⟩ | ⟨-, -, hnone⟩ | ⟨_, _, -, -, h2⟩
      · refine absurd ?_ hlt
        simp only [Ahead.power, hn]
        exact power_pos _
      · exact hnone
      · exact ih h2

lemma operand_zero_next (h : operand items fuel 0 s = .ok (e, s')) : s'.next = none := by
  cases fuel with
  | zero => cases h
  | succ fuel =>
    cases hn : s.next with
    | none =>
      obtain ⟨-, rfl⟩ := operand_of_next_none hn h
      rfl
    | some a =>
      obtain ⟨_, _, -, h2⟩ := operand_of_next_some hn h
      exact operators_zero_next h2

variable (items)

/-- Whether a row, layout included, ends with an operator that has no right operand. -/
def endsOpen (row : List α) : Bool :=
  dangles items 1 (row.filter fun a => !items.isLayout a)

/-- What arranging keeps of a row: all of it, but behind an operator without a right operand no
layout. -/
def kept (row : List α) : List α :=
  if endsOpen items row then row.rdropWhile items.isLayout else row

variable {items}

lemma endsOpen_singleton (a : α) : endsOpen items [a] = false := by
  by_cases ha : items.isLayout a = true
  · simp [endsOpen, ha]
  · have ha : items.isLayout a = false := by simpa using ha
    simp only [endsOpen, filter_cons, ha, Bool.not_false, if_true, filter_nil]
    cases ho : opening items a ⟨([] : List α).head?, [], []⟩ with
    | ok how => rw [dangles_succ items 0 ho, dangles_nil]
    | error f =>
      rw [dangles, danglesWith]
      simp only [ho]

lemma rdropWhile_append_of_last {p : α → Bool} (front : List α) (a : α) (back : List α)
    (ha : p a = false) (hback : ∀ b ∈ back, p b = true) :
    (front ++ [a] ++ back).rdropWhile p = front ++ [a] := by
  induction back using List.reverseRecOn with
  | nil => simp [ha]
  | append_singleton back b ih =>
    rw [← append_assoc, rdropWhile_concat_pos _ _ _ (hback b (by simp))]
    exact ih fun c hc => hback c (by simp [hc])

/-- A row that is not a single item is arranged like an operand with all operators behind it. -/
lemma arrange_of_length_ne_one (h : row.length ≠ 1) : arrange items row
      = Prod.fst <$> operand items (3 * row.length + 6) 0 (Ahead.advance items ⟨none, [], row⟩) := by
  match row with
  | [] => rfl
  | [_] => exact absurd rfl h
  | _ :: _ :: _ => rfl

/-- An arranged row has the items of the row, in order, but behind an operator without a right
operand no layout. -/
lemma leaves_arrange (h : arrange items row = .ok e) : e.leaves = kept items row := by
  have hmany : ∀ fuel s', operand items fuel 0 (Ahead.advance items ⟨none, [], row⟩) = .ok (e, s') →
      e.leaves = kept items row := by
    intro fuel s' h
    obtain ⟨hw, hp, ho⟩ := advance_next items row
    have hspec := (arranging fuel).1 _ _ _ _ hw h
    have hnext := operand_zero_next h
    have hkept := hspec.kept
    rw [hp, Ahead.pending, hnext, hspec.wellformed.rest_nil hnext] at hkept
    simp only [Option.toList_none, append_nil] at hkept
    have hsettled := hspec.settled
    rw [ho] at hsettled
    cases hsettled with
    | placed hk hd =>
      rw [Ahead.operands_of_next_none hspec.wellformed hnext, dangles_nil] at hd
      have : endsOpen items row = false := hd.symm
      rw [hk, append_nil] at hkept
      simp [kept, this, hkept]
    | dangling _ hd hlast =>
      obtain ⟨front, a, hleaves, ha⟩ := hlast
      have : endsOpen items row = true := hd
      rw [kept, this, if_pos rfl, ← hkept, hleaves,
        rdropWhile_append_of_last _ _ _ ha hspec.wellformed.skipped_layout]
  match row, h with
  | [a], h =>
    cases h
    simp [kept, endsOpen_singleton]
  | [], h | a :: b :: rest, h =>
    obtain ⟨⟨e', s'⟩, h1, h2⟩ := except_bind_eq_ok.mp h
    cases h2
    exact hmany _ _ h1

/-! ### What is left out of a row -/

variable (items) in
/-- A row is what arranging keeps of it and, behind that, layout. -/
lemma exists_kept_append (row : List α) :
    ∃ dropped, row = kept items row ++ dropped ∧ (∀ a ∈ dropped, items.isLayout a = true) ∧
      (dropped = [] ↔ (endsOpen items row && row.getLast?.any items.isLayout) = false) := by
  unfold kept
  cases ho : endsOpen items row with
  | false => exact ⟨[], by simp, by simp, by simp⟩
  | true =>
    refine ⟨row.rtakeWhile items.isLayout, by simp, fun a ha => mem_rtakeWhile_imp ha, ?_⟩
    rcases eq_nil_or_concat row with rfl | ⟨front, a, rfl⟩
    · simp
    · cases ha : items.isLayout a <;> simp [ha]

variable {β : Type} {items' : Items β}

lemma danglesWith_congr {R : α → β → Prop} {opens : α → Option α → Except Fault Opening}
    {opens' : β → Option β → Except Fault Opening}
    (hopens : ∀ a b rest rest', R a b → Forall₂ R rest rest' →
      opens a rest.head? = opens' b rest'.head?)
    {row' : List β} (h : Forall₂ R row row') (expected : Nat) :
    danglesWith opens expected row = danglesWith opens' expected row' := by
  induction h generalizing expected with
  | nil => cases expected <;> rfl
  | @cons a b rest rest' hab hrest ih =>
    cases expected with
    | zero =>
      cases hrest with
      | nil => rfl
      | cons _ _ => exact ih 1
    | succ n =>
      rw [danglesWith, danglesWith, hopens a b rest rest' hab hrest]
      cases opens' b rest'.head? with
      | error e => rfl
      | ok how => exact ih _

lemma opening_congr_text {b : β} {next : Option α} {next' : Option β}
    (h : items.text a = items'.text b) (hnext : next.map items.text = next'.map items'.text) :
    opening items a ⟨next, [], []⟩ = opening items' b ⟨next', [], []⟩ := by
  unfold opening
  rw [h]
  cases next with
  | none =>
    cases next' with
    | none => rfl
    | some d => cases hnext
  | some c =>
    cases next' with
    | none => cases hnext
    | some d =>
      have hcd : items.text c = items'.text d := by simpa using hnext
      dsimp only
      rw [hcd]

/-- Whether a row ends with an operator that has no right operand depends on the texts of its items and
on which of them are layout. -/
lemma endsOpen_congr {row' : List β}
    (h : Forall₂ (fun a b => items.text a = items'.text b ∧ items.isLayout a = items'.isLayout b)
      row row') : endsOpen items row = endsOpen items' row' := by
  refine danglesWith_congr (R := fun a b => items.text a = items'.text b) ?_ ?_ 1
  · intro a b rest rest' hab hrest
    refine opening_congr_text hab ?_
    cases hrest with
    | nil => rfl
    | cons hcd _ => simp [hcd]
  · induction h with
    | nil => exact .nil
    | @cons a b rest rest' hab hrest ih =>
      rw [filter_cons, filter_cons, hab.2]
      split
      · exact .cons hab.1 ih
      · exact ih

/-! ### Every row can be arranged -/

/-- How many items are still to come. -/
def Ahead.size (s : Ahead α) : Nat :=
  s.next.toList.length + s.rest.length

def Ahead.Texted (items : Items α) (s : Ahead α) : Prop :=
  ∀ a ∈ s.next.toList ++ s.rest, items.text a ≠ ""

lemma Ahead.advance_le (s : Ahead α) : (s.advance items).size ≤ s.rest.length := by
  unfold advance
  have hlength := (dropWhile_sublist items.isLayout (l := s.rest)).length_le
  cases hrest : s.rest.dropWhile items.isLayout with
  | nil => simp [size]
  | cons a rest =>
    rw [hrest] at hlength
    simpa [size, Nat.add_comm] using hlength

lemma Ahead.Texted.advance (hs : s.Texted items) : (s.advance items).Texted items := by
  have hsub := (dropWhile_sublist items.isLayout (l := s.rest)).subset
  unfold Ahead.advance
  cases hrest : s.rest.dropWhile items.isLayout with
  | nil => simp [Texted]
  | cons a rest =>
    rw [hrest] at hsub
    intro b hb
    exact hs b (mem_append_right _ (hsub (by simpa using hb)))

lemma exists_opening (a : α) (hs : s.Texted items) : ∃ how, opening items a s = .ok how := by
  unfold opening
  dsimp only
  split_ifs
  · exact ⟨_, rfl⟩
  · exact ⟨_, rfl⟩
  · cases hn : s.next with
    | none => exact ⟨_, rfl⟩
    | some b =>
      have hb : items.text b ≠ "" := hs b (by simp [hn])
      dsimp only
      cases hc : (items.text b).toList with
      | nil => exact absurd (String.toList_inj.mp hc) hb
      | cons c cs => exact ⟨_, rfl⟩
  · exact ⟨_, rfl⟩

/-- What goes on behind a part of a row that was arranged. -/
structure Goes (items : Items α) (s s' : Ahead α) : Prop where
  texted : s'.Texted items
  size_le : s'.size ≤ s.size

lemma Goes.trans {s'' : Ahead α} (h : Goes items s s') (h' : Goes items s' s'') :
    Goes items s s'' :=
  ⟨h'.texted, h'.size_le.trans h.size_le⟩

lemma exists_start
    (hoperand : ∀ (bound : Nat) (s : Ahead α), s.Texted items → 2 * s.size + 1 ≤ fuel →
      ∃ e s', operand items fuel bound s = .ok (e, s') ∧ Goes items s s')
    (a : α) (hs : s.Texted items) (hfuel : 2 * s.size + 1 ≤ fuel) :
    ∃ e s', start items (fuel + 1) a s = .ok (e, s') ∧ Goes items s s' := by
  obtain ⟨how, hhow⟩ := exists_opening a hs
  rw [start, hhow]
  cases how with
  | alone => exact ⟨_, _, rfl, hs, Nat.le_refl _⟩
  | one =>
    obtain ⟨e, s1, h1, hs1⟩ := hoperand prefixPower s hs hfuel
    refine ⟨.group [.leaf a, e], s1, ?_, hs1⟩
    exact except_bind_eq_ok.mpr ⟨.one, rfl, except_bind_eq_ok.mpr ⟨_, h1, rfl⟩⟩
  | three =>
    obtain ⟨e1, s1, h1, hs1⟩ := hoperand prefixPower s hs hfuel
    have hfuel1 := hs1.size_le
    obtain ⟨e2, s2, h2, hs2⟩ := hoperand prefixPower s1 hs1.texted (by omega)
    have hfuel2 := hs2.size_le
    obtain ⟨e3, s3, h3, hs3⟩ := hoperand prefixPower s2 hs2.texted (by omega)
    refine ⟨.group [.leaf a, e1, e2, e3], s3, ?_, (hs1.trans hs2).trans hs3⟩
    exact except_bind_eq_ok.mpr ⟨.three, rfl, except_bind_eq_ok.mpr ⟨_, h1,
      except_bind_eq_ok.mpr ⟨_, h2, except_bind_eq_ok.mpr ⟨_, h3, rfl⟩⟩⟩⟩

variable (items) in
/-- The fuel for arranging is twice the items to come and one more: an item costs a step for itself and
one for the operator or the operand that it is. -/
lemma exists_arranged (fuel : Nat) :
    (∀ (bound : Nat) (s : Ahead α), s.Texted items → 2 * s.size + 1 ≤ fuel →
      ∃ e s', operand items fuel bound s = .ok (e, s') ∧ Goes items s s') ∧
    (∀ (a : α) (s : Ahead α), s.Texted items → 2 * s.size + 2 ≤ fuel →
      ∃ e s', start items fuel a s = .ok (e, s') ∧ Goes items s s') ∧
    ∀ (bound : Nat) (left : Exp α) (s : Ahead α), s.Texted items → 2 * s.size + 1 ≤ fuel →
      ∃ e s', operators items fuel bound left s = .ok (e, s') ∧ Goes items s s' := by
  induction fuel with
  | zero => refine ⟨fun _ _ _ h => ?_, fun _ _ _ h => ?_, fun _ _ _ _ h => ?_⟩ <;> omega
  | succ fuel ih =>
    obtain ⟨ihoperand, ihstart, ihoperators⟩ := ih
    refine ⟨fun bound s hs hfuel => ?_, fun a s hs hfuel => ?_, fun bound left s hs hfuel => ?_⟩
    · rw [operand]
      cases hn : s.next with
      | none =>
        have hgoes : Goes items s ⟨none, [], s.rest⟩ :=
          ⟨fun a ha => hs a (mem_append_right _ ha), by simp [Ahead.size, hn]⟩
        dsimp only
        split
        · exact ⟨_, _, rfl, hgoes⟩
        · exact ⟨_, _, rfl, hgoes⟩
      | some a =>
        have hrest : Ahead.Texted items ⟨none, [], s.rest⟩ :=
          fun b hb => hs b (mem_append_right _ hb)
        have hsize : s.size = s.rest.length + 1 := by simp [Ahead.size, hn, Nat.add_comm]
        have hle : (Ahead.advance items ⟨none, [], s.rest⟩).size ≤ s.rest.length :=
          Ahead.advance_le _
        obtain ⟨e, s1, h1, hs1⟩ := ihstart a _ hrest.advance (by omega)
        have hle1 := hs1.size_le
        obtain ⟨e', s2, h2, hs2⟩ := ihoperators bound (surround s.skipped e s1.skipped)
          ⟨s1.next, [], s1.rest⟩ hs1.texted (by simp only [Ahead.size] at *; omega)
        refine ⟨e', s2, except_bind_eq_ok.mpr ⟨_, h1, h2⟩, hs2.texted, ?_⟩
        have hle2 := hs2.size_le
        simp only [Ahead.size] at *
        omega
    · exact exists_start ihoperand a hs (by omega)
    · rw [operators]
      cases hn : s.next with
      | none => exact ⟨_, _, rfl, hs, Nat.le_refl _⟩
      | some a =>
        have hsize : s.size = s.rest.length + 1 := by simp [Ahead.size, hn, Nat.add_comm]
        have hle : (Ahead.advance items s).size ≤ s.rest.length := Ahead.advance_le s
        have hgoes : Goes items s (Ahead.advance items s) := ⟨hs.advance, by omega⟩
        dsimp only
        split_ifs
        · exact ⟨_, _, rfl, hgoes⟩
        · obtain ⟨e, s1, h1, hs1⟩ := ihoperand (s.power items) _ hs.advance (by omega)
          have hle1 := hs1.size_le
          obtain ⟨e', s2, h2, hs2⟩ := ihoperators bound (.group [left, .leaf a, e]) s1 hs1.texted
            (by omega)
          exact ⟨e', s2, except_bind_eq_ok.mpr ⟨_, h1, h2⟩, (hgoes.trans hs1).trans hs2⟩
        · exact ⟨_, _, rfl, hs, Nat.le_refl _⟩

lemma exists_arrange (h : ∀ a ∈ row, items.text a ≠ "") : ∃ e, arrange items row = .ok e := by
  have hmany : ∃ e s', operand items (3 * row.length + 6) 0 (Ahead.advance items ⟨none, [], row⟩) =
      .ok (e, s') := by
    have hrow : Ahead.Texted items ⟨none, [], row⟩ := fun a ha => h a (by simpa using ha)
    have hle : (Ahead.advance items ⟨none, [], row⟩).size ≤ row.length := Ahead.advance_le _
    obtain ⟨e, s', h, -⟩ := (exists_arranged items (3 * row.length + 6)).1 0 _ hrow.advance (by omega)
    exact ⟨e, s', h⟩
  obtain ⟨e, s', he⟩ := hmany
  match row, he with
  | [a], _ => exact ⟨_, rfl⟩
  | [], he | a :: b :: rest, he => exact ⟨e, except_bind_eq_ok.mpr ⟨_, he, rfl⟩⟩

end Precedence

end ArmaScript
