import ArmaScript.Proofs.Arrangement
import Mathlib.Data.List.Forall2

/-!
# Rows that are arranged in step

Arranging a row looks at its items only through their texts and whether they are layout. Two rows whose
items correspond are therefore arranged in step: the same steps are taken in both, with the same fuel,
and what comes out corresponds. An `Alignment` says what it means for items, layout, rows and arranged
rows to correspond, and has the few closure properties that the steps need.

The fuel of a row is given by its length. Rows that are arranged in step can have different lengths, but
each of them has more fuel than it needs.
-/

namespace ArmaScript.Precedence

open Ahead

variable {α β : Type} {items : Items α} {items' : Items β}

/-! ### Fuel that is enough -/

/-- Arranging never adds to the items that are still to come. -/
lemma size_le (fuel : Nat) : (∀ {bound : Nat} {s s' : Ahead α} {e : Exp α},
      operand items fuel bound s = .ok (e, s') → s'.size ≤ s.size) ∧
    (∀ {a : α} {s s' : Ahead α} {e : Exp α},
      start items fuel a s = .ok (e, s') → s'.size ≤ s.size) ∧
    ∀ {bound : Nat} {left e : Exp α} {s s' : Ahead α},
      operators items fuel bound left s = .ok (e, s') → s'.size ≤ s.size := by
  induction fuel with
  | zero => exact ⟨nofun, nofun, nofun⟩
  | succ fuel ih =>
    obtain ⟨ihoperand, ihstart, ihoperators⟩ := ih
    refine ⟨?_, ?_, ?_⟩
    · intro bound s s' e h
      cases hn : s.next with
      | none =>
        obtain ⟨-, rfl⟩ := operand_of_next_none hn h
        simp [size]
      | some a =>
        obtain ⟨e1, s1, h1, h2⟩ := operand_of_next_some hn h
        have hadvance : (advance items ⟨none, [], s.rest⟩).size ≤ s.rest.length :=
          advance_le _
        have hstart := ihstart h1
        have hoperators := ihoperators h2
        simp only [size, hn, Option.toList_some, List.length_singleton] at *
        omega
    · intro a s s' e h
      rw [start] at h
      obtain ⟨how, -, h⟩ := except_bind_eq_ok.mp h
      cases how with
      | alone =>
        cases h
        exact Nat.le_refl _
      | one =>
        obtain ⟨⟨e1, s1⟩, h1, h⟩ := except_bind_eq_ok.mp h
        cases h
        exact ihoperand h1
      | three =>
        obtain ⟨⟨e1, s1⟩, h1, h⟩ := except_bind_eq_ok.mp h
        obtain ⟨⟨e2, s2⟩, h2, h⟩ := except_bind_eq_ok.mp h
        obtain ⟨⟨e3, s3⟩, h3, h⟩ := except_bind_eq_ok.mp h
        cases h
        exact (ihoperand h3).trans ((ihoperand h2).trans (ihoperand h1))
    · intro bound left e s s' h
      cases hn : s.next with
      | none =>
        obtain ⟨-, rfl⟩ := operators_of_next_none hn h
        exact Nat.le_refl _
      | some a =>
        have hadvance : (s.advance items).size ≤ s.rest.length := advance_le s
        have hsize : s.size = s.rest.length + 1 := by simp [size, hn, Nat.add_comm]
        rcases operators_of_next_some hn h with ⟨-, rfl, -⟩ | ⟨-, rfl, -⟩ | ⟨right, s1, -, h1, h2⟩
        · exact Nat.le_refl _
        · omega
        · have hoperand := ihoperand h1
          have hoperators := ihoperators h2
          omega

/-- Computations that start in the same way and go on in the same way from there. -/
lemma except_bind_congr {ε γ δ : Type} {x y : Except ε γ} {f g : γ → Except ε δ} (hxy : x = y)
    (h : ∀ b, x = .ok b → f b = g b) : x >>= f = y >>= g := by
  subst hxy
  cases x with
  | error e => rfl
  | ok b => exact h b rfl

/-- Twice the items to come and one more are enough fuel: with more the outcome is the same. -/
lemma fuel_succ (fuel : Nat) : (∀ (bound : Nat) (s : Ahead α), 2 * s.size + 1 ≤ fuel →
      operand items (fuel + 1) bound s = operand items fuel bound s) ∧
    (∀ (a : α) (s : Ahead α), 2 * s.size + 2 ≤ fuel →
      start items (fuel + 1) a s = start items fuel a s) ∧
    ∀ (bound : Nat) (left : Exp α) (s : Ahead α), 2 * s.size + 1 ≤ fuel →
      operators items (fuel + 1) bound left s = operators items fuel bound left s := by
  induction fuel with
  | zero => refine ⟨fun _ _ h => ?_, fun _ _ h => ?_, fun _ _ _ h => ?_⟩ <;> omega
  | succ fuel ih =>
    obtain ⟨ihoperand, ihstart, ihoperators⟩ := ih
    refine ⟨fun bound s hfuel => ?_, fun a s hfuel => ?_, fun bound left s hfuel => ?_⟩
    · rw [operand, operand]
      cases hn : s.next with
      | none => rfl
      | some a =>
        have hadvance : (advance items ⟨none, [], s.rest⟩).size ≤ s.rest.length :=
          advance_le _
        have hsize : s.size = s.rest.length + 1 := by simp [size, hn, Nat.add_comm]
        refine except_bind_congr (ihstart a _ (by omega)) ?_
        rintro ⟨e1, s1⟩ h1
        have hstart := (size_le _).2.1 h1
        exact ihoperators bound _ _ (by simp only [size] at *; omega)
    · rw [start, start]
      refine except_bind_congr rfl fun how _ => ?_
      cases how with
      | alone => rfl
      | one => exact except_bind_congr (ihoperand _ s (by omega)) fun _ _ => rfl
      | three =>
        refine except_bind_congr (ihoperand _ s (by omega)) ?_
        rintro ⟨e1, s1⟩ h1
        have hle1 := (size_le _).1 h1
        refine except_bind_congr (ihoperand _ s1 (by omega)) ?_
        rintro ⟨e2, s2⟩ h2
        have hle2 := (size_le _).1 h2
        exact except_bind_congr (ihoperand _ s2 (by omega)) fun _ _ => rfl
    · rw [operators, operators]
      cases hn : s.next with
      | none => rfl
      | some a =>
        have hadvance : (s.advance items).size ≤ s.rest.length := advance_le s
        have hsize : s.size = s.rest.length + 1 := by simp [size, hn, Nat.add_comm]
        dsimp only
        split_ifs
        · rfl
        · refine except_bind_congr (ihoperand _ _ (by omega)) ?_
          rintro ⟨right, s1⟩ h1
          have hle := (size_le _).1 h1
          exact ihoperators bound _ s1 (by omega)
        · rfl

variable (items) in
lemma operand_fuel (bound : Nat) (s : Ahead α) {fuel fuel' : Nat} (hfuel : 2 * s.size + 1 ≤ fuel)
    (hle : fuel ≤ fuel') : operand items fuel' bound s = operand items fuel bound s := by
  induction hle with
  | refl => rfl
  | step hle ih => exact ((fuel_succ _).1 bound s (Nat.le_trans hfuel hle)).trans ih

/-! ### Corresponding rows -/

/-- What becomes of the layout at the end of a row, where an operand is missing. -/
def ending : List α → Exp α
  | [a] => .leaf a
  | skipped => .group (skipped.map .leaf)

variable (items) in
lemma operand_end (skipped rest : List α) (fuel bound : Nat) :
    operand items (fuel + 1) bound ⟨none, skipped, rest⟩ = .ok (ending skipped, ⟨none, [], rest⟩) := by
  rw [operand]
  rcases skipped with _ | ⟨a, _ | ⟨b, skipped⟩⟩ <;> rfl

lemma operators_end (fuel bound : Nat) (left : Exp α) (skipped rest : List α) :
    operators items (fuel + 1) bound left ⟨none, skipped, rest⟩ = .ok (left, ⟨none, skipped, rest⟩) := by
  rw [operators]

/-- What is left to arrange of two rows corresponds: the next items, the layout before them and the
items behind them. -/
structure Ahead.Rel (item : α → β → Prop) (gap row : List α → List β → Prop) (s : Ahead α)
    (t : Ahead β) : Prop where
  next : Option.Rel item s.next t.next
  skipped : gap s.skipped t.skipped
  rest : row s.rest t.rest

/-- How items, layout that was skipped, rows and arranged rows correspond, so that rows are arranged in
step. -/
structure Alignment (items : Items α) (items' : Items β) where
  item : α → β → Prop
  gap : List α → List β → Prop
  row : List α → List β → Prop
  exp : Exp α → Exp β → Prop
  advance : ∀ {s t}, Ahead.Rel item gap row s t →
    Ahead.Rel item gap row (s.advance items) (t.advance items')
  power_eq : ∀ {a b}, item a b →
    power (Text.lower (items.text a)) = power (Text.lower (items'.text b))
  opening_eq : ∀ {a b} {s : Ahead α} {t : Ahead β}, item a b → Option.Rel item s.next t.next →
    opening items a s = opening items' b t
  gap_nil : gap [] []
  leaf : ∀ {a b}, item a b → exp (.leaf a) (.leaf b)
  ending : ∀ {l m}, gap l m → exp (ending l) (ending m)
  surround : ∀ {l m l' m' e f}, gap l m → exp e f → gap l' m' →
    exp (surround l e l') (surround m f m')
  group : ∀ {es fs}, List.Forall₂ exp es fs → exp (.group es) (.group fs)

namespace Alignment

variable (c : Alignment items items')

/-- What is left to arrange of rows that are arranged in step. -/
abbrev Ahead (s : Ahead α) (t : Ahead β) : Prop :=
  Ahead.Rel c.item c.gap c.row s t

/-- How arranging ends in rows that are arranged in step. -/
inductive Outcomes :
    Except Fault (Exp α × Precedence.Ahead α) → Except Fault (Exp β × Precedence.Ahead β) → Prop
  | ok {e : Exp α} {f : Exp β} {s : Precedence.Ahead α} {t : Precedence.Ahead β} (he : c.exp e f)
      (hs : c.Ahead s t) : Outcomes (.ok (e, s)) (.ok (f, t))
  | error (fault : Fault) : Outcomes (.error fault) (.error fault)

variable {c}

lemma Outcomes.bind {x : Except Fault (Exp α × Precedence.Ahead α)}
    {y : Except Fault (Exp β × Precedence.Ahead β)}
    {f : Exp α × Precedence.Ahead α → Except Fault (Exp α × Precedence.Ahead α)}
    {g : Exp β × Precedence.Ahead β → Except Fault (Exp β × Precedence.Ahead β)}
    (h : c.Outcomes x y)
    (hfg : ∀ e e' s t, c.exp e e' → c.Ahead s t → c.Outcomes (f (e, s)) (g (e', t))) :
    c.Outcomes (x >>= f) (y >>= g) := by
  cases h with
  | ok he hs => exact hfg _ _ _ _ he hs
  | error fault => exact .error fault

variable {s : Precedence.Ahead α} {t : Precedence.Ahead β}

/-- Layout that has found its place is forgotten. -/
lemma placed (h : c.Ahead s t) {next : Option α} {next' : Option β}
    (hnext : Option.Rel c.item next next') : c.Ahead ⟨next, [], s.rest⟩ ⟨next', [], t.rest⟩ :=
  ⟨hnext, c.gap_nil, h.rest⟩

lemma outcomes_start {fuel : Nat}
    (hoperand : ∀ (bound : Nat) {s : Precedence.Ahead α} {t : Precedence.Ahead β}, c.Ahead s t →
      c.Outcomes (operand items fuel bound s) (operand items' fuel bound t))
    {a : α} {b : β} (hab : c.item a b) (h : c.Ahead s t) :
    c.Outcomes (start items (fuel + 1) a s) (start items' (fuel + 1) b t) := by
  rw [start, start, c.opening_eq hab h.next]
  cases opening items' b t with
  | error fault => exact .error fault
  | ok how =>
    cases how with
    | alone => exact .ok (c.leaf hab) h
    | one =>
      refine (hoperand prefixPower h).bind fun e e' s t he hs => .ok ?_ hs
      exact c.group (.cons (c.leaf hab) (.cons he .nil))
    | three =>
      refine (hoperand prefixPower h).bind fun e1 e1' s t he1 hs => ?_
      refine (hoperand prefixPower hs).bind fun e2 e2' s t he2 hs => ?_
      refine (hoperand prefixPower hs).bind fun e3 e3' s t he3 hs => .ok ?_ hs
      exact c.group (.cons (c.leaf hab) (.cons he1 (.cons he2 (.cons he3 .nil))))

lemma outcomes_operators {fuel bound : Nat}
    (hoperand : ∀ (bound : Nat) {s : Precedence.Ahead α} {t : Precedence.Ahead β}, c.Ahead s t →
      c.Outcomes (operand items fuel bound s) (operand items' fuel bound t))
    (hoperators : ∀ {left : Exp α} {left' : Exp β} {s : Precedence.Ahead α}
      {t : Precedence.Ahead β}, c.exp left left' → c.Ahead s t →
      c.Outcomes (operators items fuel bound left s) (operators items' fuel bound left' t))
    {left : Exp α} {left' : Exp β} (hleft : c.exp left left') (h : c.Ahead s t) :
    c.Outcomes (operators items (fuel + 1) bound left s)
      (operators items' (fuel + 1) bound left' t) := by
  obtain ⟨next, skipped, rest⟩ := s
  obtain ⟨next', skipped', rest'⟩ := t
  have hnext := h.next
  cases hnext with
  | none =>
    rw [operators_end, operators_end]
    exact .ok hleft h
  | @some a b hab =>
    have hadvance := c.advance h
    have hisNone {o : Option α} {o' : Option β} (h : Option.Rel c.item o o') :
        o.isNone = o'.isNone := by
      cases h <;> rfl
    have hnone := hisNone hadvance.next
    have hpower : Ahead.power items ⟨some a, skipped, rest⟩ =
        Ahead.power items' ⟨some b, skipped', rest'⟩ := c.power_eq hab
    rw [operators, operators]
    dsimp only
    rw [hpower, hnone]
    split_ifs
    · exact .ok (c.group (.cons hleft (.cons (c.leaf hab) .nil))) hadvance
    · refine (hoperand _ hadvance).bind fun right right' s t hright hs => hoperators ?_ hs
      exact c.group (.cons hleft (.cons (c.leaf hab) (.cons hright .nil)))
    · exact .ok hleft h

lemma outcomes_arranging (fuel : Nat) :
    (∀ (bound : Nat) {s : Precedence.Ahead α} {t : Precedence.Ahead β}, c.Ahead s t →
      c.Outcomes (operand items fuel bound s) (operand items' fuel bound t)) ∧
    (∀ {a : α} {b : β}, c.item a b → ∀ {s : Precedence.Ahead α} {t : Precedence.Ahead β},
      c.Ahead s t → c.Outcomes (start items fuel a s) (start items' fuel b t)) ∧
    ∀ (bound : Nat) {left : Exp α} {left' : Exp β} {s : Precedence.Ahead α}
      {t : Precedence.Ahead β}, c.exp left left' → c.Ahead s t →
      c.Outcomes (operators items fuel bound left s) (operators items' fuel bound left' t) := by
  induction fuel with
  | zero => exact ⟨fun _ _ _ _ => .error _, fun _ _ _ _ => .error _, fun _ _ _ _ _ _ _ => .error _⟩
  | succ fuel ih =>
    obtain ⟨ihoperand, ihstart, ihoperators⟩ := ih
    refine ⟨fun bound s t h => ?_, fun hab _ _ h => outcomes_start ihoperand hab h,
      fun bound _ _ _ _ hleft h => outcomes_operators ihoperand (ihoperators bound) hleft h⟩
    obtain ⟨next, skipped, rest⟩ := s
    obtain ⟨next', skipped', rest'⟩ := t
    have hnext := h.next
    cases hnext with
    | none =>
      rw [operand_end, operand_end]
      exact .ok (c.ending h.skipped) (placed h .none)
    | some hab =>
      rw [operand, operand]
      refine (ihstart hab (c.advance (placed h .none))).bind fun e e' s1 t1 he h1 => ?_
      exact ihoperators bound (c.surround h.skipped he h1.skipped) (placed h1 h1.next)

/-- Corresponding rows are arranged in step, each with the fuel of its own length. -/
lemma outcomes_operand {as : List α} {bs : List β} (h : c.row as bs) :
    c.Outcomes (operand items (3 * as.length + 6) 0 (Ahead.advance items ⟨none, [], as⟩))
      (operand items' (3 * bs.length + 6) 0 (Ahead.advance items' ⟨none, [], bs⟩)) := by
  have hahead : c.Ahead ⟨none, [], as⟩ ⟨none, [], bs⟩ := ⟨.none, c.gap_nil, h⟩
  have hsize : (Ahead.advance items ⟨none, [], as⟩).size ≤ as.length := Ahead.advance_le _
  have hsize' : (Ahead.advance items' ⟨none, [], bs⟩).size ≤ bs.length := Ahead.advance_le _
  have hfuel := operand_fuel items 0 (Ahead.advance items ⟨none, [], as⟩)
    (show _ ≤ 3 * as.length + 6 by omega)
    (Nat.le_add_right (3 * as.length + 6) (3 * bs.length))
  have hfuel' := operand_fuel items' 0 (Ahead.advance items' ⟨none, [], bs⟩)
    (show _ ≤ 3 * bs.length + 6 by omega)
    (show 3 * bs.length + 6 ≤ 3 * as.length + 6 + 3 * bs.length by omega)
  rw [← hfuel, ← hfuel']
  exact (outcomes_arranging _).1 0 (c.advance hahead)

end Alignment

end ArmaScript.Precedence
