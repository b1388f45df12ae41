import ArmaScript.Proofs.Spelling

/-!
# Shadowing

A scope that holds a local name shadows the scopes below it. While it is there, what is set where the
name belongs, or in the top scope, is set in it or above it. So once it is taken off the name is bound
as before, whatever scopes came and went in between, unless it was set in the base itself.
-/

namespace ArmaScript.Stack

open Text List

variable {α : Type} {s : Stack α} {n : Nat} {x name : String} {v : α} {old : Nat → Option α}
  {vars : List (String × α)}

/-- A local name has the value that the highest scope with this name gives it. -/
lemma find?_eq_some_iff (hx : isLocalName x = true) :
    s.find? x = .ok (some v) ↔ ∃ level, s.Highest x level v := by
  rw [find?, except_bind_eq_ok]
  constructor
  · rintro ⟨level, hlevel, hheld⟩
    refine ⟨level, Except.ok.inj hheld, fun l hl => ?_⟩
    by_contra hsome
    exact Nat.not_le_of_lt hl (le_levelOf hx (Option.isSome_iff_ne_none.mpr hsome) hlevel)
  · rintro ⟨level, h⟩
    exact ⟨level, h.levelOf_eq hx, congrArg Except.ok h.held⟩

/-- A global name belongs to the base, if there is a scope at all. -/
lemma levelOf_eq_base (h : isLocalName name = false) :
    s.levelOf name = Target.base.level s name := by
  unfold levelOf Target.level top
  split
  · rfl
  · rw [h]
    rfl

/-- While a scope shelters those below, only the base can be set past it. -/
lemma Shelters.exists_level (hs : s.Shelters n x old) (hx : isLocalName x = true) {target : Target}
    (h : target = .base → lower name ≠ lower x) :
    ∃ level, target.level s name = .ok level ∧ (n ≤ level ∨ lower name ≠ lower x) := by
  have hn := lt_of_isSome_valueAt? hs.bound
  have hscopes : s.scopes ≠ [] := ne_nil_of_length_pos (Nat.zero_lt_of_lt hn)
  have htop : s.top = .ok (s.scopes.length - 1) := if_neg (by simpa using hscopes)
  cases target with
  | resolved =>
    obtain ⟨level, hlevel⟩ := exists_levelOf hscopes name
    exact ⟨level, hlevel, hs.le_or_ne hx hlevel⟩
  | top => exact ⟨_, htop, .inl (Nat.le_sub_one_of_lt hn)⟩
  | base =>
    refine ⟨0, ?_, .inr (h rfl)⟩
    rw [Target.level, htop]
    rfl

/-- A stack whose scopes keep the levels that they were given. -/
structure Numbered (α : Type) where
  stack : Stack α
  levels : List Nat

/-- Whatever scopes are put on the stack are taken off again, and the name is not set in the base. -/
inductive Operation.Bracketed (x : String) : List (Operation α) → Prop
  | nil : Bracketed x []
  | set {target : Target} {name : String} (v : α) {ops : List (Operation α)}
      (h : target = .base → lower name ≠ lower x) (hops : Bracketed x ops) :
      Bracketed x (.set target name v :: ops)
  | scope (vars : List (String × α)) (inner ops : List (Operation α)) (hinner : Bracketed x inner)
      (hops : Bracketed x ops) : Bracketed x (.push vars :: inner ++ [.pop] ++ ops)

namespace Numbered

open Operation

def ofVariables (vars : List (String × α)) : Numbered α :=
  ⟨.ofVariables vars, [0]⟩

/-- The levels behind an operation: a new scope is given the number of those that are there. -/
def renumbered (s : Numbered α) : Operation α → List Nat
  | .push _ => s.levels ++ [s.stack.scopes.length]
  | .pop => s.levels.dropLast
  | _ => s.levels

def next (s : Numbered α) (op : Operation α) : Except Fault (Numbered α) := do
  let (_, stack) ← op.run s.stack
  return ⟨stack, s.renumbered op⟩

/-- Does operations one after the other, as long as none fails. -/
abbrev after (s : Numbered α) (ops : List (Operation α)) : Except Fault (Numbered α) :=
  ops.foldlM next s

variable {s s' t : Numbered α} {op : Operation α} {ops : List (Operation α)}

lemma after_append_eq_ok {ops' : List (Operation α)} :
    s.after (ops ++ ops') = .ok s' ↔ ∃ t, s.after ops = .ok t ∧ t.after ops' = .ok s' := by
  rw [after, foldlM_append, except_bind_eq_ok]

/-! ### Levels -/

lemma levels_next (h : s.next op = .ok s') (hs : s.levels = range s.stack.scopes.length) :
    s'.levels = range s'.stack.scopes.length := by
  obtain ⟨⟨reply, t⟩, hrun, hs'⟩ := except_bind_eq_ok.mp h
  cases hs'
  cases op with
  | push vars =>
    cases hrun
    change s.levels ++ [_] = range (s.stack.scopes ++ [_]).length
    rw [length_append, length_singleton, range_succ, hs]
  | pop =>
    obtain ⟨t, hpop, hrun⟩ := except_bind_eq_ok.mp hrun
    cases hrun
    unfold Stack.pop at hpop
    split at hpop
    · cases hpop
    · cases hpop
      change s.levels.dropLast = range s.stack.scopes.dropLast.length
      rw [hs, length_dropLast, dropLast_eq_take, length_range, take_range,
        Nat.min_eq_left (Nat.sub_le _ _)]
  | get name =>
    obtain ⟨found, -, hrun⟩ := except_bind_eq_ok.mp hrun
    cases found with
    | none => cases hrun
    | some v =>
      cases hrun
      exact hs
  | has name | level name =>
    obtain ⟨_, -, hrun⟩ := except_bind_eq_ok.mp hrun
    cases hrun
    exact hs
  | set target name v =>
    obtain ⟨level, -, hrun⟩ := except_bind_eq_ok.mp hrun
    cases hrun
    exact hs.trans (congrArg range (length_modify _ _ _).symm)

lemma levels_after (h : s.after ops = .ok s') (hs : s.levels = range s.stack.scopes.length) :
    s'.levels = range s'.stack.scopes.length := by
  induction ops generalizing s with
  | nil =>
    cases h
    exact hs
  | cons op ops ih =>
    obtain ⟨t, hop, hops⟩ := except_bind_eq_ok.mp h
    exact ih hops (levels_next hop hs)

/-! ### Scopes that come and go -/

/-- What is done above a new scope, and does not change the depth, can be followed by taking it off. -/
lemma exists_after_scope
    (h : after ⟨s.stack.push vars, s.levels ++ [s.stack.scopes.length]⟩ ops = .ok t)
    (hdepth : t.stack.scopes.length = (s.stack.push vars).scopes.length) :
    ∃ s', s.after (.push vars :: ops ++ [.pop]) = .ok s' ∧ t.stack.pop = .ok s'.stack ∧
      s'.stack.scopes.length = s.stack.scopes.length := by
  rw [Stack.push, length_append, length_singleton] at hdepth
  have hpop : t.stack.pop = .ok ⟨t.stack.scopes.dropLast⟩ :=
    if_neg (by simpa using ne_nil_of_length_pos (by omega))
  have hrun : Operation.pop.run t.stack = .ok (.done, ⟨t.stack.scopes.dropLast⟩) := by
    rw [run, hpop]
    rfl
  refine ⟨⟨⟨t.stack.scopes.dropLast⟩, t.levels.dropLast⟩, ?_, hpop, ?_⟩
  · refine after_append_eq_ok.mpr ⟨t, h, ?_⟩
    rw [after, foldlM_cons, next, hrun]
    rfl
  · rw [length_dropLast, hdepth, Nat.add_sub_cancel]

/-- A scope shelters those below throughout well-bracketed operations, none of which fails. -/
lemma exists_after (hops : Bracketed x ops) (hx : isLocalName x = true)
    (hs : s.stack.Shelters n x old) : ∃ s', s.after ops = .ok s' ∧
      s'.stack.scopes.length = s.stack.scopes.length ∧ s'.stack.Shelters n x old := by
  induction hops generalizing s with
  | nil => exact ⟨s, rfl, rfl, hs⟩
  | @set target name v ops h _ ih =>
    obtain ⟨level, hlevel, hfar⟩ := hs.exists_level hx h
    have hrun : (Operation.set target name v).run s.stack =
        .ok (.done, s.stack.assignAt level name v) := by
      rw [run, hlevel]
      rfl
    obtain ⟨s', hs', hdepth, hshelters⟩ := @ih ⟨_, s.levels⟩ (hs.assignAt hfar)
    refine ⟨s', ?_, hdepth.trans (length_modify _ _ _), hshelters⟩
    rw [after, foldlM_cons, next, hrun]
    exact hs'
  | scope vars inner ops _ _ ihinner ih =>
    obtain ⟨t, hinner, htdepth, ht⟩ := @ihinner ⟨_, _⟩ (hs.push vars)
    obtain ⟨s₁, hs₁, hpop, hdepth₁⟩ := exists_after_scope hinner htdepth
    -- the scope that is taken off is above the one that shelters the others
    have hshelters := ht.pop hpop (hdepth₁ ▸ lt_of_isSome_valueAt? hs.bound)
    obtain ⟨s', hs', hdepth, hshelters⟩ := ih hshelters
    exact ⟨s', after_append_eq_ok.mpr ⟨s₁, hs₁, hs'⟩, hdepth.trans hdepth₁, hshelters⟩

/-- Shadowing is undone. From every stack that can be reached, a scope that holds a local name can be
put on, changes made, and the scope be taken off again. Then the depth is the old one, every scope has
the level at which it is, and the name is bound in all of them as before. At every moment the name has
the value that the highest scope with this name gives it, and a global name belongs to the base. -/
theorem shadowing_undone {before inner : List (Operation α)} {table : List (String × α)}
    (hs : (ofVariables vars).after before = .ok s) (hx : isLocalName x = true)
    (htable : ∃ entry ∈ table, lower entry.1 = lower x) (hinner : Bracketed x inner) :
    (∃ s', s.after (.push table :: inner ++ [.pop]) = .ok s' ∧
      s'.stack.scopes.length = s.stack.scopes.length ∧ s'.levels = range s'.stack.scopes.length ∧
      ∀ level, s'.stack.valueAt? level x = s.stack.valueAt? level x) ∧
    ∀ moment, moment <+: .push table :: inner ++ [.pop] → ∃ t, s.after moment = .ok t ∧
      (∀ v, t.stack.find? x = .ok (some v) ↔ ∃ level, t.stack.Highest x level v) ∧
      ∀ g, isLocalName g = false → t.stack.levelOf g = Target.base.level t.stack g := by
  obtain ⟨entry, hentry, hname⟩ := htable
  have hpush : (s.stack.push table).Shelters s.stack.scopes.length x (s.stack.valueAt? · x) := by
    obtain ⟨hbound, -⟩ := shelters_push (s := s.stack) (mem_map_of_mem (f := Prod.fst) hentry)
    exact ⟨by rwa [← valueAt?_congr hname], fun level => valueAt?_push table⟩
  obtain ⟨t, ht, htdepth, hshelters⟩ := exists_after (s := ⟨_, _⟩) hinner hx hpush
  obtain ⟨s', hs', hpop, hdepth⟩ := exists_after_scope ht htdepth
  constructor
  · refine ⟨s', hs', hdepth, levels_after hs' (levels_after hs rfl), fun level => ?_⟩
    by_cases hlevel : level < s.stack.scopes.length
    · rw [valueAt?_pop hpop (hdepth ▸ hlevel), hshelters.below level hlevel]
    · rw [valueAt?_eq_none (Nat.le_of_not_lt hlevel), valueAt?_eq_none (by omega)]
  · rintro moment ⟨rest, hmoment⟩
    rw [← hmoment] at hs'
    obtain ⟨t, ht, -⟩ := after_append_eq_ok.mp hs'
    exact ⟨t, ht, fun v => find?_eq_some_iff hx, fun g => levelOf_eq_base⟩

/-- Of three scopes that hold a name the last is changed under two spellings, and one more comes and
goes above it. -/
theorem shadowing_undone_nested : ∃ s s' : Numbered Nat,
    (ofVariables [("_n", 1)]).after [.push [("_N", 2)]] = .ok s ∧
    s.after [.push [("_n", 3)], .set .resolved "_N" 4, .push [("_m", 5)], .set .resolved "_n" 6,
      .set .top "_n" 7, .pop, .set .base "g" 8, .pop] = .ok s' ∧
    s'.levels = [0, 1] ∧ s'.stack.valueAt? 0 "_n" = some 1 ∧ s'.stack.valueAt? 1 "_n" = some 2 := by
  have hinner : Bracketed "_n" [.set .resolved "_N" 4, .push [("_m", 5)], .set .resolved "_n" 6,
      .set .top "_n" 7, .pop, .set .base "g" 8] := by
    refine .set 4 (fun h => by cases h) (.scope [("_m", 5)] [_, _] [_] ?_ ?_)
    · exact .set 6 (fun h => by cases h) (.set 7 (fun h => by cases h) .nil)
    · exact .set 8 (fun _ => by decide +kernel) .nil
  obtain ⟨s, hs⟩ : ∃ s : Numbered Nat, (ofVariables [("_n", 1)]).after [.push [("_N", 2)]] = .ok s :=
    ⟨_, rfl⟩
  obtain ⟨⟨s', hs', hdepth, hlevels, hvalues⟩, -⟩ :=
    shadowing_undone hs (by decide +kernel) ⟨("_n", 3), mem_cons_self, rfl⟩ hinner
  refine ⟨s, s', hs, hs', ?_, ?_, ?_⟩
  · rw [hlevels, hdepth]
    cases hs
    rfl
  · rw [hvalues]
    cases hs
    decide +kernel
  · rw [hvalues]
    cases hs
    decide +kernel

end Numbered

end ArmaScript.Stack
