import ArmaScript.Proofs.Balance
import Mathlib

/-!
# Hygiene

A loop or a call binds its own names in the scope of each run of its code. While that scope is there,
an assignment to such a name, from however deep inside, ends in that scope or in a higher one: the
scope shelters the scopes below it. Once the loop or call is over, these bind the names as before.
-/

namespace ArmaScript

/-! ### Local names -/

namespace Text

lemma eq_underscore_of_lowerChar {c : Char} (h : lowerChar c = '_') : c = '_' := by
  have hascii : ∀ n < 128, (Char.ofNat n).toLower = '_' → Char.ofNat n = '_' := by decide
  have hshift : lowerShifts.all (fun s => (95 : Int) < s.run.first + s.distance) = true := by
    decide +kernel
  unfold lowerChar at h
  split at h
  · rename_i hlt
    rw [← Char.ofNat_toNat c] at h ⊢
    exact hascii c.toNat hlt h
  · split at h
    · rename_i s hs
      have hrun := List.find?_some hs
      have hfirst := of_decide_eq_true (List.all_eq_true.mp hshift s (List.mem_of_find?_eq_some hs))
      simp only [Run.contains, Bool.and_eq_true, decide_eq_true_eq] at hrun
      by_cases hvalid : (c.toNat + s.distance).toNat.isValidChar
      · have hnat : (c.toNat + s.distance).toNat = 95 :=
          congrArg Char.toNat ((dif_pos hvalid).symm.trans h)
        omega
      · cases (dif_neg hvalid).symm.trans h
    · exact h

/-- The lower-case form of a character is not empty, and starts with an underscore only if the
character is one. -/
lemma exists_lowerAt (before : List Char) (c : Char) (rest : List Char) :
    ∃ d ds, lowerAt before c rest = d :: ds ∧ (d = '_' ↔ c = '_') := by
  by_cases hc : c = '_'
  · subst hc
    exact ⟨'_', [], lowerAt_of_small (by decide), Iff.rfl⟩
  · unfold lowerAt
    split
    · split <;> exact ⟨_, _, rfl, by simpa using hc⟩
    · split
      · exact ⟨_, _, rfl, by simpa using hc⟩
      · exact ⟨_, _, rfl, eq_underscore_of_lowerChar, fun h => absurd h hc⟩

end Text

/-- Whether a name is local does not depend on case. -/
lemma isLocalName_lower (name : String) : isLocalName (Text.lower name) = isLocalName name := by
  rw [Bool.eq_iff_iff]
  unfold isLocalName
  rw [String.startsWith_string_iff, String.startsWith_string_iff, Text.lower, String.toList_ofList]
  cases name.toList with
  | nil => rfl
  | cons c rest =>
    obtain ⟨d, ds, hat, hd⟩ := Text.exists_lowerAt [] c rest
    have hprefix (a : Char) (as : List Char) : ['_'] <+: a :: as ↔ a = '_' := by
      simp [List.cons_prefix_cons, eq_comm]
    rw [Text.lowerAfter, hat, List.cons_append, hprefix, String.toList_ofList, hprefix, hd]

lemma isLocalName_congr {name other : String} (h : Text.lower name = Text.lower other) :
    isLocalName name = isLocalName other := by
  rw [← isLocalName_lower name, h, isLocalName_lower]

/-! ### Scopes that shelter those below -/

variable {α : Type}

lemma Scope.isSome_find?_foldl {vars : List (String × α)} {name : String} {s : Scope α}
    (h : (s.find? name).isSome = true ∨ name ∈ vars.map Prod.fst) :
    ((vars.foldl (fun s (name, v) => s.assign name v) s).find? name).isSome = true := by
  induction vars generalizing s with
  | nil => exact h.resolve_right List.not_mem_nil
  | cons var vars ih =>
    refine @ih (s.assign var.1 var.2) ?_
    rw [Scope.find?, Scope.assign, Table.get?_put]
    split
    · exact .inl rfl
    · rename_i hne
      rw [List.map_cons, List.mem_cons] at h
      obtain h | rfl | h := h
      · exact .inl h
      · exact absurd rfl hne
      · exact .inr h

namespace Stack

variable {s s' : Stack α} {n level : Nat} {x name : String} {v : α}
  {old : Nat → Option α}

/-- A scope binds a name, and the scopes below bind it in a given way. -/
structure Shelters (s : Stack α) (n : Nat) (x : String) (old : Nat → Option α) : Prop where
  bound : (s.valueAt? n x).isSome = true
  below : ∀ level < n, s.valueAt? level x = old level

lemma valueAt?_assignAt (s : Stack α) (level n : Nat) (name x : String) (v : α) :
    (s.assignAt level name v).valueAt? n x =
      if level = n ∧ Text.lower name = Text.lower x then s.scopes[n]?.map fun _ => v
      else s.valueAt? n x := by
  unfold valueAt? assignAt
  rw [List.getElem?_modify]
  cases hscope : s.scopes[n]? with
  | none => simp
  | some scope =>
    by_cases hlevel : level = n
    · simp [hlevel, Scope.find?, Scope.assign, Table.get?_put]
    · simp [hlevel]

lemma valueAt?_eq_none (h : s.scopes.length ≤ n) : s.valueAt? n x = none := by
  rw [valueAt?, List.getElem?_eq_none h]
  rfl

lemma lt_of_isSome_valueAt? (h : (s.valueAt? n x).isSome = true) : n < s.scopes.length := by
  by_contra hle
  rw [valueAt?_eq_none (Nat.le_of_not_lt hle)] at h
  cases h

lemma valueAt?_congr (h : Text.lower name = Text.lower x) : s.valueAt? n name = s.valueAt? n x := by
  unfold valueAt? Scope.find?
  rw [h]

/-- A name that is bound above the base belongs to that level or a higher one. -/
lemma exists_highestWith? (hpos : 1 ≤ n) (h : (s.valueAt? n x).isSome = true) {k : Nat}
    (hk : n < k) : ∃ level, s.highestWith? x k = some level ∧ n ≤ level := by
  induction k with
  | zero => exact absurd hk (Nat.not_lt_zero n)
  | succ k ih =>
    rw [highestWith?]
    split
    · exact ⟨k, rfl, Nat.le_of_lt_succ hk⟩
    · rename_i hnot
      obtain hlt | rfl := Nat.lt_or_eq_of_le (Nat.le_of_lt_succ hk)
      · exact ih hlt
      · refine absurd ?_ hnot
        rw [Bool.and_eq_true, decide_eq_true_eq]
        exact ⟨hpos, h⟩

lemma le_levelOf (hname : isLocalName x = true) (h : (s.valueAt? n x).isSome = true)
    (hlevel : s.levelOf x = .ok level) : n ≤ level := by
  obtain rfl | hpos := Nat.eq_zero_or_pos n
  · exact Nat.zero_le level
  · obtain ⟨highest, hhighest, hle⟩ := exists_highestWith? hpos h (lt_of_isSome_valueAt? h)
    rw [levelOf, if_pos hname, hhighest] at hlevel
    split at hlevel
    · cases hlevel
    · cases hlevel
      exact hle

/-- Above the base, a local name belongs only to a level that holds it. -/
lemma isSome_of_levelOf (hx : isLocalName x = true) (h : s.levelOf x = .ok level)
    (hpos : level ≠ 0) : (s.valueAt? level x).isSome = true := by
  have hheld {k : Nat} (h : s.highestWith? x k = some level) :
      (s.valueAt? level x).isSome = true := by
    induction k with
    | zero => cases h
    | succ k ih =>
      rw [highestWith?] at h
      split at h
      · rename_i hheld
        cases h
        rw [Bool.and_eq_true] at hheld
        exact hheld.2
      · exact ih h
  rw [levelOf, if_pos hx] at h
  split at h
  · cases h
  · cases hhighest : s.highestWith? x s.scopes.length with
    | none =>
      rw [hhighest] at h
      cases h
      exact absurd rfl hpos
    | some k =>
      rw [hhighest] at h
      cases h
      exact hheld hhighest

lemma exists_levelOf (hscopes : s.scopes ≠ []) (name : String) :
    ∃ level, s.levelOf name = .ok level := by
  rw [levelOf, if_neg (by simpa using hscopes)]
  split <;> exact ⟨_, rfl⟩

/-- A scope gives a name its value, and no higher scope holds the name. -/
structure Highest (s : Stack α) (x : String) (level : Nat) (v : α) : Prop where
  held : s.valueAt? level x = some v
  above : ∀ l > level, s.valueAt? l x = none

lemma Highest.levelOf_eq (h : s.Highest x level v) (hx : isLocalName x = true) :
    s.levelOf x = .ok level := by
  have hheld : (s.valueAt? level x).isSome = true := by rw [h.held]; rfl
  obtain ⟨k, hk⟩ := exists_levelOf
    (List.ne_nil_of_length_pos (Nat.zero_lt_of_lt (lt_of_isSome_valueAt? hheld))) x
  obtain rfl | hlt := Nat.eq_or_lt_of_le (le_levelOf hx hheld hk)
  · exact hk
  · have hsome := isSome_of_levelOf hx hk (Nat.ne_zero_of_lt hlt)
    rw [h.above k hlt] at hsome
    cases hsome

lemma valueAt?_push (vars : List (String × α)) (hn : n < s.scopes.length) :
    (s.push vars).valueAt? n x = s.valueAt? n x := by
  unfold valueAt? push
  rw [List.getElem?_append_left hn]

/-- A scope that binds a name shelters all scopes on which it is put. -/
lemma shelters_push {vars : List (String × α)} (h : x ∈ vars.map Prod.fst) :
    (s.push vars).Shelters s.scopes.length x fun level => s.valueAt? level x := by
  constructor
  · rw [valueAt?, push, List.getElem?_append_right (Nat.le_refl _), Nat.sub_self]
    exact Scope.isSome_find?_foldl (.inr h)
  · exact fun level hlevel => valueAt?_push vars hlevel

namespace Shelters

lemma assignAt (h : s.Shelters n x old) (hfar : n ≤ level ∨ Text.lower name ≠ Text.lower x) :
    (s.assignAt level name v).Shelters n x old := by
  constructor
  · rw [valueAt?_assignAt]
    split
    · rw [List.getElem?_eq_getElem (lt_of_isSome_valueAt? h.bound)]
      rfl
    · exact h.bound
  · intro l hl
    rw [valueAt?_assignAt, if_neg, h.below l hl]
    rintro ⟨rfl, hname⟩
    exact hfar.elim (Nat.not_le_of_lt hl) (absurd hname)

/-- Where a name belongs is not below the scope, unless it is another name. -/
lemma le_or_ne (h : s.Shelters n x old) (hx : isLocalName x = true)
    (hlevel : s.levelOf name = .ok level) : n ≤ level ∨ Text.lower name ≠ Text.lower x := by
  by_cases hname : Text.lower name = Text.lower x
  · refine .inl (le_levelOf ?_ ?_ hlevel)
    · rwa [isLocalName_congr hname]
    · rw [valueAt?_congr hname]
      exact h.bound
  · exact .inr hname

lemma assign (h : s.Shelters n x old) (hx : isLocalName x = true)
    (hassign : s.assign name v = .ok s') : s'.Shelters n x old := by
  obtain ⟨level, hlevel, hs'⟩ := except_bind_eq_ok.mp hassign
  cases hs'
  exact h.assignAt (h.le_or_ne hx hlevel)

lemma push (h : s.Shelters n x old) (vars : List (String × α)) :
    (s.push vars).Shelters n x old := by
  have hn := lt_of_isSome_valueAt? h.bound
  exact ⟨by rw [valueAt?_push vars hn]; exact h.bound,
    fun l hl => (valueAt?_push vars (hl.trans hn)).trans (h.below l hl)⟩

end Shelters

lemma valueAt?_pop (h : s.pop = .ok s') (hn : n < s'.scopes.length) :
    s'.valueAt? n x = s.valueAt? n x := by
  unfold pop at h
  split at h
  · cases h
  · cases h
    unfold valueAt?
    rw [List.getElem?_dropLast, if_pos (by rwa [List.length_dropLast] at hn)]

lemma Shelters.pop (h : s.Shelters n x old) (hpop : s.pop = .ok s')
    (hn : n < s'.scopes.length) : s'.Shelters n x old :=
  ⟨by rw [valueAt?_pop hpop hn]; exact h.bound,
    fun l hl => (valueAt?_pop hpop (hl.trans hn)).trans (h.below l hl)⟩

end Stack

/-! ### Worlds -/

def World.mission? (w : World) (k : Nat) : Option (Stack Value) :=
  w.machines[k]?.map (·.spaces.mission)

namespace World

variable {w w' : World} {k n : Nat} {x : String} {old : Nat → Option Value}

lemma mission?_modify {f : Machine → Machine} (hf : ∀ m, (f m).spaces = m.spaces) (w : World)
    (k : Nat) : mission? { w with machines := w.machines.modify w.active f } k = w.mission? k := by
  unfold mission?
  rw [Array.getElem?_modify]
  split
  · cases w.machines[k]? with
    | none => rfl
    | some m => simp [hf]
  · rfl

lemma length_mission? (hshapes : w'.shapes = w.shapes) {s s' : Stack Value}
    (hs : w.mission? k = some s) (hs' : w'.mission? k = some s') :
    s'.scopes.length = s.scopes.length := by
  obtain ⟨m, hm, rfl⟩ := Option.map_eq_some_iff.mp hs
  obtain ⟨m', hm', rfl⟩ := Option.map_eq_some_iff.mp hs'
  have hshape := congrFun hshapes k
  rw [shapes, shapes, hm, hm'] at hshape
  exact congrFun (congrArg Machine.Shape.depth (Option.some.inj hshape)) .mission

/-- A scope of the mission of a machine shelters those below. -/
def Shelters (w : World) (k n : Nat) (x : String) (old : Nat → Option Value) : Prop :=
  ∃ s, w.mission? k = some s ∧ s.Shelters n x old

lemma Shelters.of_eq (h : w.Shelters k n x old) (heq : w'.mission? k = w.mission? k) :
    w'.Shelters k n x old := by
  obtain ⟨s, hs, hshelters⟩ := h
  exact ⟨s, heq.trans hs, hshelters⟩

end World

namespace Run

variable {α : Type} {w w' : World} {k n : Nat} {x : String} {old : Nat → Option Value}
  {space : Space} {f : Stack Value → Except Fault (Stack Value)}

variable {u : Unit}

lemma mission?_modifyStack (h : modifyStack space f w = .ok u w') :
    (∃ s s', w.mission? w.active = some s ∧ f s = .ok s' ∧ w'.mission? w.active = some s' ∧
      space = .mission ∧ ∀ k ≠ w.active, w'.mission? k = w.mission? k) ∨
    (space ≠ .mission ∧ ∀ k, w'.mission? k = w.mission? k) := by
  obtain ⟨m, s', hm, hs', rfl⟩ := modifyStack_eq_ok.mp h
  by_cases hspace : space = .mission
  · subst hspace
    refine .inl ⟨m.spaces.mission, s', ?_, hs', ?_, rfl, fun k hk => ?_⟩
    · rw [World.mission?, hm]
      rfl
    · rw [World.mission?, Array.getElem?_modify, if_pos rfl, hm]
      rfl
    · rw [World.mission?, Array.getElem?_modify, if_neg hk.symm]
      rfl
  · refine .inr ⟨hspace, fun k => ?_⟩
    unfold World.mission?
    rw [Array.getElem?_modify]
    split
    · rename_i hactive
      subst hactive
      rw [hm]
      cases space <;> first | exact absurd rfl hspace | rfl
    · rfl

lemma shelters_modifyStack (hf : ∀ s s', f s = .ok s' → s.Shelters n x old → s'.Shelters n x old)
    (h : modifyStack space f w = .ok u w') (hw : w.Shelters k n x old) : w'.Shelters k n x old := by
  obtain ⟨s0, s', hs0, hs', hafter, -, hother⟩ | ⟨-, hsame⟩ := mission?_modifyStack h
  · by_cases hk : k = w.active
    · subst hk
      obtain ⟨s, hs, hshelters⟩ := hw
      cases hs.symm.trans hs0
      exact ⟨s', hafter, hf _ s' hs' hshelters⟩
    · exact hw.of_eq (hother k hk)
  · exact hw.of_eq (hsame k)

lemma mission?_setCurrent (h : setCurrent space w = .ok u w') (k : Nat) :
    w'.mission? k = w.mission? k := by
  obtain rfl := modifyMachine_eq_ok.mp h
  exact World.mission?_modify (f := fun m => { m with current := space }) (fun _ => rfl) w k

/-- The scope that shelters others stays while something is done in a scope of its own. -/
lemma shelters_inScope {vars : List (String × Value)} {m : Run α} {a : α}
    (hm : ∀ w a w', m w = .ok a w' → w.Shelters k n x old → w'.Shelters k n x old)
    (hbalanced : Balanced m) (h : inScope space vars m w = .ok a w') (hw : w.Shelters k n x old) :
    w'.Shelters k n x old := by
  have hshapes := (sameShapes.inScope space vars hbalanced w a w' h).2
  obtain ⟨w1, w2, w3, w4, previous, hset, hpush, hrun, hpop, hback⟩ := inScope_eq_ok h
  have hw1 := hw.of_eq (mission?_setCurrent hset k)
  have hw2 : w2.Shelters k n x old := by
    refine shelters_modifyStack (fun s s' hs' hs => ?_) hpush hw1
    cases hs'
    exact hs.push vars
  have hw3 := hm w2 a w3 hrun hw2
  refine World.Shelters.of_eq ?_ (mission?_setCurrent hback k)
  -- the depth of the stack after the scope is gone is known from the whole
  obtain ⟨s, hs, hshelters⟩ := hw
  have hlength {s' : Stack Value} (hs' : w4.mission? k = some s') :
      s'.scopes.length = s.scopes.length := by
    rw [← mission?_setCurrent hback k] at hs'
    exact World.length_mission? hshapes hs hs'
  obtain ⟨s3, hs3, hshelters3⟩ := hw3
  obtain ⟨s0, s4, hs0, hs4, hafter, -, hother⟩ | ⟨-, hsame⟩ := mission?_modifyStack hpop
  · by_cases hk : k = w3.active
    · subst hk
      cases hs3.symm.trans hs0
      refine ⟨s4, hafter, hshelters3.pop hs4 ?_⟩
      rw [hlength hafter]
      exact Stack.lt_of_isSome_valueAt? hshelters.bound
    · exact ⟨s3, (hother k hk).trans hs3, hshelters3⟩
  · exact ⟨s3, (hsame k).trans hs3, hshelters3⟩

/-- The law of shelter: shapes stay as they are, and so does what a scope shelters. -/
def sheltering (k n : Nat) {x : String} (hx : isLocalName x = true) (old : Nat → Option Value) :
    Law where
  Rel w w' := sameShapes.Rel w w' ∧ (w.Shelters k n x old → w'.Shelters k n x old)
  refl w := ⟨sameShapes.refl w, id⟩
  trans h1 h2 := ⟨sameShapes.trans h1.1 h2.1, h2.2 ∘ h1.2⟩
  store w s := ⟨sameShapes.store w s, id⟩
  network w n := ⟨sameShapes.network w n, id⟩
  listeners w f := by
    refine ⟨sameShapes.listeners w f, fun h => h.of_eq ?_⟩
    exact World.mission?_modify (f := fun m => { m with listeners := f m }) (fun _ => rfl) w k
  assign space name v w u w' h := by
    refine ⟨sameShapes.assign space name v w u w' h, ?_⟩
    exact shelters_modifyStack (fun s s' hs' hs => hs.assign hx hs') h
  assignTop name v w u w' h := by
    refine ⟨sameShapes.assignTop name v w u w' h, ?_⟩
    obtain ⟨space, w1, hcurrent, hassign⟩ := bind_eq_ok.mp h
    obtain ⟨-, -, -, rfl⟩ := current_eq_ok.mp hcurrent
    refine shelters_modifyStack (fun s s' hs' hs => ?_) hassign
    obtain ⟨top, htop, hs'⟩ := except_bind_eq_ok.mp hs'
    cases hs'
    refine hs.assignAt (.inl ?_)
    have hn := Stack.lt_of_isSome_valueAt? hs.bound
    unfold Stack.top at htop
    split at htop
    · cases htop
    · cases htop
      exact Nat.le_sub_one_of_lt hn
  setGlobal {name} hname v w u w' h := by
    refine ⟨sameShapes.setGlobal hname v w u w' h, ?_⟩
    unfold setGlobal at h
    split at h
    · cases h
    · refine shelters_modifyStack (fun s s' hs' hs => ?_) h
      cases hs'
      refine hs.assignAt (.inr fun heq => ?_)
      rw [isLocalName_congr heq, hx] at hname
      cases hname
  visit h := ⟨sameShapes.visit h.1, h.2⟩
  inScope space vars _ hm w a w' h := by
    have hbalanced : Balanced _ := fun w a w' h => (hm w a w' h).1
    refine ⟨sameShapes.inScope space vars hbalanced w a w' h, ?_⟩
    exact shelters_inScope (fun w a w' h => (hm w a w' h).2) hbalanced h

end Run

/-- The scopes of the mission, on the machine on which the script runs, bind a name to the same value
as before, or still do not bind it. -/
def World.Untouched (x : String) (w w' : World) : Prop :=
  ∀ s, w.mission? w.active = some s → ∃ s', w'.mission? w'.active = some s' ∧
    s'.scopes.length = s.scopes.length ∧
    ∀ level < s.scopes.length, s'.valueAt? level x = s.valueAt? level x

lemma World.Untouched.trans {x : String} {w1 w2 w3 : World} (h1 : w1.Untouched x w2)
    (h2 : w2.Untouched x w3) : w1.Untouched x w3 := by
  intro s hs
  obtain ⟨s2, hs2, hlength2, hvalues2⟩ := h1 s hs
  obtain ⟨s3, hs3, hlength3, hvalues3⟩ := h2 s2 hs2
  refine ⟨s3, hs3, hlength3.trans hlength2, fun level hlevel => ?_⟩
  exact (hvalues3 level (hlength2 ▸ hlevel)).trans (hvalues2 level hlevel)

lemma World.Untouched.refl (x : String) (w : World) : w.Untouched x w :=
  fun s hs => ⟨s, hs, rfl, fun _ _ => rfl⟩

namespace Run

variable {α β : Type} {w w' : World} {x : String}

/-- What is done in a scope of the mission that binds a local name leaves that name alone below. -/
lemma untouched_inScope (hx : isLocalName x = true) {vars : List (String × Value)}
    (hvars : x ∈ vars.map Prod.fst) {m : Run α} {a : α}
    (hm : ∀ k n old, Keeps (sheltering k n hx old) m)
    (h : inScope .mission vars m w = .ok a w') : w.Untouched x w' := by
  intro s hs
  have hbalanced : Balanced m := fun w a w' h => ((hm 0 0 fun _ => none).of_ok h).1
  obtain ⟨hactive, hshapes⟩ := sameShapes.inScope .mission vars hbalanced w a w' h
  obtain ⟨w1, w2, w3, w4, previous, hset, hpush, hrun, hpop, hback⟩ := inScope_eq_ok h
  have hactive1 : w1.active = w.active := by rw [modifyMachine_eq_ok.mp hset]
  have hs1 := (mission?_setCurrent hset w.active).trans hs
  have hw2 : w2.Shelters w.active s.scopes.length x fun level => s.valueAt? level x := by
    obtain ⟨s0, s2, hs0, hs2, hafter, -⟩ | ⟨hspace, -⟩ := mission?_modifyStack hpush
    · rw [hactive1] at hs0 hafter
      cases hs1.symm.trans hs0
      cases hs2
      exact ⟨_, hafter, Stack.shelters_push hvars⟩
    · exact absurd rfl hspace
  obtain ⟨s3, hs3, hshelters⟩ := ((hm _ _ _).of_ok hrun).2 hw2
  have hactive3 : w3.active = w.active := by
    obtain ⟨machine, stack, hmachine, hstack, rfl⟩ := modifyStack_eq_ok.mp hpush
    exact (hbalanced _ a w3 hrun).1.trans hactive1
  obtain ⟨s0, s4, hs0, hs4, hafter, -⟩ | ⟨hspace, -⟩ := mission?_modifyStack hpop
  · rw [hactive3] at hs0 hafter
    cases hs3.symm.trans hs0
    rw [← mission?_setCurrent hback] at hafter
    have hlength := World.length_mission? hshapes hs hafter
    refine ⟨s4, hactive ▸ hafter, hlength, fun level hlevel => ?_⟩
    rw [Stack.valueAt?_pop hs4 (hlength ▸ hlevel), hshelters.below level hlevel]
  · exact absurd rfl hspace

/-- A computation that leaves a name alone in the scopes that were there before. -/
abbrev LeavesAlone (x : String) (m : Run α) : Prop :=
  Obeys (.ofReturned (World.Untouched x) (.refl x) fun _ _ _ => .trans) m

lemma Leads.leavesAlone {m : Run α} (h : Leads (World.Untouched x) m) : LeavesAlone x m :=
  ⟨h _ _ _, fun _ => trivial⟩

lemma leavesAlone_stored (m : Stored α) : LeavesAlone x (stored m) := by
  refine Leads.leavesAlone fun w a w' h => ?_
  obtain ⟨s, -, rfl⟩ := stored_eq_ok.mp h
  exact .refl x w

lemma leavesAlone_code (hx : isLocalName x = true) {vars : List (String × Value)}
    (hvars : x ∈ vars.map Prod.fst) (depth : Nat) (body : Value) :
    LeavesAlone x (code (answerWithin depth) body vars .mission) := by
  refine Leads.leavesAlone fun w o w' h => ?_
  unfold code at h
  split at h
  · cases depth with
    | zero => cases h
    | succ depth =>
      rw [answerWithin, step, runCode_eq_inScope] at h
      refine untouched_inScope hx hvars (fun k n old => ?_) h
      exact (keeps_stored _).bind fun outcome => (keeps_stored _).bind fun _ =>
        keeps_statements (keeps_answerWithin depth) _ outcome
  · cases h

/-! ### Loops -/

lemma leavesAlone_eachLoop (hx : x ∈ ["_x", "_forEachIndex"]) (depth : Nat) (body : Value)
    (buffer fuel i : Nat) (outcome : Value) :
    LeavesAlone x (eachLoop (answerWithin depth) body buffer fuel i outcome) := by
  have hlocal : ∀ x ∈ ["_x", "_forEachIndex"], isLocalName x = true := by decide +kernel
  induction fuel generalizing i outcome with
  | zero => exact .throw _
  | succ fuel ih =>
    refine Obeys.get.bind fun w => ?_
    split
    · exact .pure _
    · refine (leavesAlone_stored _).bind fun n => ?_
      refine (leavesAlone_code (hlocal x hx) ?_ depth body).bind fun outcome => ih _ outcome
      exact hx

lemma leavesAlone_forEach (hx : x ∈ ["_x", "_forEachIndex"]) (depth : Nat) (body : Value)
    (array : NodeId) : LeavesAlone x (forEach (answerWithin depth) body array) :=
  (leavesAlone_stored _).bind fun _ => (leavesAlone_stored _).bind fun _ =>
    leavesAlone_eachLoop hx depth body _ _ _ _

lemma leavesAlone_countLoop (hx : isLocalName x = true) (depth : Nat) (body : Value) (step : Int)
    (rounds : Nat) (i : Int) (outcome : Value) :
    LeavesAlone x (countLoop (answerWithin depth) x body step rounds i outcome) := by
  induction rounds generalizing i outcome with
  | zero => exact .pure _
  | succ rounds ih =>
    refine (leavesAlone_stored _).bind fun n => ?_
    refine (leavesAlone_code hx ?_ depth body).bind fun outcome => ih _ outcome
    exact List.mem_singleton_self x

lemma leavesAlone_required (o : Option α) : LeavesAlone x (required o) := by
  cases o with
  | none => exact .throw _
  | some a => exact .pure a

lemma leavesAlone_bound (c : Content) : LeavesAlone x (bound c) := by
  unfold bound
  split
  · exact .pure _
  · exact .throw _

lemma untouched_forDo {name : Value} (hname : w.store.content name = .text x)
    (hx : isLocalName x = true) {depth : Nat} {first last : Option Value} {step body o : Value}
    (h : forDo (answerWithin depth) name first last step body w = .ok o w') : w.Untouched x w' := by
  obtain ⟨counter, w1, hcounter, hrest⟩ := bind_eq_ok.mp h
  obtain ⟨s, hcontent, rfl⟩ := stored_eq_ok.mp hcounter
  cases hcontent
  rw [hname] at hrest
  refine Obeys.of_ok ((leavesAlone_required first).bind fun first => ?_) hrest
  refine (leavesAlone_stored _).bind fun first => (leavesAlone_required last).bind fun last => ?_
  refine (leavesAlone_stored _).bind fun last => (leavesAlone_stored _).bind fun step => ?_
  refine (leavesAlone_stored _).bind fun outcome => (leavesAlone_stored _).bind fun _ => ?_
  refine (leavesAlone_bound first).bind fun first => (leavesAlone_bound last).bind fun last => ?_
  refine (leavesAlone_bound step).bind fun step => ?_
  dsimp only
  split
  · exact .bind (.throw _) fun _ => leavesAlone_countLoop hx depth body step _ first outcome
  · exact leavesAlone_countLoop hx depth body step _ first outcome

/-- A world with a place for code and an array of one element. -/
def oneElement (one : Value) : World :=
  .single ⟨9, Std.HashMap.insert ∅ 0 .start, Std.HashMap.insert ∅ 1 ⟨some 2, [one]⟩,
    Std.HashMap.insert ∅ 2 [one]⟩ []

end Run

end ArmaScript
