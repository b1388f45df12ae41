import ArmaScript.Proofs.Correspondence
import ArmaScript.Scope
import Mathlib.Data.List.Induction
import Mathlib.Tactic.SplitIfs

/-!
# Stacks that correspond

A stack is a base scope with further scopes on it. Stacks are alike if their base scopes are, and if
the scopes on top are alike one by one. Between them there may be some scopes of each stack that are
alike only as a whole: a name has values there that are alike, in whichever of the scopes they are. This
is all that looking up and assigning can tell, as long as these scopes are not taken away.
-/

namespace ArmaScript

open Scope Option
open List hiding lookup

variable {α : Type} {xs ys : List α}

lemma isEmpty_eq_of_length (h : xs.length = ys.length) : xs.isEmpty = ys.isEmpty := by
  rw [Bool.eq_iff_iff, isEmpty_iff_length_eq_zero, isEmpty_iff_length_eq_zero, h]

lemma exists_of_forall₂_concat {β : Type} {r : α → β → Prop} {x : α} {zs : List β}
    (h : Forall₂ r (xs ++ [x]) zs) :
    ∃ ys y, Forall₂ r xs ys ∧ r x y ∧ zs = ys ++ [y] := by
  induction xs generalizing zs with
  | nil =>
    cases h with
    | cons hxy h =>
      cases h
      exact ⟨[], _, .nil, hxy, rfl⟩
  | cons a xs ih =>
    cases h with
    | cons hab h =>
      obtain ⟨ys, y, hys, hy, rfl⟩ := ih h
      exact ⟨_ :: ys, y, .cons hab hys, hy, rfl⟩

lemma modify_append_of_lt {k : Nat} (hk : k < xs.length) (f : α → α) :
    (xs ++ ys).modify k f = xs.modify k f ++ ys := by
  induction xs generalizing k with
  | nil => cases hk
  | cons x xs ih =>
    cases k with
    | zero => rfl
    | succ k => simp [ih (Nat.lt_of_succ_lt_succ hk)]

lemma modify_append_length (xs : List α) (x : α) (f : α → α) :
    (xs ++ [x]).modify xs.length f = xs ++ [f x] := by
  induction xs with
  | nil => rfl
  | cons y ys ih => simp [ih]

namespace Scope

lemma find?_assign (s : Scope α) (name name' : String) (v : α) :
    (s.assign name v).find? name' =
      if Text.lower name = Text.lower name' then some v else s.find? name' :=
  Table.get?_put s _ _ v

def lookup (name : String) : List (Scope α) → Option α
  | [] => none
  | s :: rest => (lookup name rest).or (s.find? name)

def assignLast (name : String) (v : α) : List (Scope α) → Option (List (Scope α))
  | [] => none
  | s :: rest => ((assignLast name v rest).map (s :: ·)).or
      (if (s.find? name).isSome then some (s.assign name v :: rest) else none)

lemma lookup_append (name : String) (ss ts : List (Scope α)) :
    lookup name (ss ++ ts) = (lookup name ts).or (lookup name ss) := by
  induction ss with
  | nil => simp [lookup]
  | cons s ss ih => simp [lookup, ih, Option.or_assoc]

lemma assignLast_append (name : String) (v : α) (ss ts : List (Scope α)) :
    assignLast name v (ss ++ ts) =
      ((assignLast name v ts).map (ss ++ ·)).or ((assignLast name v ss).map (· ++ ts)) := by
  induction ss with
  | nil => simp [assignLast]
  | cons s ss ih =>
    rw [cons_append, assignLast, ih, assignLast]
    cases assignLast name v ts with
    | some ts' => simp
    | none =>
      cases assignLast name v ss with
      | some ss' => simp
      | none => by_cases hs : (s.find? name).isSome <;> simp [hs]

lemma isSome_assignLast (name : String) (v : α) (ss : List (Scope α)) :
    (assignLast name v ss).isSome = (lookup name ss).isSome := by
  induction ss with
  | nil => rfl
  | cons s ss ih =>
    rw [assignLast, lookup, isSome_or, isSome_or, isSome_map, ih]
    by_cases hs : (s.find? name).isSome <;> simp [hs]

variable {ss ts : List (Scope α)} {name : String}

lemma length_assignLast {v : α} (h : assignLast name v ss = some ts) : ts.length = ss.length := by
  induction ss generalizing ts with
  | nil => cases h
  | cons s ss ih =>
    rw [assignLast] at h
    cases hss : assignLast name v ss with
    | some us =>
      rw [hss, map_some, some_or] at h
      cases h
      rw [length_cons, length_cons, ih hss]
    | none =>
      rw [hss, map_none, none_or] at h
      split_ifs at h
      cases h
      rfl

lemma lookup_congr {name' : String} (h : Text.lower name = Text.lower name') (ss : List (Scope α)) :
    lookup name' ss = lookup name ss := by
  induction ss with
  | nil => rfl
  | cons s ss ih => rw [lookup, lookup, ih, find?, find?, h]

lemma lookup_assignLast {v : α} (h : assignLast name v ss = some ts) (name' : String) :
    lookup name' ts = if Text.lower name = Text.lower name' then some v else lookup name' ss := by
  induction ss generalizing ts with
  | nil => cases h
  | cons s ss ih =>
    rw [assignLast] at h
    cases hss : assignLast name v ss with
    | some us =>
      rw [hss, map_some, some_or] at h
      cases h
      rw [lookup, lookup, ih hss]
      split_ifs <;> rfl
    | none =>
      rw [hss, map_none, none_or] at h
      split_ifs at h with hs
      cases h
      rw [lookup, lookup, find?_assign]
      split_ifs with hname
      · -- no later scope has the name
        have hnone := isSome_assignLast name v ss
        rw [hss, isSome_none, eq_comm, isSome_eq_false_iff, isNone_iff_eq_none] at hnone
        rw [lookup_congr hname, hnone, none_or]
      · rfl

end Scope

namespace Stack

lemma highestWith?_congr {s t : Stack α} {name : String} {n : Nat}
    (h : ∀ i < n, s.scopes[i]? = t.scopes[i]?) : s.highestWith? name n = t.highestWith? name n := by
  induction n with
  | zero => rfl
  | succ n ih =>
    rw [highestWith?, highestWith?, h n (Nat.lt_succ_self n),
      ih fun i hi => h i (Nat.lt_succ_of_lt hi)]

/-- The level that a local name belongs to is that of the last scope that has it. -/
lemma highestWith?_eq (b : Scope α) (rest : List (Scope α)) (name : String) :
    ((⟨b :: rest⟩ : Stack α).highestWith? name (rest.length + 1) = none ∧ lookup name rest = none) ∨
    ∃ k s, (⟨b :: rest⟩ : Stack α).highestWith? name (rest.length + 1) = some (k + 1) ∧
      rest[k]? = some s ∧ s.find? name = lookup name rest ∧ (lookup name rest).isSome = true ∧
      ∀ v, assignLast name v rest = some (rest.modify k (·.assign name v)) := by
  induction rest using reverseRecOn with
  | nil => exact .inl ⟨rfl, rfl⟩
  | append_singleton rest u ih =>
    have hcongr : (⟨b :: (rest ++ [u])⟩ : Stack α).highestWith? name (rest.length + 1) =
        (⟨b :: rest⟩ : Stack α).highestWith? name (rest.length + 1) := by
      refine highestWith?_congr fun i hi => ?_
      cases i with
      | zero => rfl
      | succ i => simp [getElem?_append_left (Nat.lt_of_succ_lt_succ hi)]
    rw [length_append, length_singleton, highestWith?, hcongr, lookup_append]
    by_cases hu : (u.find? name).isSome
    · obtain ⟨w, hw⟩ := isSome_iff_exists.mp hu
      refine .inr ⟨rest.length, u, ?_, by simp, ?_, ?_, fun v => ?_⟩
      · simp [hu]
      · simp [lookup, hw]
      · simp [lookup, hw]
      · rw [assignLast_append]
        simp [assignLast, hu, modify_append_length]
    · have hnone : u.find? name = none := by simpa using hu
      obtain ⟨hhigh, hlookup⟩ | ⟨k, s, hhigh, hk, hfind, hsome, hassign⟩ := ih
      · refine .inl ⟨?_, ?_⟩
        · simp [hnone, hhigh]
        · simp [lookup, hnone, hlookup]
      · have hlt : k < rest.length := (List.getElem?_eq_some_iff.mp hk).1
        refine .inr ⟨k, s, ?_, ?_, ?_, ?_, fun v => ?_⟩
        · simp [hnone, hhigh]
        · rw [getElem?_append_left hlt, hk]
        · simp [lookup, hnone, hfind]
        · simpa [lookup, hnone] using hsome
        · rw [assignLast_append, hassign v]
          simp [assignLast, hnone, modify_append_of_lt hlt]

lemma find?_eq (b : Scope α) (rest : List (Scope α)) (name : String) :
    (⟨b :: rest⟩ : Stack α).find? name = .ok (if isLocalName name then
      (lookup name rest).or (b.find? name) else b.find? name) := by
  unfold find? levelOf
  rw [isEmpty_cons, if_neg Bool.false_ne_true]
  split_ifs with hlocal
  · rw [length_cons]
    obtain ⟨hhigh, hlookup⟩ | ⟨k, s, hhigh, hk, hfind, hsome, -⟩ := highestWith?_eq b rest name
    · rw [hhigh, hlookup]
      rfl
    · rw [hhigh]
      obtain ⟨w, hw⟩ := isSome_iff_exists.mp hsome
      change Except.ok ((b :: rest)[k + 1]?.bind (·.find? name)) = _
      rw [getElem?_cons_succ, hk, bind_some, hfind, hw, some_or]
  · rfl

lemma assign_eq (b : Scope α) (rest : List (Scope α)) (name : String) (v : α) :
    (⟨b :: rest⟩ : Stack α).assign name v = .ok (if isLocalName name then
      (((assignLast name v rest).map (⟨b :: ·⟩)).getD ⟨b.assign name v :: rest⟩)
      else ⟨b.assign name v :: rest⟩) := by
  unfold assign levelOf
  rw [isEmpty_cons, if_neg Bool.false_ne_true]
  split_ifs with hlocal
  · rw [length_cons]
    obtain ⟨hhigh, hlookup⟩ | ⟨k, s, hhigh, hk, hfind, hsome, hassign⟩ := highestWith?_eq b rest name
    · have hnone := isSome_assignLast name v rest
      rw [hlookup, isSome_none, isSome_eq_false_iff, isNone_iff_eq_none] at hnone
      rw [hhigh, hnone]
      rfl
    · rw [hhigh, hassign]
      rfl
  · rfl

end Stack

/-! ### Scopes that are alike -/

variable {κ κ' : Link}

def Scope.Alike (κ : Link) (s t : Scope Value) : Prop :=
  ∀ name, Value.AlikeOption κ (s.find? name) (t.find? name)

abbrev AlikeVariables (κ : Link) : List (String × Value) → List (String × Value) → Prop :=
  Forall₂ fun x y => x.1 = y.1 ∧ Value.Alike κ x.2 y.2

lemma AlikeVariables.cons (name : String) {v w : Value} (hv : Value.Alike κ v w)
    {vars vars' : List (String × Value)} (h : AlikeVariables κ vars vars') :
    AlikeVariables κ ((name, v) :: vars) ((name, w) :: vars') :=
  Forall₂.cons ⟨rfl, hv⟩ h

namespace Scope

variable {s t : Scope Value} {v w : Value}

lemma Alike.mono (hκ : κ ≤ κ') (h : Alike κ s t) : Alike κ' s t :=
  fun name => (h name).imp fun _ _ hv => hv.mono hκ

lemma Alike.assign (h : Alike κ s t) (name : String) (hv : Value.Alike κ v w) :
    Alike κ (s.assign name v) (t.assign name w) := by
  intro name'
  rw [find?_assign, find?_assign]
  split_ifs
  · exact .some hv
  · exact h name'

lemma alike_ofVariables {vars vars' : List (String × Value)} (h : AlikeVariables κ vars vars') :
    Alike κ (ofVariables vars) (ofVariables vars') := by
  have hfold {s t : Scope Value} (hst : Alike κ s t) :
      Alike κ (vars.foldl (fun s (name, value) => s.assign name value) s)
        (vars'.foldl (fun s (name, value) => s.assign name value) t) := by
    induction h generalizing s t with
    | nil => exact hst
    | @cons x y _ _ hxy _ ih =>
      obtain ⟨name, v⟩ := x
      obtain ⟨name', w⟩ := y
      obtain ⟨rfl, hv⟩ := hxy
      exact ih (hst.assign _ hv)
  exact hfold fun _ => .none

lemma find?_ofVariables (name name' : String) (v : Value) :
    (ofVariables [(name, v)]).find? name' =
      if Text.lower name = Text.lower name' then some v else none :=
  find?_assign [] name name' v

lemma lookup_concat (ss : List (Scope Value)) (name name' : String) (v : Value) :
    lookup name' (ss ++ [ofVariables [(name, v)]]) =
      if Text.lower name = Text.lower name' then some v else lookup name' ss := by
  rw [lookup_append, lookup, lookup, find?_ofVariables, none_or]
  split_ifs <;> rfl

variable {ss ts : List (Scope Value)}

lemma alike_lookup (h : Forall₂ (Alike κ) ss ts) (name : String) :
    Value.AlikeOption κ (lookup name ss) (lookup name ts) := by
  induction h with
  | nil => exact .none
  | cons hst _ ih =>
    rw [lookup, lookup]
    obtain ⟨hs, ht⟩ | ⟨v, w, hs, ht, hv⟩ := ih.eq_or_exists
    · rw [hs, ht]
      exact hst name
    · rw [hs, ht]
      exact .some hv

lemma alike_assignLast (h : Forall₂ (Alike κ) ss ts) (name : String) (hv : Value.Alike κ v w) :
    Option.Rel (Forall₂ (Alike κ)) (assignLast name v ss) (assignLast name w ts) := by
  induction h with
  | nil => exact .none
  | cons hst hsts ih =>
    rw [assignLast, assignLast, (hst name).isSome]
    obtain ⟨hs, ht⟩ | ⟨ss', ts', hs, ht, hsts'⟩ := ih.eq_or_exists
    · rw [hs, ht]
      split_ifs
      · exact .some (.cons (hst.assign name hv) hsts)
      · exact .none
    · rw [hs, ht]
      exact .some (.cons hst hsts')

end Scope

/-- How many scopes two stacks have above their base scopes: `low` and `low'` that are alike as a whole,
and on them `top` in each that are alike one by one. Some names surely have a value in those that are
alike as a whole. -/
structure Layers where
  low : Nat
  low' : Nat
  top : Nat
  names : List String

def Layers.push (n : Layers) : Layers :=
  { n with top := n.top + 1 }

inductive Stack.Alike (κ : Link) (n : Layers) : Stack Value → Stack Value → Prop
  | mk {b c : Scope Value} {ls ms us vs : List (Scope Value)} (hbase : Scope.Alike κ b c)
      (hls : ls.length = n.low) (hms : ms.length = n.low') (hempty : ls.isEmpty = ms.isEmpty)
      (hlow : ∀ name, Value.AlikeOption κ (lookup name ls) (lookup name ms))
      (hnames : ∀ name ∈ n.names, (lookup name ls).isSome = true)
      (htop : Forall₂ (Scope.Alike κ) us vs) (hus : us.length = n.top) :
      Alike κ n ⟨b :: (ls ++ us)⟩ ⟨c :: (ms ++ vs)⟩

namespace Stack

variable {n : Layers} {s t : Stack Value} {v w : Value}

lemma Alike.mono (hκ : κ ≤ κ') (h : Alike κ n s t) : Alike κ' n s t := by
  cases h with
  | mk hbase hls hms hempty hlow hnames htop hus =>
    refine .mk (hbase.mono hκ) hls hms hempty (fun name => ?_) hnames
      (htop.imp fun _ _ h => h.mono hκ) hus
    exact (hlow name).imp fun _ _ hv => hv.mono hκ

lemma Alike.find? (h : Alike κ n s t) (name : String) :
    ∃ o p, s.find? name = .ok o ∧ t.find? name = .ok p ∧ Value.AlikeOption κ o p := by
  cases h with
  | mk hbase hls hms hempty hlow hnames htop hus =>
    refine ⟨_, _, find?_eq _ _ name, find?_eq _ _ name, ?_⟩
    rw [lookup_append, lookup_append]
    split_ifs
    · obtain ⟨hs, ht⟩ | ⟨v, w, hs, ht, hv⟩ := (alike_lookup htop name).eq_or_exists
      · rw [hs, ht, none_or, none_or]
        obtain ⟨hs, ht⟩ | ⟨v, w, hs, ht, hv⟩ := (hlow name).eq_or_exists
        · rw [hs, ht]
          exact hbase name
        · rw [hs, ht]
          exact .some hv
      · rw [hs, ht]
        exact .some hv
    · exact hbase name

lemma Alike.assign (h : Alike κ n s t) (name : String) (hv : Value.Alike κ v w) :
    ∃ s' t', s.assign name v = .ok s' ∧ t.assign name w = .ok t' ∧ Alike κ n s' t' := by
  cases h with
  | @mk b c ls ms us vs hbase hls hms hempty hlow hnames htop hus =>
    refine ⟨_, _, assign_eq _ _ name v, assign_eq _ _ name w, ?_⟩
    have hassigned := Alike.mk (hbase.assign name hv) hls hms hempty hlow hnames htop hus
    rw [assignLast_append, assignLast_append]
    split_ifs
    · obtain ⟨hs, ht⟩ | ⟨us', vs', hs, ht, htop'⟩ := (alike_assignLast htop name hv).eq_or_exists
      · rw [hs, ht]
        -- the scopes that are alike as a whole: both have the name, or none
        have hsome : (assignLast name v ls).isSome = (assignLast name w ms).isSome := by
          rw [isSome_assignLast, isSome_assignLast, (hlow name).isSome]
        cases hls' : assignLast name v ls with
        | none =>
          rw [hls', isSome_none, eq_comm, isSome_eq_false_iff, isNone_iff_eq_none] at hsome
          rw [hsome]
          exact hassigned
        | some ls' =>
          rw [hls', isSome_some, eq_comm, isSome_iff_exists] at hsome
          obtain ⟨ms', hms'⟩ := hsome
          rw [hms']
          refine .mk hbase ?_ ?_ ?_ (fun name' => ?_) (fun name' hname' => ?_) htop hus
          · rw [length_assignLast hls', hls]
          · rw [length_assignLast hms', hms]
          · rw [isEmpty_eq_of_length (length_assignLast hls'),
              isEmpty_eq_of_length (length_assignLast hms'), hempty]
          · rw [lookup_assignLast hls', lookup_assignLast hms']
            split_ifs
            · exact .some hv
            · exact hlow name'
          · rw [lookup_assignLast hls']
            split_ifs
            · rfl
            · exact hnames name' hname'
      · rw [hs, ht]
        exact .mk hbase hls hms hempty hlow hnames htop' ((length_assignLast hs).trans hus)
    · exact hassigned

/-- The top scopes, which are the base scopes, scopes among those that are alike as a whole, or
scopes that are alike. -/
lemma Alike.assignTop (h : Alike κ n s t) (name : String) (hv : Value.Alike κ v w) :
    ∃ k l, s.top = .ok k ∧ t.top = .ok l ∧
      Alike κ n (s.assignAt k name v) (t.assignAt l name w) := by
  cases h with
  | @mk b c ls ms us vs hbase hls hms hempty hlow hnames htop hus =>
    refine ⟨(ls ++ us).length, (ms ++ vs).length, rfl, rfl, ?_⟩
    unfold assignAt
    dsimp only
    have hmodify (d : Scope Value) (xs : List (Scope Value)) (x : Scope Value) (v : Value) :
        (d :: (xs ++ [x])).modify (xs ++ [x]).length (·.assign name v) =
          d :: (xs ++ [x.assign name v]) := by
      rw [length_append]
      exact modify_append_length (d :: xs) x _
    obtain rfl | ⟨us, u, rfl⟩ := us.eq_nil_or_concat'
    · cases htop
      rw [append_nil, append_nil]
      obtain rfl | ⟨ls, l, rfl⟩ := ls.eq_nil_or_concat'
      · obtain rfl : ms = [] := isEmpty_iff.mp hempty.symm
        exact @Alike.mk κ n _ _ [] [] [] [] (hbase.assign name hv) hls hms rfl hlow hnames .nil hus
      · obtain rfl | ⟨ms, m, rfl⟩ := ms.eq_nil_or_concat'
        · cases ls <;> cases hempty
        · rw [hmodify, hmodify, ← append_nil (ls ++ [_]), ← append_nil (ms ++ [_])]
          refine .mk hbase ?_ ?_ ?_ (fun name' => ?_) (fun name' hname' => ?_) .nil hus
          · simpa using hls
          · simpa using hms
          · have hleft : (ls ++ [l.assign name v]).length = (ls ++ [l]).length := by simp
            have hright : (ms ++ [m.assign name w]).length = (ms ++ [m]).length := by simp
            rw [isEmpty_eq_of_length hleft, hempty, isEmpty_eq_of_length hright]
          · have hname := hlow name'
            rw [lookup_append, lookup_append] at hname ⊢
            unfold lookup lookup at hname ⊢
            rw [find?_assign, find?_assign]
            split_ifs
            · exact .some hv
            · exact hname
          · have hname := hnames name' hname'
            rw [lookup_append] at hname ⊢
            unfold lookup lookup at hname ⊢
            rw [find?_assign]
            split_ifs
            · rfl
            · exact hname
    · obtain ⟨vs, z, halike, hu, rfl⟩ := exists_of_forall₂_concat htop
      rw [← append_assoc, ← append_assoc, hmodify, hmodify, append_assoc,
        append_assoc]
      refine .mk hbase hls hms hempty hlow hnames
        (rel_append halike (.cons (hu.assign name hv) .nil)) ?_
      simpa using hus

lemma Alike.push (h : Alike κ n s t) {vars vars' : List (String × Value)}
    (hvars : AlikeVariables κ vars vars') : Alike κ n.push (s.push vars) (t.push vars') := by
  cases h with
  | mk hbase hls hms hempty hlow hnames htop hus =>
    unfold Stack.push
    dsimp only
    rw [cons_append, append_assoc, cons_append, append_assoc]
    refine .mk hbase hls hms hempty hlow hnames
      (rel_append htop (.cons (alike_ofVariables hvars) .nil)) ?_
    rw [length_append, hus]
    rfl

/-- The top scope can be taken away if it is above those that are alike as a whole. -/
lemma Alike.pop (h : Alike κ n.push s t) :
    ∃ s' t', s.pop = .ok s' ∧ t.pop = .ok t' ∧ Alike κ n s' t' := by
  cases h with
  | @mk b c ls ms us vs hbase hls hms hempty hlow hnames htop hus =>
    refine ⟨⟨(b :: (ls ++ us)).dropLast⟩, ⟨(c :: (ms ++ vs)).dropLast⟩, rfl, rfl, ?_⟩
    obtain rfl | ⟨us, u, rfl⟩ := us.eq_nil_or_concat'
    · cases hus
    · obtain ⟨vs, z, halike, hu, rfl⟩ := exists_of_forall₂_concat htop
      have hdrop (d : Scope Value) (xs ys : List (Scope Value)) (x : Scope Value) :
          (d :: (xs ++ (ys ++ [x]))).dropLast = d :: (xs ++ ys) := by
        rw [← append_assoc, ← cons_append, dropLast_concat]
      rw [hdrop, hdrop]
      refine .mk hbase hls hms hempty hlow hnames halike ?_
      rw [length_append] at hus
      exact Nat.succ.inj hus

/-- Both stacks get one more scope of those that are alike as a whole. -/
lemma Alike.pushLow (h : Alike κ n s t) (hn : n.top = 0) (name : String) (hv : Value.Alike κ v w) :
    Alike κ ⟨n.low + 1, n.low' + 1, 0, name :: n.names⟩ (s.push [(name, v)])
      (t.push [(name, w)]) := by
  cases h with
  | @mk b c ls ms us vs hbase hls hms hempty hlow hnames htop hus =>
    obtain rfl : us = [] := eq_nil_of_length_eq_zero (hus.trans hn)
    cases htop
    unfold Stack.push
    dsimp only
    rw [append_nil, append_nil, cons_append, cons_append,
      ← append_nil (ls ++ _), ← append_nil (ms ++ _)]
    refine .mk hbase ?_ ?_ ?_ (fun name' => ?_) (fun name' hname' => ?_) .nil rfl
    · rw [length_append, hls, length_singleton]
    · rw [length_append, hms, length_singleton]
    · cases ls <;> cases ms <;> rfl
    · rw [lookup_concat, lookup_concat]
      split_ifs
      · exact .some hv
      · exact hlow name'
    · rw [lookup_concat]
      split_ifs with hlower
      · rfl
      · obtain rfl | hname' := mem_cons.mp hname'
        · exact absurd rfl hlower
        · exact hnames name' hname'

/-- The first stack alone gets a scope with a name that has such a value already. -/
lemma Alike.pushLeft (h : Alike κ n s t) (hn : n.top = 0) {name : String}
    (hname : name ∈ n.names) (hlocal : isLocalName name = true)
    (ht : t.find? name = .ok (some w)) (hv : Value.Alike κ v w) :
    Alike κ { n with low := n.low + 1 } (s.push [(name, v)]) t := by
  cases h with
  | @mk b c ls ms us vs hbase hls hms hempty hlow hnames htop hus =>
    obtain rfl : us = [] := eq_nil_of_length_eq_zero (hus.trans hn)
    cases htop
    have hsome := hnames name hname
    rw [(hlow name).isSome, isSome_iff_exists] at hsome
    obtain ⟨w', hw'⟩ := hsome
    rw [append_nil, find?_eq, if_pos hlocal, hw'] at ht
    cases ht
    unfold Stack.push
    dsimp only
    rw [append_nil, cons_append, ← append_nil (ls ++ _)]
    refine .mk hbase ?_ hms ?_ (fun name' => ?_) (fun name' hname' => ?_) .nil hus
    · rw [length_append, hls, length_singleton]
    · rw [← hempty]
      cases ls with
      | nil => cases hnames name hname
      | cons l ls => rfl
    · rw [lookup_concat]
      split_ifs with hlower
      · rw [lookup_congr hlower, hw']
        exact .some hv
      · exact hlow name'
    · rw [lookup_concat]
      split_ifs
      · rfl
      · exact hnames name' hname'

end Stack

end ArmaScript
