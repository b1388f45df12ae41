import ArmaScript.Proofs.Hygiene

/-!
# Spellings of names

The variables of a namespace are told apart without regard to case. What is done to a stack of scopes
depends on names only through their lower-case forms, so two sequences of operations that spell the
names differently get the same replies, step by step, and leave the same stack.
-/

namespace ArmaScript

open Text List

variable {α : Type}

namespace Stack

/-- Where a variable is set: where its name belongs, in the top scope, or in the base. -/
inductive Target where
  | resolved
  | top
  | base

/-- What is done to a stack from outside. -/
inductive Operation (α : Type) where
  | push (vars : List (String × α))
  | pop
  | get (name : String)
  | has (name : String)
  | level (name : String)
  | set (target : Target) (name : String) (v : α)

/-- What an operation gives back. -/
inductive Reply (α : Type) where
  | done
  | value (v : α)
  | flag (b : Bool)
  | level (n : Nat)

/-- The level of a target. There must be a scope. -/
def Target.level (s : Stack α) (name : String) : Target → Except Fault Nat
  | .resolved => s.levelOf name
  | .top => s.top
  | .base => do
    discard s.top
    return 0

namespace Operation

/-- Does an operation. One that fails leaves the stack as it is. -/
def run (s : Stack α) : Operation α → Except Fault (Reply α × Stack α)
  | .push vars => return (.done, s.push vars)
  | .pop => return (.done, ← s.pop)
  | .get name => do
    match ← s.find? name with
    | some v => return (.value v, s)
    | none => throw .unknownName
  | .has name => return (.flag (← s.find? name).isSome, s)
  | .level name => return (.level (← s.levelOf name), s)
  | .set target name v => return (.done, s.assignAt (← target.level s name) name v)

/-- The replies to operations that are done one after the other, and the stack behind them. -/
def replies (s : Stack α) : List (Operation α) → List (Except Fault (Reply α)) × Stack α
  | [] => ([], s)
  | op :: ops =>
    let s' := (op.run s).toOption.elim s Prod.snd
    ((op.run s).map Prod.fst :: (replies s' ops).1, (replies s' ops).2)

/-- Variables with the same values whose names differ at most in case. -/
abbrev SameVariables (vars vars' : List (String × α)) : Prop :=
  Forall₂ (fun x y => lower x.1 = lower y.1 ∧ x.2 = y.2) vars vars'

/-- Operations that differ at most in the case of names. -/
inductive Respelled : Operation α → Operation α → Prop
  | push {vars vars' : List (String × α)} (h : SameVariables vars vars') :
      Respelled (.push vars) (.push vars')
  | pop : Respelled .pop .pop
  | get {name name' : String} (h : lower name = lower name') : Respelled (.get name) (.get name')
  | has {name name' : String} (h : lower name = lower name') : Respelled (.has name) (.has name')
  | level {name name' : String} (h : lower name = lower name') :
      Respelled (.level name) (.level name')
  | set (target : Target) {name name' : String} (h : lower name = lower name') (v : α) :
      Respelled (.set target name v) (.set target name' v)

end Operation

open Operation

variable {name name' : String} {s : Stack α}

lemma ofVariables_congr {vars vars' : List (String × α)} (h : SameVariables vars vars') :
    Scope.ofVariables vars = Scope.ofVariables vars' := by
  unfold Scope.ofVariables
  generalize ([] : Scope α) = s
  induction h generalizing s with
  | nil => rfl
  | cons hxy _ ih =>
    rw [foldl_cons, foldl_cons, ih]
    simp only [Scope.assign, hxy.1, hxy.2]

lemma levelOf_congr (h : lower name = lower name') : s.levelOf name = s.levelOf name' := by
  have hhighest (n : Nat) : s.highestWith? name n = s.highestWith? name' n := by
    induction n with
    | zero => rfl
    | succ n ih =>
      have hvalue : s.scopes[n]?.bind (·.find? name) = s.scopes[n]?.bind (·.find? name') :=
        valueAt?_congr h
      rw [highestWith?, highestWith?, ih, hvalue]
  rw [levelOf, levelOf, isLocalName_congr h, hhighest]

lemma find?_congr (h : lower name = lower name') : s.find? name = s.find? name' := by
  simp only [find?, levelOf_congr h, valueAt?_congr h]

namespace Operation

/-- One operation does the same in both spellings. -/
lemma Respelled.run_eq {op op' : Operation α} (h : Respelled op op') (s : Stack α) :
    op.run s = op'.run s := by
  cases h with
  | push h => rw [run, run, Stack.push, Stack.push, ofVariables_congr h]
  | pop => rfl
  | get h | has h => rw [run, run, find?_congr h]
  | level h => rw [run, run, levelOf_congr h]
  | @set target name name' h v =>
    have hlevel : target.level s name = target.level s name' := by
      cases target with
      | resolved => exact levelOf_congr h
      | top | base => rfl
    simp only [run, hlevel, assignAt, Scope.assign, h]

/-- Names are not told apart by case. Two sequences of operations that differ at most in the case of
names, from stacks made of variables that do, get the same replies and failures and end with the same
stack. -/
theorem replies_respelled {vars vars' : List (String × α)} {ops ops' : List (Operation α)}
    (hvars : SameVariables vars vars') (hops : Forall₂ Respelled ops ops') :
    replies (.ofVariables vars) ops = replies (.ofVariables vars') ops' := by
  rw [Stack.ofVariables, Stack.ofVariables, ofVariables_congr hvars]
  generalize (⟨[.ofVariables vars']⟩ : Stack α) = s
  induction hops generalizing s with
  | nil => rfl
  | cons hop _ ih => rw [replies, replies, hop.run_eq, ih]

/-- A local variable is shadowed under one spelling, changed under another and read under a third. -/
theorem replies_respelled_shadowed :
    replies (.ofVariables [("_Ab", 1), ("G", 2)]) [.push [("_aB", 3)], .set .resolved "_AB" 4,
        .get "_ab", .pop, .pop, .get "g"] =
      replies (.ofVariables [("_ab", 1), ("g", 2)]) [.push [("_ab", 3)], .set .resolved "_ab" 4,
        .get "_AB", .pop, .pop, .get "G"] := by
  have hlocal : ∀ name ∈ ["_Ab", "_aB", "_AB", "_ab"], lower name = "_ab" := by decide +kernel
  have hglobal : lower "G" = lower "g" := by decide +kernel
  have h {name name' : String} (hname : name ∈ ["_Ab", "_aB", "_AB", "_ab"])
      (hname' : name' ∈ ["_Ab", "_aB", "_AB", "_ab"]) : lower name = lower name' :=
    (hlocal name hname).trans (hlocal name' hname').symm
  exact replies_respelled (.cons ⟨h (by simp) (by simp), rfl⟩ (.cons ⟨hglobal, rfl⟩ .nil))
    (.cons (.push (.cons ⟨h (by simp) (by simp), rfl⟩ .nil))
      (.cons (.set _ (h (by simp) (by simp)) 4) (.cons (.get (h (by simp) (by simp)))
        (.cons .pop (.cons .pop (.cons (.get hglobal.symm) .nil))))))

end Operation

end Stack

end ArmaScript
