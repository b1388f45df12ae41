import ArmaScript.Proofs.FormulaValue

/-!
# Switches

A switch runs the code of one of its lines at most: from the first case that fits on, that of the first
case that has any, or else the default. The default is passed over wherever it stands, and so are cases
without code. Which case fits is decided before any code is run.
-/

namespace ArmaScript

/-- The world after `n` more identities were given away. -/
def World.later (w : World) (n : Nat) : World :=
  { w with store := { w.store with nextId := w.store.nextId + n } }

/-- Equality of values does not depend on how many identities were given away. -/
lemma Store.sameWithin_nextId (s : Store) (n depth : Nat) :
    { s with nextId := n }.sameWithin depth = s.sameWithin depth := by
  induction depth with
  | zero => rfl
  | succ depth ih =>
    funext v w
    rw [sameWithin, ih]
    rfl

namespace Run

def fits (w : World) (subject condition : Value) : Bool :=
  match valueOf condition w with
  | .ok v _ => w.store.same v subject
  | .error .. => false

/-- A case of a switch: its condition, and its code if it has any. -/
def Branch.case? : Branch → Option (Value × Option Value)
  | .default _ => none
  | .case condition body => some (condition, body)

def caseCode (fits : Value → Bool) (cases : List (Value × Option Value)) : Option Value :=
  (cases.dropWhile fun c => !fits c.1).findSome? Prod.snd

def switchCode (fits : Value → Bool) (branches : List Branch) : Option Value :=
  (caseCode fits (branches.filterMap Branch.case?)).or (branches.findSome? Branch.default?)

variable {w : World} {subject condition : Value} {name : String}

/-- A variable without a value stands for a new value nothing. -/
lemma valueOf_var {machine : Machine} (hm : w.machines[w.active]? = some machine)
    (hname : condition.varName? = some name) (o : Option Value) :
    (machine.spaces.stack machine.current).find? name = .ok o → valueOf condition w = match o with
      | some v => (if v.kind.isValue then pure v else throw .violation : Run Value) w
      | none => .ok (.atom w.store.nextId .nothing) (w.later 1) := by
  intro ho
  have hcurrent := current_eq_ok.mpr ⟨machine, hm, rfl, rfl⟩
  have hfind := find?_eq_ok.mpr ⟨machine, hm, ho, rfl⟩
  rw [valueOf, hname]
  refine bind_eq hcurrent ?_
  cases o with
  | some v => exact bind_of_eq_ok (bind_eq hfind rfl)
  | none =>
    have hvalue : valueOfName machine.current name w =
        .ok (.atom w.store.nextId .nothing) (w.later 1) := bind_of_eq_ok hfind
    exact bind_of_eq_ok hvalue

/-- A condition that has a value keeps it when identities are given away. If it is a variable without
a value it takes an identity itself. -/
lemma exists_valueOf_later (hsubject : subject.id < w.store.nextId) {v : Value} {w1 : World}
    (h : valueOf condition w = .ok v w1) (m : Nat) :
    ∃ v' n, valueOf condition (w.later m) = .ok v' (w.later n) ∧
      (w.later n).store.same v' subject = fits w subject condition := by
  have hsame (n : Nat) (v' : Value) :
      (w.later n).store.same v' subject = w.store.same v' subject :=
    congrFun (congrFun (w.store.sameWithin_nextId _ _) v') subject
  have hfits : fits w subject condition = w.store.same v subject := by rw [fits, h]
  rw [hfits]
  cases hname : condition.varName? with
  | none =>
    rw [valueOf_eq hname] at h ⊢
    cases h
    exact ⟨_, m, rfl, hsame m _⟩
  | some name =>
    have hread := h
    rw [valueOf, hname] at hread
    obtain ⟨space, w2, hcurrent, hvariable⟩ := bind_eq_ok.mp hread
    obtain ⟨machine, hm, rfl, rfl⟩ := current_eq_ok.mp hcurrent
    obtain ⟨u, w3, hvalue, -⟩ := bind_eq_ok.mp hvariable
    obtain ⟨o, w4, hfind, -⟩ := bind_eq_ok.mp hvalue
    obtain ⟨machine', hm', hstack, rfl⟩ := find?_eq_ok.mp hfind
    cases hm.symm.trans hm'
    have hm1 : (w4.later m).machines[(w4.later m).active]? = some machine := hm
    rw [valueOf_var hm hname o hstack] at h
    rw [valueOf_var hm1 hname o hstack]
    cases o with
    | some u =>
      dsimp only at h ⊢
      split at h
      case isTrue hkind =>
        cases h
        exact ⟨v, m, congrFun (if_pos hkind) _, hsame m v⟩
      case isFalse => cases h
    | none =>
      cases h
      have hnew (k : Nat) : (w4.store.nextId + k == subject.id) = false :=
        beq_false_of_ne (Nat.ne_of_gt (Nat.lt_add_right k hsubject))
      refine ⟨_, m + 1, rfl, (hsame _ _).trans ?_⟩
      exact congrArg₂ or ((hnew m).trans (hnew 0).symm) (by cases subject <;> rfl)

/-- The code that the cases of a switch run. Once a case has fitted, the next code is run. -/
def codeFrom (fits : Value → Bool) (cases : List (Value × Option Value)) : Bool → Option Value
  | true => cases.findSome? Prod.snd
  | false => caseCode fits cases

@[simp]
lemma codeFrom_nil (fits : Value → Bool) (falling : Bool) : codeFrom fits [] falling = none := by
  cases falling <;> rfl

lemma codeFrom_cons (fits : Value → Bool) (c : Value) (body : Option Value)
    (cases : List (Value × Option Value)) (falling : Bool) :
    codeFrom fits ((c, body) :: cases) falling =
      if falling || fits c then body.or (codeFrom fits cases true) else codeFrom fits cases false := by
  cases falling <;> cases hc : fits c <;> cases body <;>
    simp [codeFrom, caseCode, hc]

/-- The cases run the code that is chosen, or none, after they have given away some identities. -/
lemma exists_runCases (answer : Answer) (hsubject : subject.id < w.store.nextId)
    {bs : List Branch}
    (hconditions : ∀ c body, .case c body ∈ bs → ∃ v w1, valueOf c w = .ok v w1)
    (falling : Bool) (m : Nat) :
    ∃ n, runCases answer subject bs falling (w.later m) =
      (match codeFrom (fits w subject) (bs.filterMap Branch.case?) falling with
        | some body => some <$> plainCode answer body
        | none => pure none : Run (Option Value)) (w.later n) := by
  induction bs generalizing falling m with
  | nil => exact ⟨m, by rw [List.filterMap_nil, codeFrom_nil]; rfl⟩
  | cons b bs ih =>
    have ih := ih fun c body hc => hconditions c body (.tail _ hc)
    cases b with
    | default body => exact ih falling m
    | case c body =>
      obtain ⟨v, w1, hv⟩ := hconditions c body (.head _)
      obtain ⟨v', n, hv', hfits⟩ := exists_valueOf_later hsubject hv m
      have hcases : (Branch.case c body :: bs).filterMap Branch.case? =
          (c, body) :: bs.filterMap Branch.case? := rfl
      rw [hcases, codeFrom_cons]
      match body, falling with
      | some body, true => exact ⟨m, rfl⟩
      | some body, false =>
        have hrun : runCases answer subject (.case c (some body) :: bs) false (w.later m) =
            (if (w.later n).store.same v' subject then some <$> plainCode answer body
              else runCases answer subject bs false : Run (Option Value)) (w.later n) :=
          bind_eq hv' rfl
        rw [hrun, hfits]
        cases fits w subject c with
        | true => exact ⟨n, rfl⟩
        | false => exact ih false n
      | none, falling =>
        have hrun : runCases answer subject (.case c none :: bs) falling (w.later m) =
            (if (w.later n).store.same v' subject then runCases answer subject bs true
              else runCases answer subject bs falling : Run (Option Value)) (w.later n) := by
          cases falling <;> exact bind_eq hv' rfl
        rw [hrun, hfits]
        cases falling <;> cases fits w subject c <;> exact ih _ n

/-- A switch runs one code at most: that of the first case with code from the first case that fits
on, or else that of the default wherever it stands. Without any it gives true. Nothing but identities
is used up before that. -/
theorem runBranches_eq_switchCode (answer : Answer) (hsubject : subject.id < w.store.nextId)
    (bs : List Branch)
    (hconditions : ∀ c body, .case c body ∈ bs → ∃ v w₁, valueOf c w = .ok v w₁) :
    ∃ n, runBranches answer subject bs w =
      (match switchCode (fits w subject) bs with
        | some body => plainCode answer body
        | none => stored (.boolean (some true)) : Run Value) (w.later n) := by
  obtain ⟨n, hcases⟩ := exists_runCases answer hsubject hconditions false 0
  refine ⟨n, ?_⟩
  rw [switchCode, runBranches]
  rw [codeFrom] at hcases
  cases hcode : caseCode (fits w subject) (bs.filterMap Branch.case?) with
  | none =>
    rw [hcode] at hcases
    exact bind_of_eq_ok hcases
  | some body =>
    rw [hcode] at hcases
    cases hbody : plainCode answer body (w.later n) with
    | ok v w₁ =>
      exact (bind_of_eq_ok (hcases.trans (map_eq_ok.mpr ⟨v, hbody, rfl⟩))).trans hbody.symm
    | error e w₁ =>
      exact (bind_of_eq_error (hcases.trans (bind_of_eq_error hbody))).trans hbody.symm

/-- `switch 2 do { case 0; default {…}; case 2; case 3: {}; case 2: {…} }` runs the code of the case
of 3. -/
theorem runBranches_default_and_or :
    let w := (World.single .empty []).later 20
    let number (id : NodeId) (n : Int) : Value := .atom id (.number (some (.int n)))
    let bs : List Branch := [.case (number 1 0) none, .default (.code 2 true [.atom 3 .space]),
      .case (number 4 2) none, .case (number 5 3) (some (.code 6 true [])),
      .case (number 7 2) (some (.code 8 true [.atom 9 .tab]))]
    ∃ n, runBranches (answerWithin 3) (number 10 2) bs w =
      plainCode (answerWithin 3) (.code 6 true []) (w.later n) := by
  intro w number bs
  have hcode : switchCode (fits w (number 10 2)) bs = some (.code 6 true []) := rfl
  have hsubject : (number 10 2).id < w.store.nextId := by decide
  have h := runBranches_eq_switchCode (answerWithin 3) hsubject bs fun c body hc => by
    simp only [bs, List.mem_cons, Branch.case.injEq, reduceCtorEq, List.not_mem_nil, false_or,
      or_false] at hc
    rcases hc with ⟨rfl, -⟩ | ⟨rfl, -⟩ | ⟨rfl, -⟩ | ⟨rfl, -⟩ <;> exact ⟨_, _, rfl⟩
  rwa [hcode] at h

end Run

end ArmaScript
