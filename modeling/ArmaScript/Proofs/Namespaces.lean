import ArmaScript.Proofs.Declarations

/-!
# Namespaces of nested code

`with` runs its code in a namespace. All other control structures run theirs in the namespace of the
mission, also inside `with`: it makes no difference to them if all code is run there. An assignment to
a global variable goes to the namespace in which the code around it runs.
-/

namespace ArmaScript

/-- Runs all code in the namespace of the mission. -/
def Answer.inMission (answer : Answer) : Answer
  | .code body vars _ => answer (.code body vars .mission)
  | request => answer request

namespace Run

section

variable (answer : Answer)

lemma code_inMission (v : Value) (vars : List (String × Value)) :
    code answer.inMission v vars .mission = code answer v vars .mission := by
  cases v <;> rfl

lemma plainCode_inMission : plainCode answer.inMission = plainCode answer :=
  funext fun v => code_inMission answer v []

lemma whileLoop_inMission (condition body : Value) (next : Option Value) :
    whileLoop answer.inMission condition body next = whileLoop answer condition body next := by
  funext n
  induction n with
  | zero => rfl
  | succ n ih =>
    funext outcome
    simp only [whileLoop, plainCode_inMission, ih]

lemma countLoop_inMission (name : String) (body : Value) (step : Int) :
    countLoop answer.inMission name body step = countLoop answer name body step := by
  funext n
  induction n with
  | zero => rfl
  | succ n ih =>
    funext i outcome
    simp only [countLoop, code_inMission, ih]

lemma eachLoop_inMission (body : Value) (buffer : Nat) :
    eachLoop answer.inMission body buffer = eachLoop answer body buffer := by
  funext n
  induction n with
  | zero => rfl
  | succ n ih =>
    funext i outcome
    simp only [eachLoop, code_inMission, ih]

lemma switchValue_inMission : switchValue answer.inMission = switchValue answer := by
  funext t
  cases t <;> rfl

lemma runCases_inMission (subject : Value) :
    runCases answer.inMission subject = runCases answer subject := by
  funext branches
  induction branches with
  | nil => rfl
  | cons b rest ih =>
    funext falling
    cases b with
    | default => exact congrFun ih falling
    | case condition body => simp only [runCases, plainCode_inMission, ih]

lemma switchDo_inMission (subject : Value) (id : NodeId) (lines : List Tree) :
    switchDo answer.inMission subject id lines = switchDo answer subject id lines := by
  simp only [switchDo, runBranches, branches, branch, switchValue_inMission, runCases_inMission,
    plainCode_inMission]

lemma unary_inMission (c : Command) (v : Value) :
    unary answer.inMission c v = unary answer c v := by
  simp only [unary, plainCode_inMission]

lemma binary_inMission {c : Command} (h : c ≠ .withDo) (left right : Value) :
    binary answer.inMission c left right = binary answer c left right := by
  unfold binary
  simp only [forEach, whileDo, forDo, forSpecDo, choose, logic, eachLoop_inMission, whileLoop_inMission,
    countLoop_inMission, switchDo_inMission, plainCode_inMission, code_inMission]
  -- only `with` is left to compare
  split
  · rfl
  · split
    · exact absurd rfl h
    all_goals rfl

end

/-! ### Assignments to global variables -/

lemma levelOf_global {g : String} (hglobal : isLocalName g = false) {s : Stack Value}
    (hscopes : s.scopes ≠ []) : s.levelOf g = .ok 0 := by
  rw [Stack.levelOf, if_neg (by simpa using hscopes), hglobal]
  rfl

/-- The base can be changed below the scope that code has of its own. -/
lemma pop_modify_push {s : Stack Value} (hscopes : s.scopes ≠ []) (f : Scope Value → Scope Value)
    (vars : List (String × Value)) :
    Stack.pop ⟨(s.push vars).scopes.modify 0 f⟩ = .ok ⟨s.scopes.modify 0 f⟩ := by
  obtain ⟨_ | ⟨b, rest⟩⟩ := s
  · exact absurd rfl hscopes
  · have hlast : (f b :: rest ++ [Scope.ofVariables vars]).dropLast = f b :: rest :=
      List.dropLast_concat
    exact congrArg (fun scopes => Except.ok (Stack.mk scopes)) hlast

lemma exists_inScope_assignTo {w : World} {m : Machine} {g : String} {space : Space}
    {statement target : Tree} {left right v : Value} (hm : w.machines[w.active]? = some m)
    (hscopes : (m.spaces.stack space).scopes ≠ []) (hglobal : isLocalName g = false)
    (hname : assignedName target left = pure (some g)) (hv : v.kind.isValue = true)
    (vars : List (String × Value)) :
    ∃ w', inScope space vars (assignTo statement target left right v) w = .ok right w' ∧
      w'.machines[w'.active]? = some { m with
        spaces := m.spaces.setStack space ((m.spaces.stack space).assignAt 0 g v) } := by
  have hassign : ((m.spaces.stack space).push vars).assign g v =
      .ok (((m.spaces.stack space).push vars).assignAt 0 g v) := by
    rw [Stack.assign, levelOf_global hglobal (by simp [Stack.push])]
    rfl
  have hstack (n : Namespaces Value) (s : Stack Value) : (n.setStack space s).stack space = s := by
    rw [Namespaces.stack_setStack, if_pos rfl]
  obtain ⟨w1, -, hm1, hscope⟩ := exists_entered hm space vars
  obtain ⟨w2, hput, -, hm2⟩ := exists_modifyStack hm1 space (f := (·.assign g v))
    (by rw [hstack]; exact hassign)
  have hassignTo : assignTo statement target left right v w1 = .ok right w2 := by
    unfold assignTo
    rw [hname, pure_bind, hv]
    exact bind_eq (current_eq_ok.mpr ⟨_, hm1, rfl, rfl⟩) (bind_of_eq_ok hput)
  obtain ⟨w', hrun, -, hm'⟩ := hscope hassignTo hm2
    (by rw [hstack]; exact pop_modify_push hscopes _ vars)
  refine ⟨w', hrun, hm'.trans ?_⟩
  cases space <;> rfl

/-- Where code runs. `with` runs its code in its namespace. To all other commands it makes no
difference if all code is run in the mission, whatever namespace they are run in. An assignment to a
global variable, in code that is run in a namespace, changes that variable there and nothing else. -/
theorem nested_code_in_mission (answer : Answer) :
    (∀ c v, unary answer.inMission c v = unary answer c v) ∧
    (∀ c left right, c ≠ .withDo →
      binary answer.inMission c left right = binary answer c left right) ∧
    (∀ w i v space body, spaceOf v w = .ok space w →
      binary answer .withDo (.withOf i v) body w = (some <$> code answer body [] space) w) ∧
    ∀ w m g space statement target left right v vars, w.machines[w.active]? = some m →
      (m.spaces.stack space).scopes ≠ [] → isLocalName g = false →
      assignedName target left = pure (some g) → v.kind.isValue = true →
      ∃ w', inScope space vars (assignTo statement target left right v) w = .ok right w' ∧
        w'.machines[w'.active]? = some { m with
          spaces := m.spaces.setStack space ((m.spaces.stack space).assignAt 0 g v) } := by
  refine ⟨unary_inMission answer, fun c left right h => binary_inMission answer h left right,
    fun w i v space body hspace => ?_, fun w m g space statement target left right v vars hm hscopes
      hglobal hname hv => exists_inScope_assignTo hm hscopes hglobal hname hv vars⟩
  exact bind_of_eq_ok hspace

/-- In `with uinamespace do {if (true) then {g = true}}` the assignment is made in the mission. -/
theorem nested_code_in_mission_ui :
    binary (answerWithin 5) .withDo (.withOf 0 (.atom 1 (.nspace "uinamespace"))) (.code 2 true [])
      (.single .empty []) = (some <$> code (answerWithin 5) (.code 2 true []) [] .ui)
        (.single .empty []) ∧
    binary (answerWithin 5).inMission .thenCode (.ifOf 3 (.atom 4 (.boolean (some true))))
      (.code 5 true []) = binary (answerWithin 5) .thenCode
        (.ifOf 3 (.atom 4 (.boolean (some true)))) (.code 5 true []) ∧
    ∃ w', inScope .mission [] (assignTo (.atom 6 .nothing) (.atom 7 (.var "g"))
        (.atom 7 (.var "g")) (.atom 8 (.boolean (some true))) (.atom 8 (.boolean (some true))))
        (.single .empty []) = .ok (.atom 8 (.boolean (some true))) w' ∧
      w'.machines[w'.active]? = some (.ofVariables [("g", .atom 8 (.boolean (some true)))]) := by
  obtain ⟨-, hother, hwith, hassign⟩ := nested_code_in_mission (answerWithin 5)
  have hspace : Space.ofName "uinamespace" = .ok .ui := by
    rw [Space.ofName, show Text.lower "uinamespace" = "uinamespace" by decide +kernel]
    rfl
  refine ⟨hwith _ _ _ _ _ ?_, hother _ _ _ (by decide), hassign _ (.ofVariables []) "g"
    .mission _ _ _ _ _ _ rfl (by decide) (by decide +kernel) rfl rfl⟩
  exact lift_eq_ok.mpr ⟨hspace, rfl⟩

end Run

end ArmaScript
