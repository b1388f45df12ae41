import ArmaScript.Proofs.Checking

/-!
# The bookkeeping of a checker

A checker counts: the scopes of each namespace, and how many pieces of code around a statement may be
run or not. It also knows the namespace in which names are looked up. Behind a script all this is as
before, but for the scope of the script itself, which stays unless the checker remembered the script.
Findings are only ever added. The one way out of balance is a comment that should declare variables and
cannot: what failed in it is not undone, and checking goes on with its scopes. Such a comment is among
the findings.
-/

namespace ArmaScript

namespace Checker

/-- A shape with one more scope in a namespace. -/
def Shape.push (s : Shape) (space : Space) : Shape :=
  { s with depth := Function.update s.depth space (s.depth space + 1) }

lemma shape_enter (c : Checker) (space : Space) (vars : List (String × Value)) (inDoubt : Bool) :
    (c.enter space vars inDoubt).shape =
      ⟨space, c.doubt + inDoubt.toNat, (c.shape.push space).depth⟩ := by
  have hlength : ((c.spaces.stack space).push vars).scopes.length = c.shape.depth space + 1 :=
    List.length_append
  simp only [enter, shape, Shape.push, Shape.mk.injEq, true_and]
  funext other
  rw [Namespaces.stack_setStack, Function.update_apply]
  split
  · exact hlength
  · rfl

variable {c c' : Checker}

/-- A checker that is back in the shape with which it entered a scope is back in its shape before, when
the scope is taken away. -/
lemma shape_leave {space : Space} {vars : List (String × Value)} {inDoubt : Bool}
    {left : Stack Value} (hshape : c'.shape = (c.enter space vars inDoubt).shape)
    (hpop : (c'.spaces.stack space).pop = .ok left) (run : RunKey) (v : Value) :
    (c'.leave (c'.spaces.setStack space left) c.current inDoubt run v).shape = c.shape := by
  rw [shape_enter] at hshape
  have hdoubt : c'.doubt = c.doubt + inDoubt.toNat := congrArg Shape.doubt hshape
  have hdepth : c'.shape.depth = (c.shape.push space).depth :=
    (congrArg Shape.depth hshape :)
  have hleft : left.scopes.length = c.shape.depth space := by
    have hspace : c'.shape.depth space = c.shape.depth space + 1 := by
      rw [hdepth]
      exact Function.update_self space _ _
    unfold Stack.pop at hpop
    split at hpop
    · cases hpop
    · cases hpop
      rw [List.length_dropLast]
      exact Nat.sub_eq_of_eq_add hspace
  calc (c'.leave (c'.spaces.setStack space left) c.current inDoubt run v).shape
    _ = ⟨c.current, c'.doubt - inDoubt.toNat,
          Function.update c'.shape.depth space left.scopes.length⟩ := by
      have hset := shape_setStack c' space left
      exact congrArg (Shape.mk _ _) (congrArg Shape.depth hset)
    _ = c.shape := by
      rw [hdoubt, Nat.add_sub_cancel, hdepth, hleft, Shape.push, Function.update_idem,
        Function.update_eq_self]
      rfl

/-- A checker that comes back from a file keeps its scope. -/
lemma shape_leave_file {space : Space} {vars : List (String × Value)}
    (hshape : c'.shape = (c.enter space vars false).shape) (run : RunKey) (v : Value) :
    (c'.leave c'.spaces c.current false run v).shape = c.shape.push space := by
  rw [shape_enter] at hshape
  have hdoubt : c'.doubt = c.doubt := congrArg Shape.doubt hshape
  have hdepth : c'.shape.depth = (c.shape.push space).depth :=
    (congrArg Shape.depth hshape :)
  calc (c'.leave c'.spaces c.current false run v).shape
    _ = ⟨c.current, c'.doubt, c'.shape.depth⟩ := rfl
    _ = c.shape.push space := by
      rw [hdoubt, hdepth]
      rfl

end Checker

namespace Check

/-- Findings without a warning about a comment that should declare variables. -/
def WellCommented (findings : Array Diagnostic) : Prop :=
  ∀ d ∈ findings, ∀ word ∈ commentWords, d.text ≠ malformedComment word

variable {ds es : Array Diagnostic} {s t : CheckState}

lemma WellCommented.left (h : WellCommented (ds ++ es)) : WellCommented ds :=
  fun d hd => h d (Array.mem_append_left es hd)

lemma WellCommented.right (h : WellCommented (ds ++ es)) : WellCommented es :=
  fun d hd => h d (Array.mem_append_right ds hd)

/-- The second state has all findings of the first. If those that were added have no warning about a
comment, its shape is the given one. -/
def Reaches (s t : CheckState) (shape : Checker.Shape) : Prop :=
  ∃ more, t.checker.findings = s.checker.findings ++ more ∧
    (WellCommented more → t.checker.shape = shape)

lemma Reaches.trans {u : CheckState} {shape : Checker.Shape} (h1 : Reaches s t shape)
    (h2 : Reaches t u t.checker.shape) : Reaches s u shape := by
  obtain ⟨more1, hmore1, hshape1⟩ := h1
  obtain ⟨more2, hmore2, hshape2⟩ := h2
  refine ⟨more1 ++ more2, ?_, fun h => (hshape2 h.right).trans (hshape1 h.left)⟩
  rw [hmore2, hmore1, Array.append_assoc]

/-- The law of bookkeeping: findings are only added, and the shape is as before, unless a warning about
a comment was added. -/
def bookkeeping : Law where
  Returned s t := Reaches s t s.checker.shape
  Failed s t := ∃ more, t.checker.findings = s.checker.findings ++ more
  refl s := ⟨#[], Array.append_empty.symm, fun _ => rfl⟩
  trans h1 h2 := h1.trans h2
  failed := fun ⟨more, hmore, _⟩ => ⟨more, hmore⟩
  failed_trans := by
    rintro s t u ⟨more1, hmore1⟩ ⟨more2, hmore2⟩
    exact ⟨more1 ++ more2, by rw [hmore2, hmore1, Array.append_assoc]⟩
  steady h := by
    obtain ⟨more, hmore⟩ := h.findings
    exact ⟨more, hmore, fun _ => h.shape⟩
  loose hfindings _ := ⟨#[], by rw [hfindings, Array.append_empty]⟩
  scope := by
    rintro s t space vars inDoubt left run v - ⟨more, hmore, hshape⟩ hpop
    exact ⟨more, hmore, fun hclean => Checker.shape_leave (hshape hclean) hpop run v⟩
  recover := by
    rintro s t word place hword ⟨more, hmore⟩
    refine ⟨more.push ⟨.warning, place, malformedComment word⟩, ?_, fun hclean => ?_⟩
    · rw [Checker.report, hmore, Array.append_push]
    · exact absurd rfl (hclean _ (Array.mem_push_self) word hword)

lemma atomAt_eq_ok {p : Position} {a : Atom} {v : Value} (h : atomAt p a s = .ok v t) :
    v.kind = a.kind ∧ t.checker = s.checker := by
  obtain ⟨u, s1, hatom, h⟩ := bind_eq_ok.mp h
  obtain ⟨⟨⟩, s2, hplace, h⟩ := bind_eq_ok.mp h
  obtain ⟨rfl, rfl⟩ := pure_eq_ok.mp h
  refine ⟨?_, (checker_of_stored hplace).trans (checker_of_stored hatom)⟩
  cases hatom
  rfl

/-- A file that is run leaves its scope behind, and one that is remembered does not even enter it. -/
lemma reaches_file {depth : Nat} {body : Body} (hfile : body.isFile = true) {bindings : Bindings}
    {space : Space} {v : Value}
    (h : askWithin depth (.code body bindings space false) s = .ok v t) :
    Reaches s t (if (s.checker.outcomes.get? (runKey body.children bindings)).isSome
      then s.checker.shape else s.checker.shape.push space) := by
  cases depth with
  | zero => cases h
  | succ depth =>
    obtain ⟨s1, s2, pending, hpending, houtcome, hfinish⟩ := runCode_eq_ok h
    have hfinished : Keeps bookkeeping
        (if body.isFile then finishFile (askWithin depth) false else pure ()) :=
      .ite (keeps_finishFile _ _) (.pure _)
    refine Reaches.trans ?_ (hfinished.of_ok hfinish)
    have hfindings : s1.checker.findings = s.checker.findings := by rw [hpending]
    have hshape : s1.checker.shape = s.checker.shape := by rw [hpending]; rfl
    obtain ⟨hget, rfl⟩ | ⟨hget, hanew⟩ := houtcome
    · rw [hget, Option.isSome_some, if_pos rfl]
      exact ⟨#[], by rw [hfindings, Array.append_empty], fun _ => hshape⟩
    · obtain ⟨vars, s', spaces, hrun, hcloses, rfl⟩ := runAnew_eq_ok hanew
      obtain rfl := hcloses.file hfile
      have hbody : Keeps bookkeeping (runBody (askWithin depth) body) :=
        keeps_runBody (keeps_askWithin depth) body
      obtain ⟨more, hmore, hentered⟩ := hbody.of_ok hrun
      rw [hget, Option.isSome_none, if_neg Bool.false_ne_true, ← hshape]
      refine ⟨more, ?_, fun hclean => Checker.shape_leave_file (hentered hclean) _ v⟩
      rw [← hfindings]
      exact hmore

/-- The run of a script that a checker may remember. -/
def scriptRun (script : Script) : RunKey :=
  (Tree.textList script.tree.children, [(some "_this", .anything)])

lemma readScript_eq_ok {text : String} {script : Script} (h : readScript text s = .ok script t) :
    Script.read text s.store.nextId = .ok script ∧ t.checker = s.checker := by
  rw [readScript, bind_of_eq_ok (x := get) rfl] at h
  obtain ⟨script', s1, hread, h⟩ := bind_eq_ok.mp h
  obtain ⟨⟨⟩, s2, hadopt, h⟩ := bind_eq_ok.mp h
  obtain ⟨rfl, rfl⟩ := pure_eq_ok.mp h
  cases hscript : Script.read text s.store.nextId with
  | error e =>
    rw [hscript] at hread
    cases hread
  | ok script =>
    rw [hscript] at hread
    cases hread
    exact ⟨rfl, checker_of_stored hadopt⟩

/-- A checker that has seen nothing yet. -/
def unused : CheckState :=
  ⟨.empty, [], .ofVariables []⟩

/-- Nothing is left over that has to be reported at the end of a file. -/
structure Idle (s : CheckState) : Prop where
  uses : s.uses = []
  pending : s.checker.pending = []
  privates : s.checker.privates = []
  helpers : s.checker.helpers = []

lemma finishFile_eq {ask : Ask} (h : Idle s) (inDoubt : Bool) :
    finishFile ask inDoubt s = .ok () s := by
  unfold finishFile
  refine bind_eq rfl ?_
  rw [h.pending]
  refine bind_eq rfl (bind_eq rfl ?_)
  rw [h.privates]
  refine bind_eq rfl (bind_eq rfl ?_)
  rw [h.helpers]
  refine bind_eq rfl ?_
  cases inDoubt with
  | true => rfl
  | false =>
    refine bind_eq rfl ?_
    rw [h.uses]
    rfl

/-- The state in which a checker that has seen nothing runs the statements of a script. -/
def opened (script : Script) : CheckState :=
  ⟨⟨script.nextId + 2, ((Store.empty.setPlaces script.places).places.insert script.nextId .start).insert
      (script.nextId + 1) .start, ∅, ∅⟩, [],
    (Checker.ofVariables []).enter .mission [("_this", .atom (script.nextId + 1) .anything)] false⟩

def finished (script : Script) (v : Value) (s : CheckState) : CheckState :=
  { s with checker := s.checker.leave s.checker.spaces .mission false (scriptRun script) v }

/-- A script is checked to its end if its statements are and nothing is left over. -/
lemma ends_check {text : String} {script : Script} {p : Value → CheckState → Prop}
    (hread : Script.read text 0 = .ok script)
    (hbody : Ends (runBody (askWithin 99999) ⟨script.nextId, script.tree.children, true⟩)
      (opened script) fun v s => Idle s ∧ p v s) :
    Ends (check text) unused fun _ t => ∃ v s, p v s ∧ t = finished script v s := by
  obtain ⟨v, s, hbody, hidle, hp⟩ := hbody
  have hidle : Idle (finished script v s) :=
    ⟨hidle.uses, hidle.pending, hidle.privates, hidle.helpers⟩
  have hlift : lift (Script.read text 0) unused = .ok script unused := by
    rw [hread]
    rfl
  refine .step (bind_eq rfl (bind_eq hlift rfl)) (.step rfl (.step rfl (.step rfl (.map ?_))))
  change Ends (runCode (askWithin 99999) ⟨script.nextId, script.tree.children, true⟩
    (named [("_this", .atom (script.nextId + 1) .anything)]) .mission false)
    { opened script with checker := .ofVariables [] } _
  have hcloses : Closes ⟨script.nextId, script.tree.children, true⟩ .mission _ s.checker.spaces :=
    ⟨fun _ => rfl, fun h => Bool.noConfusion h⟩
  refine ends_runCode (by simp [opened]) rfl fun key => .of_eq (runAnew_of_runBody hbody hcloses) ?_
  exact .of_eq (finishFile_eq hidle false) ⟨v, s, hp, rfl⟩

lemma check_nothing : Ends (check "") unused fun _ s => s.checker.findings = #[] := by
  have hread : Script.read "" 0 = .ok ⟨.statement 1 false none [], 2⟩ := rfl
  refine (ends_check (p := fun _ s => s.checker.findings = #[]) hread ?_).mono ?_
  · obtain ⟨place, hplace⟩ :=
      @exists_place (opened ⟨.statement 1 false none [], 2⟩) 2 (by simp [opened])
    exact .step hplace (.of_eq rfl ⟨⟨rfl, rfl, rfl, rfl⟩, rfl⟩)
  · rintro _ _ ⟨v, s, hs, rfl⟩
    exact hs

end Check

end ArmaScript
