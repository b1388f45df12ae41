import ArmaScript.Proofs.Checking
import Mathlib

/-!
# Remembered runs

A checker remembers the outcome of code by its text and by the names and kinds of the variables that
the code was given. What it remembers it never forgets or replaces, whatever else it is asked, so
code with the same text is not looked at again: neither at another place nor when the variables that
it sees have other kinds by then. Checkers of their own, for code that is not run, remember for
themselves.
-/

namespace ArmaScript

def CheckState.Remembers (run : RunKey) (v : Value) (s : CheckState) : Prop :=
  s.checker.outcomes.get? run = some v

namespace Check

variable {run : RunKey} {u : Value} {ask : Ask}
  {s s' : CheckState} {inDoubt : Bool} {v : Value} {bindings : Bindings} {place : Position}

/-- What is remembered stays so while other code is run anew and its outcome remembered. -/
lemma remembers_leave {t : CheckState} {key : RunKey} {spaces : Namespaces Value}
    {previous : Space} (hnew : s.checker.outcomes.get? key = none) (hs : s.Remembers run u)
    (ht : t.Remembers run u) : CheckState.Remembers run u
      { t with checker := t.checker.leave spaces previous inDoubt key v } := by
  have hkey : key ≠ run := by
    rintro rfl
    cases hnew.symm.trans hs
  refine (Table.get?_put _ _ _ _).trans ?_
  rw [if_neg hkey]
  exact ht

/-- The law of memory: what a checker remembers it never forgets or replaces, also if it fails. -/
def remembering (run : RunKey) (u : Value) : Law where
  Returned s t := s.Remembers run u → t.Remembers run u
  Failed s t := s.Remembers run u → t.Remembers run u
  refl _ := id
  trans h1 h2 := h2 ∘ h1
  failed := id
  failed_trans h1 h2 := h2 ∘ h1
  steady h hs := (congrArg (Table.get? · run) h.outcomes).trans hs
  loose _ houtcomes hs := (congrArg (Table.get? · run) houtcomes).trans hs
  scope _ hnew h _ hs := remembers_leave hnew hs (h hs)
  recover _ _ h := h

lemma remembering_askWithin (depth : Nat) (question : Question) :
    Keeps (remembering run u) (askWithin depth question) := by
  cases depth with
  | zero => exact .throw _
  | succ depth =>
    cases question with
    | token v => exact keeps_tokenOf (keeps_askWithin depth) v
    | value v => exact keeps_valueOf (keeps_askWithin depth) v
    | code body bindings space inDoubt =>
      refine keeps_runCode_of_anew (keeps_askWithin depth) fun {s t v} hnew h hs => ?_
      obtain ⟨vars, s', spaces, hrun, -, rfl⟩ := runAnew_eq_ok h
      have hbody : Keeps (remembering run u) (runBody (askWithin depth) body) :=
        keeps_runBody (keeps_askWithin depth) body
      exact remembers_leave hnew hs (hbody.of_ok hrun hs)

variable {body : Body} {space : Space}

/-- After code was run, its outcome is remembered. -/
lemma remembers_of_runAnew (h : runAnew ask body bindings space inDoubt s = .ok v s') :
    s'.Remembers (runKey body.children bindings) v := by
  obtain ⟨vars, s', spaces, -, -, rfl⟩ := runAnew_eq_ok h
  refine (Table.get?_put _ _ _ _).trans ?_
  rw [if_pos rfl]

lemma remembers_of_runCode (h : runCode ask body bindings space inDoubt s = .ok v s') :
    s'.Remembers (runKey body.children bindings) v := by
  obtain ⟨s1, s2, pending, hpending, houtcome, hfinish⟩ := runCode_eq_ok h
  have hremembers : s2.Remembers (runKey body.children bindings) v := by
    obtain ⟨hget, rfl⟩ | ⟨-, hanew⟩ := houtcome
    · rw [CheckState.Remembers, hpending]
      exact hget
    · exact remembers_of_runAnew hanew
  have hkeeps : Keeps (remembering (runKey body.children bindings) v)
      (if body.isFile then finishFile ask inDoubt else pure ()) :=
    .ite (keeps_finishFile ask inDoubt) (.pure _)
  exact hkeeps.of_ok hfinish hremembers

/-- Code whose outcome is remembered is not looked at: it only is no longer code that was not run.
-/
lemma runCode_of_remembers (hcode : body.isFile = false)
    (hplace : s.store.places[body.id]? = some place)
    (h : s.Remembers (runKey body.children bindings) v) :
    runCode ask body bindings space inDoubt s = .ok v { s with checker := { s.checker with
      pending := s.checker.pending.remove (place, Tree.textList body.children) } } := by
  have hkey : codeKey body.id body.children s = .ok (place, Tree.textList body.children) s :=
    bind_eq_ok.mpr ⟨place, s, stored_placeOf hplace, rfl⟩
  rw [runCode_eq]
  refine (bind_of_eq_ok hkey).trans ((bind_of_eq_ok (x := modifyChecker _) (a := ()) rfl).trans ?_)
  refine (bind_of_eq_ok (x := checker) rfl).trans ?_
  have hget : s.checker.outcomes.get? (runKey body.children bindings) = some v := h
  dsimp only
  rw [hget, hcode]
  rfl

/-- States that a checker comes to: it is asked questions, some of which it fails on, and in between
all but what it remembers may change. -/
inductive Later (s : CheckState) : CheckState → Prop
  | refl : Later s s
  | answered {s' s'' : CheckState} {depth : Nat} {question : Question} {v : Value} (h : Later s s')
      (hask : askWithin depth question s' = .ok v s'') : Later s s''
  | failed {s' s'' : CheckState} {depth : Nat} {question : Question} {e : Fault} (h : Later s s')
      (hask : askWithin depth question s' = .error e s'') : Later s s''
  | changed {s' s'' : CheckState} (h : Later s s')
      (hsame : s''.checker.outcomes = s'.checker.outcomes) : Later s s''

lemma Later.remembers (h : Later s s') (hs : s.Remembers run u) : s'.Remembers run u := by
  induction h with
  | refl => exact hs
  | answered h hask ih => exact (remembering_askWithin _ _).of_ok hask ih
  | failed h hask ih => exact (remembering_askWithin _ _).of_error hask ih
  | changed h hsame ih => exact (congrArg (Table.get? · run) hsame).trans ih

/-- Code is checked once. After code was run to its end, a run of code with the same text, on given
variables of the same names and kinds, gives the outcome of the first run and reports nothing: it
reads no variable, whatever the variables are by then, in whatever namespace and at whatever place.
-/
theorem code_checked_once {depth : Nat} {body : Body} {bindings : Bindings} {space : Space}
    {inDoubt : Bool} {s₀ s s' : CheckState} {v : Value}
    (hrun : askWithin depth (.code body bindings space inDoubt) s₀ = .ok v s) (hlater : Later s s')
    {body' : Body} {bindings' : Bindings} {place : Position} (hcode : body'.isFile = false)
    (hplace : s'.store.places[body'.id]? = some place)
    (htext : Tree.textList body'.children = Tree.textList body.children)
    (hkinds : bindings'.map (fun x => (x.1, x.2.kind)) = bindings.map fun x => (x.1, x.2.kind))
    (depth' : Nat) (space' : Space) (inDoubt' : Bool) :
    askWithin (depth' + 1) (.code body' bindings' space' inDoubt') s' =
      .ok v { s' with checker := { s'.checker with
        pending := s'.checker.pending.remove (place, Tree.textList body.children) } } := by
  have hkey : runKey body'.children bindings' = runKey body.children bindings :=
    Prod.ext htext hkinds
  have hremembers : s.Remembers (runKey body.children bindings) v := by
    cases depth with
    | zero => cases hrun
    | succ depth => exact remembers_of_runCode hrun
  rw [← htext]
  exact runCode_of_remembers hcode hplace (hkey ▸ hlater.remembers hremembers)

/-! ### A stray name -/

/-- Code that reads a local name. -/
def strayName (id nameId : NodeId) : Body :=
  ⟨id, [.atom nameId (.var "_x")], false⟩

/-- A checker without variables, with places for two such pieces of code and the name in the first.
-/
def stray : CheckState :=
  ⟨⟨4, .insert (.insert (.insert ∅ 0 ⟨1, 1⟩) 1 ⟨1, 2⟩) 2 ⟨2, 1⟩, ∅, ∅⟩, [], .ofVariables []⟩

lemma ask_stray : ∃ v s, askWithin 2 (.code (strayName 0 1) [] .mission false) stray = .ok v s ∧
    s.checker.findings.size = 1 := by
  obtain ⟨v, s, hrun, hsize⟩ := exists_of_endsWell (x := askWithin 2 (.code (strayName 0 1) [] .mission
    false)) (s := stray) (t := fun _ s => s.checker.findings.size == 1) (by cbv)
  exact ⟨v, s, hrun, of_decide_eq_true hsize⟩

/-- The name has got a value, a text. -/
def withText (s : CheckState) : CheckState :=
  { s with
    store := stray.store
    checker := { s.checker with
      spaces := .ofVariables [("_x", .atom 3 (.string (some ⟨'"', "a"⟩)))] } }

/-- Code with a stray name is reported, and the same code on the next line is not, although it is
run in another namespace and the name is a text by then. -/
theorem code_checked_once_stray : ∃ v s,
    askWithin 2 (.code (strayName 0 1) [] .mission false) stray = .ok v s ∧
      s.checker.findings.size = 1 ∧
      ∃ s', askWithin 1 (.code (strayName 2 1) [] .ui true) (withText s) = .ok v s' ∧
        s'.checker.findings.size = 1 := by
  obtain ⟨v, s, hrun, hfindings⟩ := ask_stray
  have hlater : Later s (withText s) := .changed .refl rfl
  have hplace : (withText s).store.places[2]? = some ⟨2, 1⟩ := by grind [withText, stray]
  have htext : Tree.textList (strayName 2 1).children = Tree.textList (strayName 0 1).children :=
    rfl
  exact ⟨v, s, hrun, hfindings, _,
    code_checked_once hrun hlater rfl hplace htext rfl 0 .ui true, hfindings⟩

end Check

end ArmaScript
