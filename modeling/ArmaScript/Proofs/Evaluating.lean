import ArmaScript.Proofs.Discipline
import ArmaScript.Proofs.FormulaValue

/-!
# What evaluation keeps

A relation between worlds that holds across each single step of evaluation is a law, and it holds between
the worlds before and behind every evaluation that returns: to keep a law is a discipline, for which all
values are good.
-/

namespace ArmaScript

namespace Run

variable {α β : Type}

/-- A computation that, when it returns, leads to a world related to the one it started in. -/
def Leads (R : World → World → Prop) (m : Run α) : Prop :=
  ∀ w a w', m w = .ok a w' → R w w'

/-- A relation between worlds that holds across the single steps of evaluation. -/
structure Law where
  Rel : World → World → Prop
  refl (w : World) : Rel w w
  trans {w1 w2 w3 : World} : Rel w1 w2 → Rel w2 w3 → Rel w1 w3
  store (w : World) (s : Store) : Rel w { w with store := s }
  network (w : World) (n : Option Network) : Rel w { w with network := n }
  listeners (w : World) (f : Machine → Table String Value) :
    Rel w { w with machines := w.machines.modify w.active fun m => { m with listeners := f m } }
  assign (space : Space) (name : String) (v : Value) : Leads Rel (assign space name v)
  assignTop (name : String) (v : Value) : Leads Rel (assignTop name v)
  /-- Only names that are not local are public. -/
  setGlobal {name : String} (h : isLocalName name = false) (v : Value) : Leads Rel (setGlobal name v)
  visit {w w' : World} {i : Nat} :
    Rel { w with active := i } w' → Rel w { w' with active := w.active }
  inScope {α : Type} (space : Space) (vars : List (String × Value)) {m : Run α} :
    Leads Rel m → Leads Rel (inScope space vars m)

variable {L : Law}

abbrev Keeps (L : Law) (m : Run α) : Prop :=
  Obeys (.ofReturned L.Rel L.refl fun _ _ _ => L.trans) m

lemma Leads.keeps {m : Run α} (h : Leads L.Rel m) : Keeps L m :=
  ⟨h _ _ _, fun _ => trivial⟩

lemma Keeps.leads {m : Run α} (h : Keeps L m) : Leads L.Rel m :=
  fun _ _ _ => h.of_ok

/-! ### Single steps -/

lemma keeps_get : Keeps L (get : Run World) :=
  .get

lemma keeps_lift (x : Except Fault α) : Keeps L (lift x) := by
  cases x with
  | ok a => exact .pure a
  | error e => exact .throw e

lemma keeps_stored (m : Stored α) : Keeps L (stored m) := by
  refine Leads.keeps fun w a w' h => ?_
  obtain ⟨s, -, rfl⟩ := stored_eq_ok.mp h
  exact L.store w s

/-- To keep a law is a discipline. All values belong to everything, so nothing is asked of them. -/
def Law.discipline (L : Law) : Discipline .everything where
  Holds m post := Keeps L m ∧ ∀ w a w', m w = .ok a w' → post a
  pure h := ⟨.pure _, fun _ _ _ hpure => (pure_eq_ok.mp hpure).1 ▸ h⟩
  throw e := ⟨.throw e, fun _ _ _ h => absurd h throw_ne_ok⟩
  bind {_ _ x f _ _} hx hf := by
    constructor
    · refine Leads.keeps fun w b w' h => ?_
      obtain ⟨a, w1, h1, h2⟩ := bind_eq_ok.mp h
      exact L.trans (hx.1.of_ok h1) ((hf a (hx.2 w a w1 h1)).1.of_ok h2)
    · intro w b w' h
      obtain ⟨a, w1, h1, h2⟩ := bind_eq_ok.mp h
      exact (hf a (hx.2 w a w1 h1)).2 w1 b w' h2
  get := ⟨keeps_get, fun _ _ _ _ _ _ _ _ v _ => Region.owns_everything v⟩
  stored _ hall := ⟨keeps_stored _, fun _ a _ _ => hall Region.owns_everything (fun _ => trivial) a⟩
  machine := by
    refine ⟨Leads.keeps fun w a w' h => ?_, fun _ _ _ _ => Region.within_everything _⟩
    obtain ⟨-, rfl⟩ := machine_eq_ok.mp h
    exact L.refl w'
  assign space name v _ := ⟨(L.assign space name v).keeps, fun _ _ _ _ => trivial⟩
  assignTop name v _ := ⟨(L.assignTop name v).keeps, fun _ _ _ _ => trivial⟩
  Public name := isLocalName name = false
  public_of_not_local h := h
  setGlobal hname v _ := ⟨(L.setGlobal hname v).keeps, fun _ _ _ _ => trivial⟩
  listen name v _ := by
    refine ⟨Leads.keeps fun w u w' h => ?_, fun _ _ _ _ => trivial⟩
    obtain rfl := modifyMachine_eq_ok.mp h
    exact L.listeners w _
  network _ _ := ⟨.modify fun w => L.network w _, fun _ _ _ _ => trivial⟩
  onMachine _ _ _ hm := by
    constructor
    · refine Leads.keeps fun w a w' h => ?_
      obtain ⟨w1, h1, rfl⟩ := onMachine_eq_ok.mp h
      exact L.visit (hm.1.of_ok h1)
    · intro w a w' h
      obtain ⟨w1, h1, -⟩ := onMachine_eq_ok.mp h
      exact hm.2 _ _ _ h1
  inScope space vars _ _ _ hm := by
    refine ⟨(L.inScope space vars hm.1.leads).keeps, fun w a w' h => ?_⟩
    obtain ⟨w1, w2, w3, w4, previous, -, -, hrun, -⟩ := inScope_eq_ok h
    exact hm.2 _ _ _ hrun

end Run

/-- Answers to all requests, those to run a file apart, that obey a law. -/
def Answer.Keeps (L : Run.Law) (answer : Answer) : Prop :=
  ∀ r : Request, r.leavesScope = false → Run.Keeps L (answer r)

namespace Run

variable {L : Law}

/-- The statements of code are run one after the other. -/
lemma keeps_statements {answer : Answer} (hanswer : answer.Keeps L) (statements : List Tree)
    (outcome : Value) :
    Keeps L (statements.foldlM (fun _ t => do valueOf (← answer (.node t))) outcome) := by
  have hfollows : answer.Follows L.discipline := fun r hr _ =>
    ⟨hanswer r hr, fun _ v _ _ => Region.owns_everything v⟩
  exact (follows_statements hfollows (Region.quietList_everything statements)
    (Region.owns_everything outcome)).1

/-- Answering obeys every law, at every depth of nesting. -/
lemma keeps_answerWithin (depth : Nat) : (answerWithin depth).Keeps L := by
  intro r hr
  refine (follows_answerWithin L.discipline depth r hr ?_).1
  cases r with
  | code body vars space =>
    exact ⟨Region.quietList_everything _, fun x _ => Region.owns_everything x.2⟩
  | node t | statement t => exact Region.quiet_everything t

end Run

end ArmaScript
