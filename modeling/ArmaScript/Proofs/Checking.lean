import ArmaScript.Check.Statement
import ArmaScript.Proofs.Running
import Mathlib.Logic.Function.Basic

/-!
# What checking keeps

A checker works in single steps: most change neither how many scopes there are nor what is remembered,
and only add findings. Code is run in a scope of its own, which is taken away behind it, and its outcome
is remembered. A failure leaves everything as it is at that moment and stops the checker, but for one
place: a comment that should declare variables and cannot becomes a warning, and checking goes on. A law
is a relation between states that these steps obey; it holds across all that a checker is asked.
-/

namespace ArmaScript

lemma Stored.placeOf_eq {s : Store} {id : NodeId} {place : Position}
    (h : s.places[id]? = some place) : Stored.placeOf id s = .ok place s := by
  refine (bind_of_eq_ok (x := get) (a := s) rfl).trans ?_
  rw [h]
  rfl

/-- What a checker keeps account of: the namespace in which names are looked up, how many of the pieces
of code around may be run or not, and how many scopes each namespace has. The scopes of a stack are its
levels in order, so their number tells all levels there are. -/
structure Checker.Shape where
  current : Space
  doubt : Nat
  depth : Space → Nat

namespace Checker

def shape (c : Checker) : Shape :=
  ⟨c.current, c.doubt, fun space => (c.spaces.stack space).scopes.length⟩

lemma shape_setStack (c : Checker) (space : Space) (s : Stack Value) :
    shape { c with spaces := c.spaces.setStack space s } =
      { c.shape with depth := Function.update c.shape.depth space s.scopes.length } := by
  simp only [shape, Shape.mk.injEq, true_and]
  funext other
  rw [Namespaces.stack_setStack, Function.update_apply]
  split <;> rfl

/-- A change that keeps the shape and what is remembered, and takes no finding back. -/
structure Steady (c c' : Checker) : Prop where
  shape : c'.shape = c.shape
  outcomes : c'.outcomes = c.outcomes
  findings : ∃ more, c'.findings = c.findings ++ more

lemma Steady.of_findings_eq {c c' : Checker} (hshape : c'.shape = c.shape)
    (houtcomes : c'.outcomes = c.outcomes) (hfindings : c'.findings = c.findings) : Steady c c' :=
  ⟨hshape, houtcomes, #[], by rw [hfindings, Array.append_empty]⟩

lemma Steady.refl (c : Checker) : Steady c c :=
  .of_findings_eq rfl rfl rfl

lemma Steady.trans {c1 c2 c3 : Checker} (h1 : Steady c1 c2) (h2 : Steady c2 c3) : Steady c1 c3 := by
  obtain ⟨more1, hmore1⟩ := h1.findings
  obtain ⟨more2, hmore2⟩ := h2.findings
  refine ⟨h2.shape.trans h1.shape, h2.outcomes.trans h1.outcomes, more1 ++ more2, ?_⟩
  rw [hmore2, hmore1, Array.append_assoc]

def report (c : Checker) (d : Diagnostic) : Checker :=
  { c with findings := c.findings.push d }

/-- A checker that goes on in a scope of its own. -/
def enter (c : Checker) (space : Space) (vars : List (String × Value)) (inDoubt : Bool) : Checker :=
  { c with
    current := space
    doubt := c.doubt + inDoubt.toNat
    spaces := c.spaces.setStack space ((c.spaces.stack space).push vars) }

/-- A checker that is back from running code and remembers the outcome. -/
def leave (c : Checker) (spaces : Namespaces Value) (previous : Space) (inDoubt : Bool) (run : RunKey)
    (v : Value) : Checker :=
  { c with
    current := previous
    doubt := c.doubt - inDoubt.toNat
    spaces := spaces
    outcomes := c.outcomes.put run v }

end Checker

namespace Check

variable {α : Type} {ask : Ask}

/-- The warning about a comment that should declare variables. -/
def malformedComment (word : String) : String :=
  word ++ " comment must be `//" ++ word ++ " [\"var1\",...]`"

/-- A relation between states that holds across the single steps of a checker, with one for steps that
fail. -/
structure Law extends Conduct CheckState where
  steady {s t : CheckState} : s.checker.Steady t.checker → Returned s t
  /-- What fails may do so in a scope that is then not taken away. -/
  loose {s t : CheckState} : t.checker.findings = s.checker.findings →
    t.checker.outcomes = s.checker.outcomes → Failed s t
  scope {s t : CheckState} {space : Space} {vars : List (String × Value)} {inDoubt : Bool}
    {left : Stack Value} {run : RunKey} (v : Value) (hnew : s.checker.outcomes.get? run = none)
    (h : Returned { s with checker := s.checker.enter space vars inDoubt } t)
    (hpop : (t.checker.spaces.stack space).pop = .ok left) :
    Returned s { t with
      checker := t.checker.leave (t.checker.spaces.setStack space left) s.checker.current inDoubt run v }
  recover {s t : CheckState} {word : String} (place : Position) (hword : word ∈ commentWords)
    (h : Failed s t) :
    Returned s { t with checker := t.checker.report ⟨.warning, place, malformedComment word⟩ }

variable {L : Law}

abbrev Keeps (L : Law) (m : Check α) : Prop :=
  Obeys L.toConduct m

/-! ### Single steps -/

lemma keeps_lift (x : Except Fault α) : Keeps L (lift x) := by
  cases x with
  | ok a => exact .pure a
  | error e => exact .throw e

lemma keeps_stored (m : Stored α) : Keeps L (stored m) := by
  refine .of_change fun s => ?_
  unfold stored
  dsimp only
  cases m s.store with
  | ok a store | error e store => exact L.steady (.refl _)

variable {s t : CheckState} {f : Stack Value → Except Fault (Stack Value)}

lemma checker_of_stored {m : Stored α} {a : α} (h : stored m s = .ok a t) :
    t.checker = s.checker := by
  unfold stored at h
  dsimp only at h
  cases hm : m s.store with
  | ok b store =>
    rw [hm] at h
    cases h
    rfl
  | error e store =>
    rw [hm] at h
    cases h

lemma stored_placeOf {id : NodeId} {place : Position} (h : s.store.places[id]? = some place) :
    stored (.placeOf id) s = .ok place s := by
  unfold stored
  dsimp only
  rw [Stored.placeOf_eq h]

lemma keeps_checker : Keeps L checker :=
  Obeys.get.seq_pure

lemma keeps_modifyChecker {f : Checker → Checker} (hf : ∀ c, Checker.Steady c (f c)) :
    Keeps L (modifyChecker f) :=
  .modify fun s => L.steady (hf s.checker)

lemma keeps_modifyUses {f : CheckState → CheckState} (hf : ∀ s, (f s).checker = s.checker) :
    Keeps L (modify f : Check Unit) := by
  refine .modify fun s => L.steady ?_
  rw [hf]
  exact .refl _

lemma keeps_atomAt (p : Position) (a : Atom) : Keeps L (atomAt p a) :=
  (keeps_stored _).bind fun _ => (keeps_stored _).seq_pure

lemma keeps_anything : Keeps L anything :=
  keeps_stored _

lemma keeps_placeOf (v : Value) : Keeps L (placeOf v) :=
  keeps_stored _

lemma keeps_contentOf (v : Value) : Keeps L (contentOf v) :=
  keeps_stored _

lemma keeps_report (d : Diagnostic) : Keeps L (modifyChecker (·.report d)) :=
  keeps_modifyChecker fun _ => ⟨rfl, rfl, #[d], Array.push_eq_append⟩

lemma keeps_reportError (p : Position) (text : String) : Keeps L (reportError p text) :=
  keeps_report _

lemma keeps_reportWarning (p : Position) (text : String) : Keeps L (reportWarning p text) :=
  keeps_report _

lemma keeps_current : Keeps L current :=
  keeps_checker.seq_pure

lemma keeps_stack (space : Space) : Keeps L (stack space) :=
  keeps_checker.seq_pure

lemma modifyStack_eq_ok {space : Space} {u : Unit} : modifyStack space f s = .ok u t ↔
      ∃ new, f (s.checker.spaces.stack space) = .ok new ∧
        t = { s with checker := { s.checker with spaces := s.checker.spaces.setStack space new } } := by
  refine (iff_of_eq (congrArg (· = _) (bind_of_eq_ok (x := stack space) rfl))).trans ?_
  cases hf : f (s.checker.spaces.stack space) with
  | error e => simp [lift, throw_ne_ok, bind_eq_ok]
  | ok new =>
    refine (iff_of_eq (congrArg (· = _) (bind_of_eq_ok (x := lift (.ok new)) rfl))).trans ?_
    constructor
    · intro h
      cases h
      exact ⟨new, rfl, rfl⟩
    · rintro ⟨new, ⟨⟩, rfl⟩
      rfl

lemma modifyStack_eq_error {space : Space} {e : Fault} (h : modifyStack space f s = .error e t) :
    t = s := by
  rw [modifyStack, bind_of_eq_ok (x := stack space) rfl] at h
  cases hf : f (s.checker.spaces.stack space) with
  | error e =>
    rw [hf] at h
    cases h
    rfl
  | ok new =>
    rw [hf] at h
    cases h

lemma keeps_modifyStack (space : Space)
    (hf : ∀ s s', f s = .ok s' → s'.scopes.length = s.scopes.length) :
    Keeps L (modifyStack space f) := by
  constructor
  · intro s t u h
    obtain ⟨new, hnew, rfl⟩ := modifyStack_eq_ok.mp h
    refine L.steady (.of_findings_eq ?_ rfl rfl)
    rw [Checker.shape_setStack, hf _ _ hnew]
    exact congrArg (Checker.Shape.mk _ _) (Function.update_eq_self _ _)
  · intro s t e h
    obtain rfl := modifyStack_eq_error h
    exact L.failed (L.refl _)

lemma keeps_assignAt (space : Space) (level : Nat) (name : String) (v : Value) :
    Keeps L (modifyStack space fun s => return s.assignAt level name v) := by
  refine keeps_modifyStack space fun s s' h => ?_
  cases h
  exact List.length_modify _ _ _

lemma keeps_assignTop (name : String) (v : Value) : Keeps L (assignTop name v) := by
  refine keeps_current.bind fun space => keeps_modifyStack space fun s s' h => ?_
  obtain ⟨level, -, h⟩ := except_bind_eq_ok.mp h
  cases h
  exact List.length_modify _ _ _

lemma keeps_valueOfName (name : String) : Keeps L (valueOfName name) := by
  refine keeps_current.bind fun space => (keeps_stack space).bind fun s => ?_
  refine (keeps_lift _).bind fun v? => ?_
  cases v? with
  | some v => exact .pure _
  | none => exact keeps_anything

lemma keeps_countUse (space : Space) (level : Nat) (name : String) :
    Keeps L (countUse space level name) := by
  refine keeps_modifyUses fun s => ?_
  dsimp only
  split <;> rfl

lemma keeps_codeKey (id : NodeId) (children : List Tree) : Keeps L (codeKey id children) :=
  (keeps_stored _).seq_pure

lemma keeps_keepCode (id : NodeId) (children : List Tree) : Keeps L (keepCode id children) := by
  refine (keeps_codeKey id children).bind fun key => keeps_checker.bind fun c => ?_
  refine .ite ((keeps_stored _).bind fun spaces => ?_) (.pure _)
  exact keeps_modifyChecker fun _ => .of_findings_eq rfl rfl rfl

lemma keeps_readScript (text : String) : Keeps L (readScript text) := by
  refine Obeys.get.bind fun s => (keeps_lift _).bind fun script => ?_
  exact (keeps_stored _).seq_pure

/-! ### Names and parameters -/

lemma keeps_declareName (declared : Value) (name : String) :
    Keeps L (declareName declared name) := by
  refine (keeps_stored _).bind fun v => (keeps_assignTop name v).bind fun _ => ?_
  refine keeps_current.bind fun space => (keeps_stack space).bind fun s => ?_
  exact (keeps_lift _).bind fun level => keeps_modifyUses fun _ => rfl

lemma keeps_addPrivates (names : List Value) : Keeps L (addPrivates names) := by
  refine (Obeys.forIn (fun v _ => ?_) _ _).seq_pure
  split
  · split
    · exact .throw _
    · refine .ite ?_ ((keeps_placeOf _).bind fun _ => ?_)
      · exact (keeps_declareName _ _).seq_pure
      · exact (keeps_reportError _ _).seq_pure
  · refine (keeps_placeOf _).bind fun _ => ?_
    exact (keeps_reportError _ _).seq_pure

lemma keeps_argumentsOf (v : Value) (count : Nat) : Keeps L (argumentsOf v count) := by
  have hunknown : Keeps L ((List.range count).mapM fun _ => anything) :=
    Obeys.mapM (fun _ => keeps_anything) _
  unfold argumentsOf
  split
  · refine Obeys.get.bind fun s => ?_
    split
    · exact .pure _
    · exact hunknown
  · exact hunknown
  · exact .pure _

lemma keeps_addParam (parameters parameter : Value) (argument : Option Value) :
    Keeps L (addParam parameters parameter argument) := by
  unfold addParam
  split
  · refine .ite ((keeps_addPrivates _).bind fun _ => ?_) (.pure _)
    split
    · exact keeps_assignTop _ _
    · refine (keeps_placeOf _).bind fun _ => Obeys.get.bind fun _ => ?_
      exact keeps_reportWarning _ _
  · refine (keeps_stored _).bind fun parts => ?_
    split
    · refine .ite ((keeps_placeOf _).bind fun _ => keeps_reportError _ _) ?_
      refine (keeps_addPrivates _).bind fun _ => (keeps_contentOf _).bind fun c => ?_
      split
      · exact keeps_assignTop _ _
      · exact .throw _
    · exact (keeps_placeOf _).bind fun _ => keeps_reportError _ _
  · exact (keeps_placeOf _).bind fun _ => keeps_reportError _ _

lemma keeps_addParams (parameters : Value) (given : Option Value) :
    Keeps L (addParams parameters given) := by
  unfold addParams
  split
  · extract_lets rest
    have hrest (source : Value) : Keeps L (rest source) := by
      refine (keeps_stored _).bind fun listed => ?_
      refine (keeps_argumentsOf _ _).bind fun arguments => ?_
      extract_lets loop
      have hloop : Keeps L (loop ()) := by
        refine (Obeys.forIn (fun x _ => ?_) _ _).seq_pure
        exact (keeps_addParam _ _ _).seq_pure
      refine .ite ((keeps_placeOf _).bind fun _ => ?_) hloop
      exact (keeps_reportWarning _ _).bind fun _ => hloop
    cases given with
    | none => exact (keeps_valueOfName _).bind hrest
    | some v =>
      refine .ite ?_ (hrest v)
      exact (keeps_valueOfName _).bind hrest
  · exact .throw _

/-! ### Declarations and assignments -/

lemma keeps_assign (id : NodeId) (name : String) (v : Value) : Keeps L (assign id name v) := by
  refine (keeps_stored _).bind fun place => keeps_current.bind fun space => ?_
  refine (keeps_stack space).bind fun s => (keeps_lift _).bind fun level => ?_
  extract_lets old rest
  have hrest : Keeps L (rest ()) := by
    refine keeps_checker.bind fun c => (keeps_stored _).bind fun new => ?_
    refine (keeps_assignAt _ _ _ _).bind fun _ => ?_
    exact .ite (keeps_reportWarning _ _) (.pure _)
  refine keeps_checker.bind fun c => .ite ?_ hrest
  refine Obeys.bind (keeps_modifyChecker fun _ => ?_) fun _ => hrest
  exact .of_findings_eq rfl rfl rfl

lemma keeps_addPrivate (v : Value) : Keeps L (addPrivate v) := by
  refine Obeys.get.bind fun s => keeps_modifyChecker fun c => ?_
  split <;> exact .of_findings_eq rfl rfl rfl

lemma keeps_removePrivate (v : Value) : Keeps L (removePrivate v) := by
  refine Obeys.get.bind fun s => keeps_checker.bind fun c => ?_
  exact .guard (.throw _) (keeps_modifyChecker fun _ => .of_findings_eq rfl rfl rfl)

lemma keeps_declareAll (word : Tree) (array : Value) : Keeps L (declareAll word array) := by
  refine (keeps_contentOf _).bind fun c => ?_
  split
  · exact keeps_addPrivates _
  · exact (keeps_stored _).bind fun _ => keeps_reportWarning _ _

/-- A checker of its own changes this one only in its findings and in what is kept for later. -/
lemma keeps_inOwnChecker (own : Checker) {settle : Checker → Checker → Checker}
    (hsettle : ∀ inner outer : Checker, outer.Steady (settle inner outer)) (m : Check Unit) :
    Keeps L (inOwnChecker own settle m) := by
  refine .of_change fun s => ?_
  unfold inOwnChecker
  dsimp only
  cases m { s with checker := own } with
  | ok a s' =>
    refine L.steady ((hsettle s'.checker s.checker).trans ⟨rfl, rfl, s'.checker.findings, rfl⟩)
  | error e s' => exact L.steady (hsettle s'.checker s.checker)

lemma keeps_checkPending (ask : Ask) (key : CodeKey) (bindings : Bindings) (alone : Bool) :
    Keeps L (checkPending ask key bindings alone) := by
  refine keeps_checker.bind fun c => ?_
  split
  · exact .throw _
  · refine keeps_inOwnChecker _ (fun inner outer => ?_) _
    cases alone <;> exact .of_findings_eq rfl rfl rfl

lemma keeps_finishFile (ask : Ask) (inDoubt : Bool) : Keeps L (finishFile ask inDoubt) := by
  refine keeps_checker.bind fun c => (Obeys.forIn (fun x _ => ?_) _ _).bind fun _ => ?_
  · exact (keeps_checkPending _ _ _ _).seq_pure
  refine keeps_checker.bind fun c => (Obeys.forIn (fun v _ => ?_) _ _).bind fun _ => ?_
  · refine (keeps_placeOf _).bind fun _ => ?_
    exact (keeps_reportWarning _ _).seq_pure
  refine keeps_checker.bind fun c => (Obeys.forIn (fun v _ => ?_) _ _).bind fun _ => ?_
  · refine (keeps_placeOf _).bind fun _ => ?_
    exact (keeps_reportWarning _ _).seq_pure
  refine .ite (Obeys.get.bind fun s => ?_) (.pure _)
  refine (Obeys.forIn (fun x _ => ?_) _ _).seq_pure
  refine .ite ((keeps_contentOf _).bind fun c => ?_) (.pure _)
  refine (keeps_placeOf _).bind fun _ => ?_
  exact (keeps_reportWarning _ _).seq_pure

end Check

/-- Whether a question is about code whose scope stays. -/
def Question.leavesScope : Question → Bool
  | .code body .. => body.isFile
  | .token _ => false
  | .value _ => false

/-- Answers that keep a law, to all questions but those about files. -/
def Ask.Keeps (L : Check.Law) (ask : Ask) : Prop :=
  ∀ question : Question, question.leavesScope = false → Check.Keeps L (ask question)

namespace Check

variable {α : Type} {ask : Ask} {L : Law}

section

variable (hask : ask.Keeps L)

include hask

lemma keeps_declare (word right : Tree) (otherwise : Value) :
    Keeps L (declare ask word right otherwise) := by
  refine (hask _ rfl).bind fun v => ?_
  split
  · exact (keeps_addPrivates _).seq_pure
  · refine (keeps_stored _).bind fun place => (keeps_atomAt _ _).bind fun text => ?_
    refine (keeps_addPrivates _).bind fun _ => (keeps_stored _).bind fun id => ?_
    refine (keeps_stored _).bind fun _ => (keeps_addPrivate _).seq_pure
  · refine (hask _ rfl).bind fun array => ?_
    exact (keeps_declareAll _ _).seq_pure
  · refine (keeps_stored _).bind fun place => ?_
    exact (keeps_reportError _ _).seq_pure

lemma keeps_checkAssignment (left right : Tree) (ended : Bool) (otherwise : Value) :
    Keeps L (checkAssignment ask left right ended otherwise) := by
  refine (hask _ rfl).bind fun v => ?_
  extract_lets rest
  have hrest (target : Value) : Keeps L (rest target) := by
    unfold rest
    split
    · refine keeps_current.bind fun space => (keeps_stack space).bind fun s => ?_
      refine (keeps_lift _).bind fun level => ?_
      extract_lets finish
      have hfinish : Keeps L (finish ()) :=
        (hask _ rfl).bind fun v => (keeps_assign _ _ _).seq_pure
      refine .ite (keeps_anything.bind fun unknown => ?_) hfinish
      exact (keeps_assignAt _ _ _ _).bind fun _ => hfinish
    · refine (keeps_stored _).bind fun place => ?_
      exact (keeps_reportError _ _).seq_pure
  split
  · exact (keeps_removePrivate _).bind fun _ => hrest _
  · split
    · exact .throw_bind _ _
    · exact hrest _

/-! ### Values -/

omit hask in
lemma keeps_variableValue (id : NodeId) (name : String) : Keeps L (variableValue id name) := by
  refine keeps_current.bind fun space => (keeps_stack space).bind fun s => ?_
  refine (keeps_lift _).bind fun level => ?_
  extract_lets finish rest
  have hfinish (v : Value) : Keeps L (finish v) :=
    (keeps_stored _).bind fun _ => (keeps_countUse _ _ _).seq_pure
  have hrest : Keeps L (rest ()) := by
    unfold rest
    split
    · exact hfinish _
    · exact keeps_anything.bind hfinish
  refine .ite ((keeps_stored _).bind fun _ => ?_) hrest
  exact (keeps_reportWarning _ _).bind fun _ => hrest

omit hask in
lemma keeps_plainValue (v : Value) : Keeps L (plainValue v) := by
  unfold plainValue
  extract_lets rest
  have hrest (result : Value) : Keeps L (rest result) :=
    (keeps_stored _).seq_pure
  split
  · split
    · exact (keeps_stored _).bind hrest
    · exact keeps_anything.bind hrest
  · exact hrest v

omit hask in
lemma keeps_arrayOf (id : NodeId) (elements : List Value) {f : Value → Check Value}
    (hf : ∀ v, Keeps L (f v)) : Keeps L (arrayOf id elements f) := by
  refine (Obeys.mapM hf elements).bind fun vs => (keeps_stored _).bind fun result => ?_
  exact (keeps_stored _).seq_pure

lemma keeps_resolutionValue (id : NodeId) (ts : List Tree) :
    Keeps L (resolutionValue ask id ts) := by
  induction ts with
  | nil => exact .throw _
  | cons t ts ih =>
    unfold resolutionValue
    refine (keeps_stored _).bind fun place => (keeps_stored _).bind fun _ => ?_
    refine (hask _ rfl).bind fun w => (hask _ rfl).bind fun v => ?_
    split
    · exact .pure _
    · exact ih

lemma keeps_valueOf (v : Value) : Keeps L (valueOf ask v) := by
  unfold valueOf
  extract_lets each rest
  have heach (w : Value) : Keeps L (each w) :=
    (hask _ rfl).bind fun w' => hask _ rfl
  have hrest (result : Value) : Keeps L (rest result) := by
    unfold rest
    split
    · exact (keeps_keepCode _ _).seq_pure
    · exact .pure _
  split
  · exact (keeps_resolutionValue hask _ _).bind hrest
  · refine (keeps_stored _).bind fun place => (keeps_stored _).bind fun _ => ?_
    exact (heach _).bind hrest
  · exact (heach _).bind hrest
  · exact (keeps_arrayOf _ _ heach).bind hrest
  · exact (keeps_variableValue _ _).bind hrest
  · refine Obeys.get.bind fun s => ?_
    split
    · exact (keeps_arrayOf _ _ heach).bind hrest
    · exact (keeps_plainValue _).bind hrest
  · exact (keeps_plainValue _).bind hrest


/-! ### Code -/

/-- Runs the statements of code one after the other. -/
def runBody (ask : Ask) (body : Body) : Check Value := do
  let outcome ← atomAt (← stored (.placeOf body.id)) .anything
  (body.children.filter Tree.isBase).foldlM (fun _ t => do ask (.value (← token ask t))) outcome

lemma keeps_runBody (body : Body) : Keeps L (runBody ask body) := by
  refine (keeps_stored _).bind fun place => (keeps_atomAt _ _).bind fun outcome => ?_
  refine Obeys.foldlM (fun _ t => ?_) _ outcome
  exact (hask _ rfl).bind fun w => hask _ rfl

end

/-- Runs code that is not remembered, and remembers its outcome. -/
def runAnew (ask : Ask) (body : Body) (bindings : Bindings) (space : Space) (inDoubt : Bool) :
    Check Value := do
  (if inDoubt then modifyChecker fun c => { c with doubt := c.doubt + 1 } else pure ())
  let v ← runStatements ask body bindings space
  (if inDoubt then modifyChecker fun c => { c with doubt := c.doubt - 1 } else pure ())
  modifyChecker fun c => { c with outcomes := c.outcomes.put (runKey body.children bindings) v }
  return v

/-- Code is looked for among what is remembered before it is run. -/
lemma runCode_eq (ask : Ask) (body : Body) (bindings : Bindings) (space : Space)
    (inDoubt : Bool) : runCode ask body bindings space inDoubt = (do
      let key ← codeKey body.id body.children
      modifyChecker fun c => { c with pending := c.pending.remove key }
      let c ← checker
      let outcome ← (c.outcomes.get? (runKey body.children bindings)).elim
        (runAnew ask body bindings space inDoubt) pure
      (if body.isFile then finishFile ask inDoubt else pure ())
      return outcome) := by
  unfold runCode
  refine bind_congr fun key => bind_congr fun _ => ?_
  dsimp only
  refine bind_congr fun c => ?_
  cases c.outcomes.get? (runKey body.children bindings) with
  | some v => cases body.isFile <;> simp
  | none => cases body.isFile <;> cases inDoubt <;> simp [runAnew]

variable {body : Body} {bindings : Bindings} {space : Space} {s t : CheckState} {inDoubt : Bool}
  {v : Value}

/-- The scopes behind code: that of a file stays, any other is taken away. -/
structure Closes (body : Body) (space : Space) (n spaces : Namespaces Value) : Prop where
  file : body.isFile = true → spaces = n
  code : body.isFile = false → ∃ left, (n.stack space).pop = .ok left ∧ spaces = n.setStack space left

/-- A run of statements that ends well goes through a state with a scope more, and back to the namespace
it came from. -/
lemma runStatements_eq_ok (h : runStatements ask body bindings space s = .ok v t) :
    ∃ vars s' spaces,
      runBody ask body { s with checker := s.checker.enter space vars false } = .ok v s' ∧
      Closes body space s'.checker.spaces spaces ∧
      t = { s' with checker := { s'.checker with current := s.checker.current, spaces } } := by
  obtain ⟨previous, s1, hprevious, h⟩ := bind_eq_ok.mp h
  cases hprevious
  obtain ⟨⟨⟩, s2, hcurrent, h⟩ := bind_eq_ok.mp h
  cases hcurrent
  obtain ⟨vars, s3, hvars, h⟩ := bind_eq_ok.mp h
  obtain rfl : _ = s3 := by
    refine (Obeys.mapM (C := .ofReturned Eq (fun _ => rfl) fun _ _ _ => Eq.trans) (fun x => ?_)
      bindings).of_ok hvars
    split
    · exact .pure _
    · exact .throw _
  obtain ⟨⟨⟩, s4, hpush, h⟩ := bind_eq_ok.mp h
  obtain ⟨new, hnew, rfl⟩ := modifyStack_eq_ok.mp hpush
  cases hnew
  obtain ⟨place, s5, hplace, h⟩ := bind_eq_ok.mp h
  obtain ⟨first, s6, hfirst, h⟩ := bind_eq_ok.mp h
  obtain ⟨outcome, s7, hrun, h⟩ := bind_eq_ok.mp h
  have hbody : runBody ask body _ = .ok outcome s7 :=
    bind_eq hplace (bind_eq hfirst hrun)
  have hback {s' : CheckState} (h : (do
      setCurrent s.checker.current
      return outcome) s' = .ok v t) : v = outcome ∧
        t = { s' with checker := { s'.checker with current := s.checker.current } } := by
    cases h
    exact ⟨rfl, rfl⟩
  cases hfile : body.isFile with
  | true =>
    rw [hfile] at h
    obtain ⟨rfl, rfl⟩ := hback h
    exact ⟨vars, s7, _, hbody, ⟨fun _ => rfl, by simp [hfile]⟩, rfl⟩
  | false =>
    rw [hfile] at h
    obtain ⟨⟨⟩, s8, hpop, h⟩ := bind_eq_ok.mp h
    obtain ⟨left, hleft, rfl⟩ := modifyStack_eq_ok.mp hpop
    obtain ⟨rfl, rfl⟩ := hback h
    exact ⟨vars, s7, _, hbody, ⟨by simp [hfile], fun _ => ⟨left, hleft, rfl⟩⟩, rfl⟩

/-- The same for code that is not remembered, with the outcome remembered at the end. -/
lemma runAnew_eq_ok (h : runAnew ask body bindings space inDoubt s = .ok v t) :
    ∃ vars s' spaces,
      runBody ask body { s with checker := s.checker.enter space vars inDoubt } = .ok v s' ∧
      Closes body space s'.checker.spaces spaces ∧
      t = { s' with checker :=
        s'.checker.leave spaces s.checker.current inDoubt (runKey body.children bindings) v } := by
  obtain ⟨⟨⟩, s1, hmore, h⟩ := bind_eq_ok.mp h
  obtain ⟨outcome, s2, hrun, h⟩ := bind_eq_ok.mp h
  obtain ⟨⟨⟩, s3, hless, h⟩ := bind_eq_ok.mp h
  obtain ⟨⟨⟩, s4, hput, h⟩ := bind_eq_ok.mp h
  obtain ⟨rfl, rfl⟩ := pure_eq_ok.mp h
  obtain ⟨vars, s', spaces, hbody, hcloses, rfl⟩ := runStatements_eq_ok hrun
  cases hput
  refine ⟨vars, s', spaces, ?_⟩
  cases inDoubt with
  | true | false =>
    cases hmore
    cases hless
    exact ⟨hbody, hcloses, rfl⟩

/-- Code that ends well was remembered or run anew, and a file is finished. Before, it is taken out of
the code that was not run. -/
lemma runCode_eq_ok (h : runCode ask body bindings space inDoubt s = .ok v t) :
    ∃ s1 s2 pending, s1.checker = { s.checker with pending } ∧
      (s.checker.outcomes.get? (runKey body.children bindings) = some v ∧ s2 = s1 ∨
        s.checker.outcomes.get? (runKey body.children bindings) = none ∧
          runAnew ask body bindings space inDoubt s1 = .ok v s2) ∧
      (if body.isFile then finishFile ask inDoubt else pure ()) s2 = .ok () t := by
  rw [runCode_eq] at h
  obtain ⟨key, s1, hkey, h⟩ := bind_eq_ok.mp h
  obtain ⟨⟨⟩, s2, hremove, h⟩ := bind_eq_ok.mp h
  obtain ⟨c, s3, hc, h⟩ := bind_eq_ok.mp h
  obtain ⟨outcome, s4, houtcome, h⟩ := bind_eq_ok.mp h
  obtain ⟨⟨⟩, s5, hfinish, h⟩ := bind_eq_ok.mp h
  obtain ⟨rfl, rfl⟩ := pure_eq_ok.mp h
  cases hc
  have hchecker : s2.checker = { s.checker with pending := s.checker.pending.remove key } := by
    obtain ⟨place, s1', hplace, hkey⟩ := bind_eq_ok.mp hkey
    cases hkey
    cases hremove
    rw [← checker_of_stored hplace]
  refine ⟨s2, s4, _, hchecker, ?_, hfinish⟩
  rw [hchecker] at houtcome
  cases hget : s.checker.outcomes.get? (runKey body.children bindings) with
  | some u =>
    rw [hget] at houtcome
    obtain ⟨rfl, rfl⟩ := pure_eq_ok.mp houtcome
    exact .inl ⟨rfl, rfl⟩
  | none =>
    rw [hget] at houtcome
    exact .inr ⟨rfl, houtcome⟩

/-! ### Code that ends well -/

def named (vars : List (String × Value)) : Bindings :=
  vars.map fun x => (some x.1, x.2)

variable {s' : CheckState} {vars : List (String × Value)} {spaces : Namespaces Value}

lemma runStatements_of_runBody
    (hbody : runBody ask body { s with checker := s.checker.enter space vars false } = .ok v s')
    (hcloses : Closes body space s'.checker.spaces spaces) :
    runStatements ask body (named vars) space s = .ok v
      { s' with checker := { s'.checker with current := s.checker.current, spaces } } := by
  obtain ⟨place, s1, hplace, hbody⟩ := bind_eq_ok.mp hbody
  obtain ⟨first, s2, hfirst, hrun⟩ := bind_eq_ok.mp hbody
  have hvars : (vars.mapM fun x => pure x : Check (List (String × Value))) = pure vars := by
    rw [List.mapM_pure, List.map_id']
  unfold runStatements
  rw [named, List.mapM_map]
  refine bind_eq rfl (bind_eq rfl (bind_eq (congrFun hvars _) ?_))
  refine bind_eq (a := ()) (modifyStack_eq_ok.mpr ⟨_, rfl, rfl⟩) ?_
  refine bind_eq hplace (bind_eq hfirst (bind_eq hrun ?_))
  cases hfile : body.isFile with
  | true =>
    rw [hcloses.file hfile]
    rfl
  | false =>
    obtain ⟨left, hpop, rfl⟩ := hcloses.code hfile
    exact bind_eq (a := ()) (modifyStack_eq_ok.mpr ⟨left, hpop, rfl⟩) rfl

lemma runAnew_of_runBody
    (hbody : runBody ask body { s with checker := s.checker.enter space vars inDoubt } = .ok v s')
    (hcloses : Closes body space s'.checker.spaces spaces) :
    runAnew ask body (named vars) space inDoubt s = .ok v
      { s' with checker :=
        s'.checker.leave spaces s.checker.current inDoubt (runKey body.children (named vars)) v } := by
  unfold runAnew
  cases inDoubt with
  | true | false =>
    exact bind_eq rfl (bind_eq (runStatements_of_runBody hbody hcloses) rfl)

lemma exists_place {id : NodeId} (h : s.store.places.contains id = true) :
    ∃ place, stored (.placeOf id) s = .ok place s := by
  rw [Std.HashMap.contains_eq_isSome_getElem?] at h
  obtain ⟨place, hplace⟩ := Option.isSome_iff_exists.mp h
  exact ⟨place, stored_placeOf hplace⟩

/-- Code that is not remembered is run anew, and a file is finished. -/
lemma ends_runCode {p : Value → CheckState → Prop} (hplace : s.store.places.contains body.id = true)
    (hnew : s.checker.outcomes.get? (runKey body.children bindings) = none)
    (hanew : ∀ key, Ends (runAnew ask body bindings space inDoubt)
      { s with checker := { s.checker with pending := s.checker.pending.remove key } } fun v s' =>
        Ends (if body.isFile then finishFile ask inDoubt else pure ()) s' fun _ t => p v t) :
    Ends (runCode ask body bindings space inDoubt) s p := by
  obtain ⟨place, hplace⟩ := exists_place hplace
  have hanew := hanew (place, Tree.textList body.children)
  rw [runCode_eq]
  refine .step (bind_eq hplace rfl) (.step rfl (.step rfl ?_))
  rw [show (s.checker.outcomes.get? (runKey body.children bindings)) = none from hnew]
  exact hanew.bind fun v s' hfinish => hfinish.bind fun _ t ht => .of_eq rfl ht

/-! ### Failures

What fails keeps less, so that a run of code may be followed step by step. -/

lemma loose_modifyChecker {f : Checker → Checker} (hfindings : ∀ c, (f c).findings = c.findings)
    (houtcomes : ∀ c, (f c).outcomes = c.outcomes) : Obeys L.toConduct.lenient (modifyChecker f) :=
  .modify fun s => L.loose (hfindings s.checker) (houtcomes s.checker)

lemma loose_setCurrent (space : Space) : Obeys L.toConduct.lenient (setCurrent space) :=
  loose_modifyChecker (fun _ => rfl) fun _ => rfl

lemma loose_modifyStack (space : Space) (f : Stack Value → Except Fault (Stack Value)) :
    Obeys L.toConduct.lenient (modifyStack space f) := by
  refine (keeps_stack space).lenient.bind fun s => (keeps_lift _).lenient.bind fun new => ?_
  exact loose_modifyChecker (fun _ => rfl) fun _ => rfl

lemma loose_runStatements (hask : ask.Keeps L) (body : Body) (bindings : Bindings) (space : Space) :
    Obeys L.toConduct.lenient (runStatements ask body bindings space) := by
  refine keeps_current.lenient.bind fun previous => (loose_setCurrent space).bind fun _ => ?_
  refine (Obeys.mapM (fun x => ?_) bindings).bind fun vars => ?_
  · split
    · exact .pure _
    · exact .throw _
  refine (loose_modifyStack _ _).bind fun _ => (keeps_stored _).lenient.bind fun place => ?_
  refine (keeps_atomAt _ _).lenient.bind fun outcome => ?_
  refine (Obeys.foldlM (fun _ t => ?_) _ outcome).bind fun v => ?_
  · exact (hask _ rfl).lenient.bind fun w => (hask _ rfl).lenient
  extract_lets leave
  have hleave : Obeys L.toConduct.lenient (leave ()) :=
    (loose_setCurrent previous).seq_pure
  exact .ite hleave ((loose_modifyStack _ _).bind fun _ => hleave)

lemma failed_of_runAnew (hask : ask.Keeps L) {e : Fault}
    (h : runAnew ask body bindings space inDoubt s = .error e t) : L.Failed s t := by
  have hdoubt (f : Nat → Nat) : Obeys L.toConduct.lenient
      (if inDoubt then modifyChecker fun c => { c with doubt := f c.doubt } else pure ()) :=
    .ite (loose_modifyChecker (fun _ => rfl) fun _ => rfl) (.pure _)
  obtain h | ⟨⟨⟩, s1, hmore, h⟩ := bind_eq_error.mp h
  · exact (hdoubt (· + 1)).of_error h
  refine L.failed_trans ((hdoubt (· + 1)).of_ok hmore) ?_
  obtain h | ⟨v, s2, hrun, h⟩ := bind_eq_error.mp h
  · exact (loose_runStatements hask body bindings space).of_error h
  refine L.failed_trans ((loose_runStatements hask body bindings space).of_ok hrun) ?_
  obtain h | ⟨⟨⟩, s3, hless, h⟩ := bind_eq_error.mp h
  · exact (hdoubt (· - 1)).of_error h
  cases h

/-- Code keeps a law if it does so where it is run anew. -/
lemma keeps_runCode_of_anew (hask : ask.Keeps L) (hanew : ∀ {s t : CheckState} {v : Value},
      s.checker.outcomes.get? (runKey body.children bindings) = none →
      runAnew ask body bindings space inDoubt s = .ok v t → L.Returned s t) :
    Keeps L (runCode ask body bindings space inDoubt) := by
  have houtcome : Keeps L (do
      let c ← checker
      (c.outcomes.get? (runKey body.children bindings)).elim
        (runAnew ask body bindings space inDoubt) pure) := by
    constructor
    · intro s t v h
      rw [bind_of_eq_ok (x := checker) rfl] at h
      cases hget : s.checker.outcomes.get? (runKey body.children bindings) with
      | some u =>
        rw [hget] at h
        cases h
        exact L.refl _
      | none =>
        rw [hget] at h
        exact hanew hget h
    · intro s t e h
      rw [bind_of_eq_ok (x := checker) rfl] at h
      cases hget : s.checker.outcomes.get? (runKey body.children bindings) with
      | some u =>
        rw [hget] at h
        cases h
      | none =>
        rw [hget] at h
        exact failed_of_runAnew hask h
  have hfinish : Keeps L (if body.isFile then finishFile ask inDoubt else pure ()) :=
    .ite (keeps_finishFile ask inDoubt) (.pure _)
  have hrest := houtcome.bind fun v => hfinish.bind fun _ => Obeys.pure (C := L.toConduct) v
  rw [bind_assoc] at hrest
  rw [runCode_eq]
  refine (keeps_codeKey _ _).bind fun key => ?_
  exact Obeys.bind (keeps_modifyChecker fun _ => .of_findings_eq rfl rfl rfl) fun _ => hrest

/-- Code that is not a file leaves its scope, so that a law covers it. -/
lemma keeps_runCode (hask : ask.Keeps L) (hbody : body.isFile = false) (bindings : Bindings)
    (space : Space) (inDoubt : Bool) : Keeps L (runCode ask body bindings space inDoubt) := by
  refine keeps_runCode_of_anew hask fun {s t v} hnew h => ?_
  obtain ⟨vars, s', spaces, hrun, hcloses, rfl⟩ := runAnew_eq_ok h
  obtain ⟨left, hpop, rfl⟩ := hcloses.code hbody
  exact L.scope v hnew ((keeps_runBody hask body).of_ok hrun) hpop

section

variable (hask : ask.Keeps L)

include hask

lemma keeps_code (v : Value) (bindings : Bindings) (space : Space) (inDoubt : Bool) :
    Keeps L (code ask v bindings space inDoubt) := by
  unfold code
  split
  · exact hask _ rfl
  · exact .throw _

/-! ### Commands -/

omit hask in
lemma keeps_spaceOf (v : Value) : Keeps L (spaceOf v) := by
  refine (keeps_contentOf _).bind fun c => ?_
  split
  · exact keeps_lift _
  · exact .throw _

lemma keeps_runText (v : Value) (bindings : Bindings) : Keeps L (runText ask v bindings) := by
  refine (keeps_contentOf _).bind fun c => ?_
  split
  · refine Obeys.get.bind fun s => ?_
    dsimp only
    split
    · refine .guard (.throw _) ((keeps_placeOf _).bind fun _ => keeps_reportError _ _)
    · exact .throw _
    · refine (keeps_stored _).bind fun _ => (keeps_stored _).bind fun id => ?_
      refine (keeps_stored _).bind fun opening => (keeps_stored _).bind fun closing => ?_
      exact (keeps_stored _).bind fun _ => (hask _ rfl).discard
  · exact .throw _

lemma keeps_runTextOperand (word : String) (values : List Value) :
    Keeps L (runTextOperand ask word values) := by
  unfold runTextOperand
  split
  · exact .ite (keeps_runText hask _ _) (.pure _)
  · refine .ite ?_ (.pure _)
    exact keeps_anything.bind fun x => keeps_runText hask _ _
  · exact .pure _

lemma keeps_runCommand (entry : Entry) (values : List Value) :
    Keeps L (runCommand ask entry values) := by
  unfold runCommand
  split
  · split
    · exact keeps_stored _
    · exact keeps_anything
  · exact (keeps_addParams _ _).bind fun _ => keeps_stored _
  · exact (keeps_addParams _ _).bind fun _ => keeps_stored _
  · exact keeps_code hask _ _ _ _
  · exact keeps_code hask _ _ _ _
  · exact (keeps_spaceOf _).bind fun space => keeps_code hask _ _ _ _
  · split
    · exact keeps_stored _
    · exact keeps_anything
  · split
    · exact keeps_stored _
    · exact keeps_anything
  · exact keeps_anything

omit hask in
lemma keeps_guess (entry : Entry) (possible : List Entry) (values : List Value)
    (otherwise : Value) : Keeps L (guess entry possible values otherwise) := by
  unfold guess
  extract_lets kinds
  cases kinds with
  | nil => exact keeps_anything
  | cons returns others =>
    refine .ite keeps_anything ?_
    extract_lets rest
    have hrest (outcome : Value) : Keeps L (rest outcome) := by
      refine .ite ?_ (.ite keeps_anything (.pure _))
      split
      · exact (keeps_stored _).seq_pure
      · exact .throw _
    refine .ite (keeps_anything.bind hrest) ?_
    split
    · exact (keeps_stored _).bind hrest
    · exact hrest otherwise

omit hask in
lemma keeps_bindingsOf (word : String) (values : List Value) :
    Keeps L (bindingsOf word values) := by
  unfold bindingsOf
  refine .ite (keeps_anything.seq_pure) ?_
  refine .ite ?_ ?_
  · exact (keeps_stored _).bind fun _ => keeps_anything.seq_pure
  refine .ite (keeps_anything.seq_pure) ?_
  refine .ite ((keeps_stored _).seq_pure) ?_
  split
  · refine (keeps_stored _).bind fun number => (keeps_contentOf _).bind fun c => ?_
    split <;> exact .pure _
  · exact .pure _

lemma keeps_runOperand (word : String) (v : Value) (bindings : Bindings) :
    Keeps L (runOperand ask word v bindings) := by
  refine .ite ?_ (keeps_current.bind fun space => ?_)
  · split
    · refine (keeps_codeKey _ _).bind fun key => (keeps_checkPending _ _ _ _).bind fun _ => ?_
      refine (keeps_codeKey _ _).bind fun key => keeps_checker.bind fun c => ?_
      exact .guard (.throw _) (keeps_modifyChecker fun _ => .of_findings_eq rfl rfl rfl)
    · exact .throw _
  · exact (keeps_code hask _ _ _ _).discard

omit hask in
lemma keeps_useHelper (v : Value) : Keeps L (useHelper v) := by
  refine .ite (Obeys.get.bind fun s => ?_) (.pure _)
  exact keeps_modifyChecker fun _ => .of_findings_eq rfl rfl rfl

lemma keeps_runEntry (entry : Entry) (possible : List Entry) (values : List Value)
    (otherwise : Value) : Keeps L (runEntry ask entry possible values otherwise) := by
  unfold runEntry
  extract_lets word rest
  have hrest (outcome : Value) : Keeps L (rest outcome) := by
    unfold rest
    refine (keeps_bindingsOf _ _).bind fun bindings => ?_
    refine (Obeys.forIn (fun x _ => ?_) _ _).bind fun _ => ?_
    · have huse : Keeps L (do
          useHelper x.1
          return ForInStep.yield PUnit.unit) :=
        (keeps_useHelper _).seq_pure
      exact .ite ((keeps_runOperand hask _ _ _).bind fun _ => huse) huse
    · exact .ite (.pure _) (.throw _)
  refine .ite ((keeps_runTextOperand hask _ _).bind fun _ => ?_) ?_
  · exact (keeps_runCommand hask _ _).bind hrest
  · exact (keeps_guess _ _ _ _).bind hrest

/-! ### Statements -/

omit hask in
lemma keeps_elementName (t : Tree) : Keeps L (elementName t) := by
  unfold elementName
  extract_lets rest
  have hrest (leaf : Tree) : Keeps L (rest leaf) := by
    unfold rest
    split
    · split
      · exact .pure _
      · exact .throw _
    · exact .throw _
  split
  · split
    · exact hrest _
    · exact .throw_bind _ _
  · exact hrest _

lemma keeps_declareListed (text : String) : Keeps L (declareListed ask text) := by
  refine (keeps_readScript text).bind fun script => ?_
  split
  · exact .throw _
  · refine (hask _ rfl).bind fun v => (keeps_contentOf _).bind fun c => ?_
    extract_lets rest
    have hrest : Keeps L (rest ()) := by
      refine (Obeys.forIn (fun t _ => ?_) _ _).seq_pure
      refine (keeps_elementName t).bind fun name => keeps_anything.bind fun v => ?_
      exact (keeps_assignTop _ _).seq_pure
    split
    · exact (keeps_addPrivates _).bind fun _ => hrest
    · exact .throw_bind _ _

/-- A comment that cannot declare its variables becomes a warning. -/
lemma keeps_checkComment (t : Tree) : Keeps L (checkComment ask t) := by
  unfold checkComment
  split
  · dsimp only
    split
    · exact .pure _
    · rename_i word hfind
      refine Obeys.tryCatch (keeps_declareListed hask _) (fun _ => ?_) ?_
      · exact ((keeps_stored _).bind fun _ => keeps_reportWarning _ _).lenient
      · intro s t u e a hfailed h
        obtain ⟨place, t1, hplace, h⟩ := bind_eq_ok.mp h
        cases h
        have hword : word ∈ commentWords := List.mem_of_find?_eq_some hfind
        exact L.recover place hword
          (L.failed_trans hfailed (L.failed ((keeps_stored _).of_ok hplace)))
  · exact .pure _

lemma keeps_checkInclude (word : Tree) (rest : List Tree) :
    Keeps L (checkInclude ask word rest) := by
  unfold checkInclude
  split
  · refine (hask _ rfl).bind fun v => .ite ?_ (.pure _)
    exact (keeps_stored _).bind fun _ => keeps_reportError _ _
  · exact (keeps_stored _).bind fun _ => keeps_reportError _ _

omit hask in
lemma keeps_firstChar (t : Tree) : Keeps L (firstChar t) := by
  unfold firstChar
  split
  · exact .pure _
  · exact .throw _

omit hask in
lemma keeps_looksDefined (name arguments : Tree) : Keeps L (looksDefined name arguments) := by
  unfold looksDefined
  extract_lets rest
  have hrest (first : Tree) : Keeps L (rest first) := by
    refine (keeps_firstChar first).bind fun c => .ite ?_ (.pure _)
    exact (keeps_firstChar _).seq_pure
  split
  · split
    · exact hrest _
    · exact .throw_bind _ _
  · exact hrest _

omit hask in
lemma keeps_definedArguments (name arguments : Tree) :
    Keeps L (definedArguments name arguments) := by
  unfold definedArguments
  split
  · exact .throw _
  · exact .pure _
  · split
    · exact .throw _
    · exact .pure _
    · exact .pure _

omit hask in
lemma keeps_checkMismatch (statement first last : Tree) (possible : List Entry)
    (tokens values : List Value) (otherwise : Value) :
    Keeps L (checkMismatch statement first last possible tokens values otherwise) := by
  unfold checkMismatch
  split
  · extract_lets finish
    have hfinish : Keeps L (finish ()) := .pure _
    refine .ite ((keeps_stored _).bind fun place => ?_) hfinish
    exact (keeps_reportError _ _).bind fun _ => hfinish
  · refine .ite (.pure _) ?_
    extract_lets finish
    have hfinish : Keeps L (finish ()) :=
      (keeps_stored _).bind fun place => keeps_atomAt _ _
    split
    · refine (keeps_placeOf _).bind fun place => ?_
      exact (keeps_reportError _ _).bind fun _ => hfinish
    · refine Obeys.get.bind fun s => (keeps_stored _).bind fun place => ?_
      exact (keeps_reportError _ _).bind fun _ => hfinish

omit hask in
lemma keeps_keepHelper (v : Value) : Keeps L (keepHelper v) := by
  refine Obeys.get.bind fun s => .ite ?_ (.pure _)
  refine keeps_modifyChecker fun c => ?_
  split <;> exact .of_findings_eq rfl rfl rfl

lemma keeps_checkExpression (statement first : Tree) (nodes : List Tree) (ended : Bool)
    (otherwise : Value) : Keeps L (checkExpression ask statement first nodes ended otherwise) := by
  refine (Obeys.mapM (fun t => ?_) nodes).bind fun parts => ?_
  · exact (hask _ rfl).bind fun v => (hask _ rfl).seq_pure
  extract_lets tokens values operands possible rest
  have hrest (outcome : Value) : Keeps L (rest outcome) := by
    refine (keeps_keepHelper _).bind fun _ => (keeps_stored _).bind fun place => ?_
    extract_lets finish
    have hfinish : Keeps L (finish ()) :=
      .ite (keeps_atomAt _ _) (.pure _)
    exact .ite ((keeps_stored _).bind fun _ => hfinish) hfinish
  split
  · exact (keeps_runEntry hask _ _ _ _).bind hrest
  · exact (keeps_checkMismatch _ _ _ _ _ _ _).bind hrest

lemma keeps_checkNodes (statement : Tree) (outcome : Value) :
    Keeps L (checkNodes ask statement outcome) := by
  unfold checkNodes
  extract_lets nodes expression
  have hexpression (first : Tree) : Keeps L (expression first) :=
    keeps_checkExpression hask _ _ _ _ _
  cases nodes with
  | nil => exact .pure _
  | cons first rest =>
    refine .ite (.pure _) (.ite ?_ ?_)
    · exact (keeps_checkInclude hask _ _).seq_pure
    refine .ite (.pure _) ?_
    split
    · refine .ite (hask _ rfl) ?_
      split
      · exact (keeps_stored _).bind fun _ => keeps_atomAt _ _
      · exact hexpression _
    · refine .ite (keeps_declare hask _ _ _) ?_
      refine (keeps_looksDefined _ _).bind fun defined => ?_
      refine .ite ((keeps_definedArguments _ _).bind fun ts => ?_) (hexpression _)
      refine (Obeys.forIn (fun t _ => ?_) _ _).bind fun _ => ?_
      · exact (hask _ rfl).discard.seq_pure
      · exact (keeps_stored _).bind fun _ => keeps_atomAt _ _
    · exact .ite (keeps_checkAssignment hask _ _ _ _) (hexpression _)
    · exact hexpression _

lemma keeps_checkStatement (statement : Tree) : Keeps L (checkStatement ask statement) := by
  refine (keeps_stored _).bind fun place => (keeps_atomAt _ _).bind fun outcome => ?_
  refine (Obeys.forIn (fun t _ => ?_) _ _).bind fun _ => keeps_checkNodes hask _ _
  refine .ite (.pure _) ?_
  exact (keeps_checkComment hask t).seq_pure

lemma keeps_tokenOf (v : Value) : Keeps L (tokenOf ask v) := by
  have hself (v : Value) : Keeps L (do
      discard (placeOf v)
      return v) :=
    (keeps_placeOf v).discard.seq_pure
  unfold tokenOf
  extract_lets each
  have heach (w : Value) : Keeps L (each w) := hask _ rfl
  split
  · exact keeps_checkStatement hask _
  · exact keeps_arrayOf _ _ heach
  · refine Obeys.get.bind fun s => ?_
    split
    · exact keeps_arrayOf _ _ heach
    · exact hself _
  · exact hself _

end

/-- Whatever a checker is asked about what is not a file, it keeps a law. -/
lemma keeps_askWithin (depth : Nat) : (askWithin depth).Keeps L := by
  induction depth with
  | zero => exact fun _ _ => .throw _
  | succ depth ih =>
    intro question hquestion
    cases question with
    | token v => exact keeps_tokenOf ih v
    | value v => exact keeps_valueOf ih v
    | code body bindings space inDoubt => exact keeps_runCode ih hquestion bindings space inDoubt

end Check

end ArmaScript
