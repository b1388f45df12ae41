import ArmaScript.Proofs.Declarations
import Mathlib.Tactic.Linarith

/-!
# Counted loops

A loop over numbers is made step by step: `for` names the variable, `from`, `to` and `step` give the
bounds and the step, and `do` runs the code, once for each number of the loop. With a step upwards
these are the numbers up to the last one. With a step downwards the loop ends too early: it leaves
out the last number and the one above it.
-/

namespace ArmaScript.Run

/-- A command on two operands whose result is used by the next one. -/
def operate (answer : Answer) (c : Command) (left right : Value) : Run Value := do
  required (← binary answer c left right)

/-- A loop that is given a step, if there is one. -/
def withStep (answer : Answer) (loop : Value) : Option Value → Run Value
  | none => pure loop
  | some step => operate answer .forStep loop step

/-- `for name from first to last step step do body`, where the step can be left out. -/
def counted (answer : Answer) (name first last : Value) (step : Option Value) (body : Value) :
    Run Value := do
  let loop ← unary answer .forVar name
  let loop ← operate answer .forFrom loop first
  let loop ← operate answer .forTo loop last
  let loop ← withStep answer loop step
  operate answer .forDo loop body

/-- Runs code once for each number, in order. -/
def eachNumber (answer : Answer) (name : String) (body : Value) : List Int → Value → Run Value
  | [], outcome => pure outcome
  | i :: rest, _ => do
    let n ← stored (.number (.int i))
    let outcome ← code answer body [(name, n)] .mission
    eachNumber answer name body rest outcome

def progression (first step : Int) (n : Nat) : List Int :=
  (List.range n).map fun k : Nat => first + k * step

/-- Whether a number is not beyond the last one. -/
def Reaches (last step i : Int) : Prop :=
  if 0 < step then i ≤ last else last ≤ i

lemma countLoop_eq (answer : Answer) (name : String) (body : Value) (step : Int) (n : Nat)
    (first : Int) (outcome : Value) : countLoop answer name body step n first outcome =
      eachNumber answer name body (progression first step n) outcome := by
  induction n generalizing first outcome with
  | zero => rfl
  | succ n ih =>
    have hprogression : progression first step (n + 1) =
        first :: progression (first + step) step n := by
      rw [progression, List.range_succ_eq_map, List.map_cons, List.map_map, progression]
      congr 1
      · simp
      · refine List.map_congr_left fun k _ => ?_
        simp only [Function.comp, Nat.succ_eq_add_one]
        push_cast
        ring
    rw [hprogression, countLoop, eachNumber]
    exact bind_congr fun _ => bind_congr fun _ => ih _ _

/-- How many rounds there are, without a division. -/
lemma lt_rounds_iff (first stop : Int) {step : Int} (hstep : step ≠ 0) (k : Nat) :
    k < rounds first stop step ↔
      if 0 < step then first + k * step < stop else stop < first + k * step := by
  have hceil (width pace : Int) (hpace : 0 < pace) :
      k < ((width + pace - 1).fdiv pace).toNat ↔ k * pace < width := by
    rw [Int.fdiv_eq_ediv_of_nonneg _ hpace.le, Int.lt_toNat, Int.lt_iff_add_one_le,
      Int.le_ediv_iff_mul_le hpace]
    constructor <;> intro h <;> linarith
  unfold rounds
  split_ifs with hpos
  · rw [hceil _ _ hpos]
    constructor <;> intro h <;> linarith
  · have h := hceil (first - stop) (-step) (by omega)
    rw [← sub_eq_add_neg] at h
    rw [h]
    constructor <;> intro h <;> linarith

/-- The rounds of the loop are as many as the numbers that are not beyond the last one, unless the
loop goes down and comes to one of the two numbers that it leaves out. -/
lemma rounds_eq_iff {first last step : Int} (hstep : step ≠ 0) {n : Nat}
    (hn : ∀ k : Nat, k < n ↔ Reaches last step (first + k * step)) :
    rounds first (last + 1) step = n ↔ 0 < step ∨
      ∀ k : Nat, first + k * step ≠ last ∧ first + k * step ≠ last + 1 := by
  have hrounds (k : Nat) := lt_rounds_iff first (last + 1) hstep k
  unfold Reaches at hn
  by_cases hpos : 0 < step
  · simp only [hpos, if_true, Int.lt_add_one_iff] at hn hrounds
    have h : rounds first (last + 1) step = n :=
      eq_of_forall_lt_iff fun k => (hrounds k).trans (hn k).symm
    exact ⟨fun _ => .inl hpos, fun _ => h⟩
  · simp only [hpos, if_false, false_or] at hn hrounds ⊢
    constructor
    · rintro rfl k
      have h := (hrounds k).symm.trans (hn k)
      omega
    · intro h
      refine eq_of_forall_lt_iff fun k => (hrounds k).trans (Iff.trans ?_ (hn k).symm)
      have := h k
      omega

/-! ### The loop as it is written -/

/-- The step of a loop: one, unless another is given. -/
inductive StepOf : Option Value → Int → Prop
  | unit : StepOf none 1
  | given (i : NodeId) (step : Int) : StepOf (some (.atom i (.number (some (.int step))))) step

section

variable {w : World} {step : Int} {given : Option Value} {body : Value}

/-- Each word makes a new helper out of the one before it. -/
lemma exists_counted_eq_forDo (w : World) (hgiven : StepOf given step)
    (name first last body : Value) :
    ∃ l w', Grows w w' ∧ ∀ answer, counted answer name first last given body w =
      forDo answer name first last (.atom l (.number (some (.int step)))) body w' := by
  have hforDo (answer : Answer) (id : NodeId) (s : Value) :
      operate answer .forDo (.forOf id name first last s) body =
        forDo answer name first last s body := by
    change (some <$> forDo answer name first last s body >>= required : Run Value) = _
    simp [required]
  have hgrows (n : Nat) :
      Grows w { w with store := { w.store with nextId := w.store.nextId + n } } :=
    ⟨rfl, rfl, rfl, fun _ h => h⟩
  cases hgiven with
  | unit => exact ⟨w.store.nextId + 5, _, hgrows 6, fun answer => congrFun (hforDo answer _ _) _⟩
  | given i => exact ⟨i, _, hgrows 7, fun answer => congrFun (hforDo answer _ _) _⟩

lemma exists_forDo_eq (hstep : step ≠ 0) (hbody : w.store.places.contains body.id = true)
    (first last : Int) (i j k l : NodeId) (q : Quoted) :
    ∃ outcome w', Grows w w' ∧ ∀ answer, forDo answer (.atom i (.string (some q)))
      (some (.atom j (.number (some (.int first))))) (some (.atom k (.number (some (.int last)))))
      (.atom l (.number (some (.int step)))) body w =
        countLoop answer q.body body step (rounds first (last + 1) step) first outcome w' := by
  obtain ⟨u, w1, hnothing, h1⟩ := exists_stored_atom .nothing w
  obtain ⟨w2, hcopy, h2⟩ := exists_copyPlace (h1.places _ hbody) u
  refine ⟨.atom u .nothing, w2, h1.trans h2, fun answer => ?_⟩
  change (do
    let outcome ← nothing
    stored (.copyPlace body.id outcome.id)
    if step = 0 then throw .badValue
    countLoop answer q.body body step (rounds first (last + 1) step) first outcome : Run Value) w = _
  refine bind_eq hnothing (bind_eq hcopy ?_)
  rw [if_neg hstep]

/-- A counted loop with whole numbers runs its code for the numbers of a progression. They are the
numbers from the first one on that are not beyond the last one exactly if the loop goes up, or does
not come to the last number or the one above it. -/
theorem counted_numbers_iff (hgiven : StepOf given step) (hstep : step ≠ 0)
    (hbody : w.store.places.contains body.id = true) (first last : Int) (i j k : NodeId)
    (q : Quoted) :
    ∃ numbers outcome w', Grows w w' ∧
      (∀ answer, counted answer (.atom i (.string (some q))) (.atom j (.number (some (.int first))))
        (.atom k (.number (some (.int last)))) given body w =
          eachNumber answer q.body body numbers outcome w') ∧
      ∀ n : Nat, (∀ m : Nat, m < n ↔ Reaches last step (first + m * step)) →
        (numbers = progression first step n ↔ 0 < step ∨
          ∀ m : Nat, first + m * step ≠ last ∧ first + m * step ≠ last + 1) := by
  obtain ⟨l, w₁, h₁, hcounted⟩ := exists_counted_eq_forDo w hgiven (.atom i (.string (some q)))
    (.atom j (.number (some (.int first)))) (.atom k (.number (some (.int last)))) body
  obtain ⟨outcome, w₂, h₂, hforDo⟩ :=
    exists_forDo_eq hstep (h₁.places _ hbody) first last i j k l q
  refine ⟨progression first step (rounds first (last + 1) step), outcome, w₂, h₁.trans h₂,
    fun answer => ?_, fun n hn => ?_⟩
  · rw [hcounted, hforDo, countLoop_eq]
  · rw [← rounds_eq_iff hstep hn]
    refine ⟨fun h => ?_, fun h => h ▸ rfl⟩
    simpa [progression] using congrArg List.length h

/-- From three to one in steps of minus one, the numbers are not three, two and one. -/
theorem counted_numbers_iff_down :
    ∃ numbers outcome w', (∀ answer, counted answer (.atom 1 (.string (some ⟨'"', "_i"⟩)))
      (.atom 2 (.number (some (.int 3)))) (.atom 3 (.number (some (.int 1))))
      (some (.atom 4 (.number (some (.int (-1)))))) (.code 0 true [])
      (.single { Store.empty with places := Std.HashMap.insert ∅ 0 ⟨1, 1⟩ } []) =
        eachNumber answer "_i" (.code 0 true []) numbers outcome w') ∧ numbers ≠ [3, 2, 1] := by
  have hbody : (World.single { Store.empty with places := Std.HashMap.insert ∅ 0 ⟨1, 1⟩ }
      []).store.places.contains (Value.code 0 true []).id = true := Std.HashMap.contains_insert_self
  obtain ⟨numbers, outcome, w', -, hcounted, hiff⟩ :=
    counted_numbers_iff (.given 4 (-1)) (by decide) hbody 3 1 1 2 3 ⟨'"', "_i"⟩
  refine ⟨numbers, outcome, w', hcounted, fun h => ?_⟩
  have hreaches (m : Nat) : m < 3 ↔ Reaches 1 (-1) (3 + m * (-1)) := by
    rw [Reaches, if_neg (by decide)]
    omega
  obtain h | h := (hiff 3 hreaches).mp h
  · exact absurd h (by decide)
  · exact (h 2).1 rfl

end

end ArmaScript.Run
