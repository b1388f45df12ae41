import ArmaScript.Proofs.Arrangement
import ArmaScript.Proofs.Formula

/-!
# Chains of operands and operators

A chain is an operand followed by operators, each with the operand behind it. What it stands for can be
said without reading it from left to right: its root is the last of the operators that bind weakest, and
the two sides of the root are the chains before and behind it. `arrange_chain` says that arranging the
words of a chain gives this tree.
-/

namespace ArmaScript.Precedence

open List

/-- Words as the items of a row: none of them is layout. -/
def words : Items String :=
  ⟨id, fun _ => false⟩

/-- Whether a word is an operator or a directive that takes the operand behind it. -/
def takesOperand (word : String) : Bool :=
  Vocabulary.isUnary (Text.lower word) || Vocabulary.unaryDirectives.contains word

/-- Whether a word is an operand by itself, whatever stands behind it. -/
def isPlain (word : String) : Bool :=
  !takesOperand word && word != "#define" && !Text.isUpper word

/-- An operand as it is written: operators that take what is behind them, and then a plain word. -/
structure Operand where
  operators : List String
  word : String
  operators_take : ∀ w ∈ operators, takesOperand w = true
  word_plain : isPlain word = true

/-- An operator of any sort with the operand behind it. -/
structure Step where
  operator : String
  operand : Operand

/-- An operand, and operators with their operands behind it. -/
structure Chain where
  first : Operand
  steps : List Step

namespace Operand

def tokens (o : Operand) : List String :=
  o.operators ++ [o.word]

/-- The tree of an operand: each operator is applied to all that is behind it. -/
def tree (o : Operand) : Exp String :=
  o.operators.foldr (fun w e => .group [.leaf w, e]) (.leaf o.word)

end Operand

namespace Step

def tokens (x : Step) : List String :=
  x.operator :: x.operand.tokens

def power (x : Step) : Nat :=
  Precedence.power (Text.lower x.operator)

/-- Whether the operator of a step binds more strongly than the bound. -/
def exceeds (bound : Nat) (x : Step) : Bool :=
  bound < x.power

/-- Parts steps in a row at the last one of those that bind weakest. -/
def parted (x : Step) : List Step → List Step × Step × List Step
  | [] => ([], x, [])
  | y :: rest =>
    let (before, weakest, behind) := parted y rest
    if weakest.power ≤ x.power then (x :: before, weakest, behind) else ([], x, y :: rest)

/-- The step at which others are parted binds at most as strongly as those before it, and less
strongly than those behind it. -/
structure Parts (steps before : List Step) (weakest : Step) (behind : List Step) : Prop where
  steps_eq : steps = before ++ weakest :: behind
  le_before : ∀ y ∈ before, weakest.power ≤ y.power
  lt_behind : ∀ y ∈ behind, weakest.power < y.power

lemma parts_parted (x : Step) (rest : List Step) :
    Parts (x :: rest) (parted x rest).1 (parted x rest).2.1 (parted x rest).2.2 := by
  induction rest generalizing x with
  | nil => exact ⟨rfl, by simp [parted], by simp [parted]⟩
  | cons y rest ih =>
    obtain ⟨heq, hbefore, hbehind⟩ := ih y
    rw [parted]
    dsimp only
    split
    · next hle =>
      refine ⟨congrArg (x :: ·) heq, ?_, hbehind⟩
      intro z hz
      rcases mem_cons.mp hz with rfl | hz
      · exact hle
      · exact hbefore z hz
    · next hlt =>
      -- nothing behind `x` binds as weakly as the weakest there, which binds more strongly than `x`
      refine ⟨rfl, by simp, fun z hz => ?_⟩
      rw [heq] at hz
      have hlt : x.power < (parted y rest).2.1.power := Nat.lt_of_not_le hlt
      rcases mem_append.mp hz with hz | hz
      · exact Nat.lt_of_lt_of_le hlt (hbefore z hz)
      · rcases mem_cons.mp hz with rfl | hz
        · exact hlt
        · exact hlt.trans (hbehind z hz)

/-- There is one place only at which steps are parted. -/
lemma Parts.unique {before before' behind behind' : List Step} {w w' : Step} {steps : List Step}
    (h : Parts steps before w behind) (h' : Parts steps before' w' behind') :
    before = before' ∧ w = w' ∧ behind = behind' := by
  have heq := h.steps_eq.symm.trans h'.steps_eq
  rcases append_eq_append_iff.mp heq with ⟨mid, rfl, hmid⟩ | ⟨mid, rfl, hmid⟩
  · cases mid with
    | nil => simpa [and_assoc] using hmid
    | cons z mid =>
      -- `w` would stand before `w'`, and `w'` behind `w`
      obtain ⟨rfl, rfl⟩ := cons_eq_cons.mp hmid
      have hle := h'.le_before w (by simp)
      have hlt := h.lt_behind w' (by simp)
      omega
  · cases mid with
    | nil => simpa [and_assoc, eq_comm] using hmid
    | cons z mid =>
      obtain ⟨rfl, rfl⟩ := cons_eq_cons.mp hmid
      have hle := h.le_before w' (by simp)
      have hlt := h'.lt_behind w (by simp)
      omega

end Step

/-- The tree of an arranged row with steps behind it: the root is the last of the operators that bind
weakest, between the tree of what is before it and that of what is behind it. -/
def treeFrom (left : Exp String) : List Step → Exp String
  | [] => left
  | x :: rest =>
    .group [treeFrom left (x.parted rest).1, .leaf (x.parted rest).2.1.operator,
      treeFrom (x.parted rest).2.1.operand.tree (x.parted rest).2.2]
termination_by steps => steps.length
decreasing_by
  all_goals
    have hlength := congrArg length (Step.parts_parted x rest).steps_eq
    simp only [length_append, length_cons] at hlength ⊢
    omega

lemma treeFrom_nil (left : Exp String) : treeFrom left [] = left := by
  rw [treeFrom]

lemma treeFrom_of_parts (left : Exp String) {steps before behind : List Step} {w : Step}
    (h : Step.Parts steps before w behind) : treeFrom left steps
      = .group [treeFrom left before, .leaf w.operator, treeFrom w.operand.tree behind] := by
  cases steps with
  | nil => simpa using h.steps_eq
  | cons x rest =>
    obtain ⟨rfl, rfl, rfl⟩ := (Step.parts_parted x rest).unique h
    rw [treeFrom]

/-- Steps that are taken in one go with the operand before them may be arranged first, if they bind more
strongly than the operator before that operand, and what follows them does not. -/
lemma treeFrom_append (left : Exp String) (x : Step) {strong weak : List Step}
    (hstrong : ∀ y ∈ strong, x.power < y.power) (hweak : ∀ y ∈ weak.head?, y.power ≤ x.power) :
    treeFrom (.group [left, .leaf x.operator, treeFrom x.operand.tree strong]) weak
      = treeFrom left (x :: strong ++ weak) := by
  induction hn : weak.length using Nat.strongRecOn generalizing weak with
  | ind n ih =>
    cases weak with
    | nil =>
      have hparts : Step.Parts (x :: strong ++ []) [] x strong := ⟨by simp, by simp, hstrong⟩
      rw [treeFrom_nil, treeFrom_of_parts left hparts, treeFrom_nil]
    | cons y rest =>
      obtain ⟨before, w, behind, h⟩ : ∃ before w behind, Step.Parts (y :: rest) before w behind :=
        ⟨_, _, _, Step.parts_parted y rest⟩
      have hy : y.power ≤ x.power := hweak y (by simp)
      -- the weakest of the steps that follow is the weakest of all
      have hw : w.power ≤ y.power := by
        have hmem : y ∈ before ++ w :: behind := h.steps_eq ▸ mem_cons_self
        rcases mem_append.mp hmem with hmem | hmem
        · exact h.le_before y hmem
        · rcases mem_cons.mp hmem with rfl | hmem
          · exact Nat.le_refl _
          · exact Nat.le_of_lt (h.lt_behind y hmem)
      have hall : Step.Parts (x :: strong ++ y :: rest) (x :: strong ++ before) w behind := by
        refine ⟨by rw [h.steps_eq]; simp, fun z hz => ?_, h.lt_behind⟩
        rcases mem_append.mp hz with hz | hz
        · rcases mem_cons.mp hz with rfl | hz
          · omega
          · have := hstrong z hz
            omega
        · exact h.le_before z hz
      have hhead : ∀ z ∈ before.head?, z.power ≤ x.power := by
        intro z hz
        refine hweak z ?_
        rw [h.steps_eq, head?_append, hz]
        rfl
      have hlength := congrArg length h.steps_eq
      simp only [length_append, length_cons] at hlength hn
      rw [treeFrom_of_parts _ h, treeFrom_of_parts left hall, ih before.length (by omega) hhead rfl]

namespace Chain

def tokens (c : Chain) : List String :=
  c.first.tokens ++ c.steps.flatMap Step.tokens

def tree (c : Chain) : Exp String :=
  treeFrom c.first.tree c.steps

end Chain

/-! ### Arranging a chain -/

/-- Words that are still to come. -/
def ahead (row : List String) : Ahead String :=
  ⟨row.head?, [], row.tail⟩

@[simp] lemma ahead_next (row : List String) : (ahead row).next = row.head? := rfl

@[simp] lemma ahead_rest (row : List String) : (ahead row).rest = row.tail := rfl

@[simp] lemma ahead_skipped (row : List String) : (ahead row).skipped = [] := rfl

@[simp] lemma advance_words (next : Option String) (row : List String) :
    Ahead.advance words ⟨next, [], row⟩ = ahead row := by
  have hdrop : row.dropWhile words.isLayout = row := by
    cases row with
    | nil => rfl
    | cons w row => rfl
  have htake : row.takeWhile words.isLayout = [] := by
    cases row with
    | nil => rfl
    | cons w row => rfl
  rw [Ahead.advance, hdrop, htake]
  cases row with
  | nil => rfl
  | cons w row => rfl

variable {w : String} {α : Type}

lemma opening_of_takesOperand (h : takesOperand w = true) (s : Ahead String) :
    opening words w s = .ok .one := by
  rw [takesOperand] at h
  simp only [opening, words, id, h, if_true]

lemma opening_of_isPlain (h : isPlain w = true) (s : Ahead String) :
    opening words w s = .ok .alone := by
  simp only [isPlain, takesOperand, Bool.and_eq_true, Bool.not_eq_true', bne_iff_ne, ne_eq] at h
  obtain ⟨⟨htakes, hdefine⟩, hupper⟩ := h
  simp only [opening, words, id, htakes, hupper, beq_iff_eq, hdefine, Bool.false_eq_true, if_false]

variable {bound fuel : Nat}

/-- Operators that do not bind strongly enough are left for later. -/
lemma operators_of_not_lt (items : Items α) (fuel : Nat) (left : Exp α) {s : Ahead α}
    (h : ¬bound < s.power items) : operators items (fuel + 1) bound left s = .ok (left, s) := by
  rw [operators]
  cases hn : s.next with
  | none => rfl
  | some a => simp only [h, if_false]

lemma not_prefixPower_lt (items : Items α) (s : Ahead α) : ¬prefixPower < s.power items := by
  unfold Ahead.power
  split
  · exact Nat.not_lt.mpr (Nat.le_of_lt (power_lt_prefixPower _))
  · exact Nat.not_lt_zero _

/-- Arranging the words of an operand, and then the operators behind it. -/
lemma operand_tokens (o : Operand) (rest : List String) (bound : Nat)
    (hfuel : 2 * o.tokens.length ≤ fuel) : operand words (fuel + 1) bound (ahead (o.tokens ++ rest))
      = operators words fuel bound o.tree (ahead rest) := by
  obtain ⟨ws, w, hws, hw⟩ := o
  induction ws generalizing bound fuel with
  | nil =>
    obtain ⟨fuel, rfl⟩ : ∃ f, fuel = f + 1 := ⟨fuel - 1, by simp [Operand.tokens] at hfuel; omega⟩
    have hstart : start words (fuel + 1) w (ahead rest) = .ok (.leaf w, ahead rest) := by
      rw [start, opening_of_isPlain hw]
      rfl
    rw [operand]
    simp only [Operand.tokens, nil_append, singleton_append, ahead_next, ahead_rest,
      ahead_skipped, head?_cons, tail_cons, advance_words, hstart]
    rfl
  | cons v ws ih =>
    obtain ⟨hv, hws⟩ := forall_mem_cons.mp hws
    obtain ⟨fuel, rfl⟩ : ∃ f, fuel = f + 3 :=
      ⟨fuel - 3, by simp [Operand.tokens] at hfuel; omega⟩
    have hlength : 2 * (⟨ws, w, hws, hw⟩ : Operand).tokens.length ≤ fuel + 1 := by
      simp only [Operand.tokens, length_append, length_cons, length_nil] at hfuel ⊢
      omega
    have hinner := ih prefixPower hws hlength
    rw [operators_of_not_lt words fuel _ (not_prefixPower_lt words _)] at hinner
    have hstart : start words (fuel + 3) v (ahead ((⟨ws, w, hws, hw⟩ : Operand).tokens ++ rest))
        = .ok ((⟨v :: ws, w, by simpa using ⟨hv, hws⟩, hw⟩ : Operand).tree, ahead rest) := by
      rw [start, opening_of_takesOperand hv]
      exact except_bind_eq_ok.mpr ⟨.one, rfl, except_bind_eq_ok.mpr ⟨_, hinner, rfl⟩⟩
    rw [operand]
    simp only [Operand.tokens, cons_append, ahead_next, ahead_rest, ahead_skipped,
      head?_cons, tail_cons, advance_words] at hstart ⊢
    rw [hstart]
    rfl

/-- An operator that binds strongly enough takes its right operand, and arranging goes on behind it. -/
lemma operators_of_lt {items : Items α} {left right : Exp α} {a : α} {s s1 : Ahead α}
    (hn : s.next = some a) (hb : bound < s.power items)
    (hsome : (s.advance items).next.isNone = false)
    (hright : operand items fuel (s.power items) (s.advance items) = .ok (right, s1)) :
    operators items (fuel + 1) bound left s
      = operators items fuel bound (.group [left, .leaf a, right]) s1 := by
  rw [operators, hn]
  simp only [hb, if_true, hsome, Bool.false_eq_true, if_false, hright]
  rfl

namespace Step

variable {bound : Nat} {x y : Step}

/-- What binds more strongly than a step that exceeds the bound exceeds it, too. -/
lemma exceeds_of_mem_takeWhile (hb : bound < x.power) {rest : List Step}
    (hy : y ∈ rest.takeWhile (exceeds x.power)) : exceeds bound y = true := by
  have hlt : x.power < y.power := by simpa [exceeds] using mem_takeWhile_imp hy
  simpa [exceeds] using hb.trans hlt

lemma takeWhile_exceeds (hb : bound < x.power) (rest : List Step) :
    (x :: rest).takeWhile (exceeds bound) = x :: rest.takeWhile (exceeds x.power)
        ++ (rest.dropWhile (exceeds x.power)).takeWhile (exceeds bound) := by
  have happend : (rest.takeWhile (exceeds x.power) ++ rest.dropWhile (exceeds x.power)).takeWhile
        (exceeds bound)
      = rest.takeWhile (exceeds x.power)
        ++ (rest.dropWhile (exceeds x.power)).takeWhile (exceeds bound) :=
    takeWhile_append_of_pos fun y hy => exceeds_of_mem_takeWhile hb hy
  rw [takeWhile_append_dropWhile] at happend
  rw [takeWhile_cons_of_pos (by simpa [exceeds] using hb), happend, cons_append]

lemma dropWhile_exceeds (hb : bound < x.power) (rest : List Step) :
    (x :: rest).dropWhile (exceeds bound)
      = (rest.dropWhile (exceeds x.power)).dropWhile (exceeds bound) := by
  have happend : (rest.takeWhile (exceeds x.power) ++ rest.dropWhile (exceeds x.power)).dropWhile
        (exceeds bound)
      = (rest.dropWhile (exceeds x.power)).dropWhile (exceeds bound) :=
    dropWhile_append_of_pos fun y hy => exceeds_of_mem_takeWhile hb hy
  rw [takeWhile_append_dropWhile] at happend
  rw [dropWhile_cons_of_pos (by simpa [exceeds] using hb), happend]

/-- The first of the steps that are left does not bind more strongly than the bound. -/
lemma power_le_of_head_dropWhile {bound' : Nat} {rest : List Step}
    (hy : y ∈ ((rest.dropWhile (exceeds bound)).takeWhile (exceeds bound')).head?) :
    y.power ≤ bound := by
  have hhead := head?_dropWhile_not (exceeds bound) rest
  cases hdrop : rest.dropWhile (exceeds bound) with
  | nil => simp [hdrop] at hy
  | cons z zs =>
    rw [hdrop] at hy hhead
    by_cases hz : exceeds bound' z = true
    · simp only [takeWhile_cons_of_pos hz, head?_cons, Option.mem_def, Option.some.injEq] at hy
      simpa [exceeds, hy] using hhead
    · simp [takeWhile_cons_of_neg hz] at hy

end Step

/-- Arranging steps behind an operand takes those that bind more strongly than the bound, up to the
first one that does not. -/
lemma operators_steps (steps : List Step) (bound : Nat) (left : Exp String)
    (hfuel : 2 * (steps.flatMap Step.tokens).length + 1 ≤ fuel) :
    operators words fuel bound left (ahead (steps.flatMap Step.tokens))
      = .ok (treeFrom left (steps.takeWhile (Step.exceeds bound)),
          ahead ((steps.dropWhile (Step.exceeds bound)).flatMap Step.tokens)) := by
  induction hn : steps.length using Nat.strongRecOn generalizing steps bound left fuel with
  | ind n ih =>
    obtain ⟨fuel, rfl⟩ : ∃ f, fuel = f + 1 := ⟨fuel - 1, by omega⟩
    cases steps with
    | nil =>
      rw [operators, takeWhile_nil, treeFrom_nil]
      rfl
    | cons x rest =>
      have hpower : (ahead ((x :: rest).flatMap Step.tokens)).power words = x.power := rfl
      by_cases hb : bound < x.power
      · simp only [flatMap_cons, Step.tokens, cons_append, length_cons, length_append] at hfuel hn
        have hrest := congrArg (fun l => (l.flatMap Step.tokens).length)
          (takeWhile_append_dropWhile (p := Step.exceeds x.power) (l := rest))
        simp only [flatMap_append, length_append] at hrest
        have hdrop := (dropWhile_sublist (Step.exceeds x.power) (l := rest)).length_le
        -- the operand of `x` takes what binds more strongly than `x`
        have hright : operand words fuel x.power
              (ahead (x.operand.tokens ++ rest.flatMap Step.tokens))
            = .ok (treeFrom x.operand.tree (rest.takeWhile (Step.exceeds x.power)),
                ahead ((rest.dropWhile (Step.exceeds x.power)).flatMap Step.tokens)) := by
          obtain ⟨fuel, rfl⟩ : ∃ f, fuel = f + 1 := ⟨fuel - 1, by omega⟩
          rw [operand_tokens x.operand _ _ (by omega)]
          exact ih rest.length (by omega) rest x.power x.operand.tree (by omega) rfl
        have henough : 2 * ((rest.dropWhile (Step.exceeds x.power)).flatMap Step.tokens).length + 1
            ≤ fuel := by
          omega
        have hbehind := ih (rest.dropWhile (Step.exceeds x.power)).length (by omega) _ bound
          (.group [left, .leaf x.operator,
            treeFrom x.operand.tree (rest.takeWhile (Step.exceeds x.power))]) henough rfl
        rw [treeFrom_append left x (fun y hy => by simpa [Step.exceeds] using mem_takeWhile_imp hy)
          (fun y hy => Step.power_le_of_head_dropWhile hy), ← Step.takeWhile_exceeds hb,
          ← Step.dropWhile_exceeds hb] at hbehind
        rw [← hbehind]
        refine operators_of_lt rfl (by rwa [hpower]) ?_ ?_
        · simp [ahead, Step.tokens, Operand.tokens]
        · rw [hpower, ← hright, ahead, advance_words]
          rfl
      · rw [operators_of_not_lt words fuel left (by rwa [hpower]),
          takeWhile_cons_of_neg (by simpa [Step.exceeds] using hb),
          dropWhile_cons_of_neg (by simpa [Step.exceeds] using hb), treeFrom_nil]

lemma kept_words (row : List String) : kept words row = row := by
  have hkept : row.rdropWhile words.isLayout = row :=
    rdropWhile_eq_self_iff.mpr fun _ => Bool.false_ne_true
  rw [kept, hkept, ite_self]

lemma arrange_tokens (c : Chain) : arrange words c.tokens = .ok c.tree := by
  obtain ⟨o, steps⟩ := c
  have hpos : 0 < o.tokens.length := by simp [Operand.tokens]
  have hmany : operand words (3 * (o.tokens ++ steps.flatMap Step.tokens).length + 6) 0
        (ahead (o.tokens ++ steps.flatMap Step.tokens))
      = .ok ((⟨o, steps⟩ : Chain).tree, ahead []) := by
    have hexceeds : ∀ x ∈ steps, Step.exceeds 0 x = true := by
      intro x _
      exact decide_eq_true (power_pos _)
    rw [operand_tokens o _ 0 (by simp only [length_append]; omega),
      operators_steps steps 0 o.tree (by simp only [length_append]; omega),
      takeWhile_eq_self_iff.mpr hexceeds, dropWhile_eq_nil_iff.mpr hexceeds]
    rfl
  by_cases hone : (o.tokens ++ steps.flatMap Step.tokens).length = 1
  · -- a single word is its own tree
    obtain ⟨ws, w, hws, hw⟩ := o
    cases ws with
    | nil =>
      cases steps with
      | nil =>
        rw [Chain.tree, treeFrom_nil]
        rfl
      | cons x rest => simp [Operand.tokens, Step.tokens] at hone
    | cons v ws => simp [Operand.tokens] at hone
  · rw [Chain.tokens, arrange_of_length_ne_one hone, advance_words, hmany]
    rfl

/-- Arranging the words of a chain gives the tree of the chain. Operators in front of an operand are
applied to it first; the root of the others is the last one of those that bind weakest, and its sides are
the trees of the chains before and behind it. The leaves of the tree are the words, in order. -/
theorem arrange_chain (c : Chain) :
    arrange words c.tokens = .ok c.tree ∧
      (c.steps = [] → c.tree = c.first.tree) ∧
      (∀ x rest, c.steps = x :: rest → ∃ before w behind, Step.Parts (x :: rest) before w behind ∧
        c.tree = .group [(Chain.mk c.first before).tree, .leaf w.operator,
          (Chain.mk w.operand behind).tree]) ∧
      c.tree.leaves = c.tokens := by
  refine ⟨arrange_tokens c, fun hsteps => ?_, fun x rest hsteps => ?_, ?_⟩
  · rw [Chain.tree, hsteps, treeFrom_nil]
  · refine ⟨_, _, _, Step.parts_parted x rest, ?_⟩
    rw [Chain.tree, hsteps, treeFrom_of_parts _ (Step.parts_parted x rest)]
    rfl
  · rw [leaves_arrange (arrange_tokens c), kept_words]

lemma takesOperand_minus : takesOperand "-" = true := by
  have hlower : Text.lower "-" = "-" := rfl
  rw [takesOperand, hlower, Vocabulary.isUnary_minus, Bool.true_or]

lemma isPlain_digit (hw : w ∈ ["1", "2", "3", "4"]) : isPlain w = true := by
  simp only [mem_cons, not_mem_nil, or_false] at hw
  rcases hw with rfl | rfl | rfl | rfl
  all_goals
    rw [isPlain, takesOperand, show Text.lower _ = _ from rfl,
      Vocabulary.isUnary_eq_false rfl (.inl rfl)]
    decide

/-- The chain `-1 + 2 * 3 - 4`: operators that bind equally are taken from the left. -/
theorem arrange_chain_digits :
    arrange words ["-", "1", "+", "2", "*", "3", "-", "4"] = .ok (.group [
      .group [.group [.leaf "-", .leaf "1"], .leaf "+", .group [.leaf "2", .leaf "*", .leaf "3"]],
      .leaf "-", .leaf "4"]) := by
  have hdigit (w : String) (hw : w ∈ ["1", "2", "3", "4"]) :
      ∃ o : Operand, o.tokens = [w] ∧ o.tree = .leaf w :=
    ⟨⟨[], w, nofun, isPlain_digit hw⟩, rfl, rfl⟩
  obtain ⟨one, hone, hone'⟩ : ∃ o : Operand, o.tokens = ["-", "1"] ∧
      o.tree = .group [.leaf "-", .leaf "1"] :=
    ⟨⟨["-"], "1", forall_mem_singleton.mpr takesOperand_minus, isPlain_digit (by simp)⟩, rfl, rfl⟩
  obtain ⟨two, htwo, htwo'⟩ := hdigit "2" (by simp)
  obtain ⟨three, hthree, hthree'⟩ := hdigit "3" (by simp)
  obtain ⟨four, hfour, hfour'⟩ := hdigit "4" (by simp)
  have hsum : power (Text.lower "-") = power (Text.lower "+") := by decide
  have hproduct : power (Text.lower "+") < power (Text.lower "*") := by decide
  have hminus : Step.Parts [⟨"+", two⟩, ⟨"*", three⟩, ⟨"-", four⟩] [⟨"+", two⟩, ⟨"*", three⟩]
      ⟨"-", four⟩ [] := by
    refine ⟨rfl, ?_, by simp⟩
    rw [forall_mem_cons, forall_mem_singleton]
    exact ⟨Nat.le_of_eq hsum, Nat.le_of_lt (hsum.trans_lt hproduct)⟩
  have hplus : Step.Parts [⟨"+", two⟩, ⟨"*", three⟩] [] ⟨"+", two⟩ [⟨"*", three⟩] :=
    ⟨rfl, by simp, forall_mem_singleton.mpr hproduct⟩
  have htimes : Step.Parts [⟨"*", three⟩] [] ⟨"*", three⟩ [] := ⟨rfl, by simp, by simp⟩
  have hchain := (arrange_chain ⟨one, [⟨"+", two⟩, ⟨"*", three⟩, ⟨"-", four⟩]⟩).1
  rw [Chain.tree, treeFrom_of_parts _ hminus, treeFrom_of_parts _ hplus,
    treeFrom_of_parts _ htimes] at hchain
  simpa [treeFrom_nil, Chain.tokens, Step.tokens, hone, htwo, hthree, hfour, hone', htwo', hthree',
    hfour'] using hchain

end ArmaScript.Precedence
