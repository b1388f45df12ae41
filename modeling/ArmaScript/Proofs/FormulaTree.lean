import ArmaScript.Proofs.Accepting
import ArmaScript.Proofs.Formula

/-!
# Trees of formulas

The reader puts the tokens of a formula into a tree whose statements follow the conventions for
formulas: what a statement computes is what the part of the formula stands for.
-/

namespace ArmaScript

open Precedence Build Tree List Text

/-- How strongly an operator binds. -/
def Sign.power : Sign → Nat
  | .times => 70
  | _ => 60

namespace Formula

/-- The node computes the number, with at most `height` statements inside each other. Layout takes no
part in what a statement computes. -/
inductive Computes : Nat → Tree → Int → Prop where
  | literal (height : Nat) (id : NodeId) (n : Int) :
      Computes height (.atom id (.number (some (.int n)))) n
  | single {height : Nat} {id : NodeId} {bracketed : Bool} {children : List Tree} {t : Tree} {n : Int}
      (hbase : children.filter isBase = [t]) (ht : Computes height t n) :
      Computes (height + 1) (.statement id bracketed none children) n
  | neg {height : Nat} {id i : NodeId} {children : List Tree} {t : Tree} {n : Int}
      (hbase : children.filter isBase = [.atom i (token .minus), t])
      (ht : Computes height t n) :
      Computes (height + 1) (.statement id false none children) (-n)
  | binary {height : Nat} {id i : NodeId} {sign : Sign} {children : List Tree} {l r : Tree}
      {m n : Int} (hbase : children.filter isBase = [l, .atom i (token sign), r])
      (hl : Computes height l m) (hr : Computes height r n) :
      Computes (height + 1) (.statement id false none children) (sign.apply m n)

variable {height height' bound fuel size : Nat} {t u : Tree} {n : Int} {e l r : Exp Tree}
  {before after rest row other : List Tree} {s word : String} {level : Level}

lemma Computes.mono (h : Computes height t n) (hle : height ≤ height') : Computes height' t n := by
  induction h generalizing height' with
  | literal height id n => exact .literal height' id n
  | single hbase ht ih =>
    obtain ⟨k, rfl⟩ : ∃ k, height' = k + 1 := ⟨height' - 1, by omega⟩
    exact .single hbase (ih (by omega))
  | neg hbase ht ih =>
    obtain ⟨k, rfl⟩ : ∃ k, height' = k + 1 := ⟨height' - 1, by omega⟩
    exact .neg hbase (ih (by omega))
  | binary hbase hl hr ihl ihr =>
    obtain ⟨k, rfl⟩ : ∃ k, height' = k + 1 := ⟨height' - 1, by omega⟩
    exact .binary hbase (ihl (by omega)) (ihr (by omega))

lemma anyBase_of_mem {children : List Tree} (h : t ∈ children.filter isBase) :
    anyBase children = true := by
  induction children with
  | nil => cases h
  | cons c cs ih =>
    rw [anyBase, Bool.or_eq_true]
    rcases mem_filter.mp h with ⟨hmem, hbase⟩
    rcases mem_cons.mp hmem with rfl | hmem
    · exact .inl hbase
    · exact .inr (ih (mem_filter.mpr ⟨hmem, hbase⟩))

/-- What computes takes part in the statement around it. -/
lemma Computes.isBase (h : Computes height t n) : t.isBase = true := by
  have hstatement {id : NodeId} {b : Bool} {cs : List Tree} {u : Tree} (hu : u ∈ cs.filter Tree.isBase) :
      (statement id b none cs).isBase = true := by
    rw [Tree.isBase, anyBase_of_mem hu, Bool.or_true]
  cases h with
  | literal => rw [isBase]; rfl
  | single hbase | neg hbase | binary hbase => exact hstatement (hbase ▸ mem_cons_self)

/-- A text without letters. -/
def Bare (s : String) : Prop :=
  ∀ c ∈ s.toList, c.toNat < 65

/-- An operand in a row of nodes: a literal, or a formula in parentheses. -/
structure Operand (height : Nat) (t : Tree) (n : Int) : Prop where
  computes : Computes height t n
  bare : Bare t.text
  starts : ∃ c ∈ t.text.toList.head?, c.isDigit = true ∨ c = '('
  notLayout : t.isLayout = false
  noMark : ∀ id text, t ≠ .atom id (.mark text)

/-- Rows of nodes of formulas, with the number of tokens that they reach over. -/
inductive Row : Level → Int → Nat → List Tree → Prop where
  | operand {t : Tree} {n : Int} {size : Nat} (hsize : 1 ≤ size) (ht : Operand (2 * size) t n) :
      Row .factor n size [t]
  | neg (id : NodeId) {n : Int} {size : Nat} {row : List Tree} (h : Row .factor n size row) :
      Row .factor (-n) (size + 1) (.atom id (token .minus) :: row)
  | product (id : NodeId) {m n : Int} {k l : Nat} {row other : List Tree}
      (hrow : Row .product m k row) (hother : Row .factor n l other) :
      Row .product (Sign.times.apply m n) (k + 1 + l) (row ++ .atom id (token .times) :: other)
  | sum (id : NodeId) {sign : Sign} (hsign : sign ≠ .times) {m n : Int} {k l : Nat}
      {row other : List Tree} (hrow : Row .sum m k row) (hother : Row .product n l other) :
      Row .sum (sign.apply m n) (k + 1 + l) (row ++ .atom id (token sign) :: other)
  | ofFactor {n : Int} {size : Nat} {row : List Tree} (h : Row .factor n size row) :
      Row .product n size row
  | ofProduct {n : Int} {size : Nat} {row : List Tree} (h : Row .product n size row) :
      Row .sum n size row
  | blankBefore (id : NodeId) {level : Level} {n : Int} {size : Nat} {row : List Tree}
      (h : Row level n size row) : Row level n (size + 1) (.atom id .space :: row)
  | blankAfter (id : NodeId) {level : Level} {n : Int} {size : Nat} {row : List Tree}
      (h : Row level n size row) : Row level n (size + 1) (row ++ [.atom id .space])

/-! ### Arranging a row -/

def Blanks (row : List Tree) : Prop :=
  ∀ t ∈ row, ∃ id, t = .atom id .space

/-- The arranged row computes the number. -/
inductive Arranged : Nat → Exp Tree → Int → Prop where
  | leaf {height : Nat} {t : Tree} {n : Int} (ht : Operand height t n) : Arranged height (.leaf t) n
  | spaced {height : Nat} {before after : List Tree} {e : Exp Tree} {n : Int}
      (hbefore : Blanks before) (hafter : Blanks after) (he : Arranged height e n) :
      Arranged (height + 1) (.group (before.map .leaf ++ [e] ++ after.map .leaf)) n
  | neg {height : Nat} (id : NodeId) {e : Exp Tree} {n : Int} (he : Arranged height e n) :
      Arranged (height + 1) (.group [.leaf (.atom id (token .minus)), e]) (-n)
  | binary {height : Nat} (id : NodeId) (sign : Sign) {l r : Exp Tree} {m n : Int}
      (hl : Arranged height l m) (hr : Arranged height r n) :
      Arranged (height + 1) (.group [l, .leaf (.atom id (token sign)), r]) (sign.apply m n)

lemma Arranged.mono (h : Arranged height e n) (hle : height ≤ height') : Arranged height' e n := by
  induction h generalizing height' with
  | leaf ht => exact .leaf ⟨ht.computes.mono hle, ht.bare, ht.starts, ht.notLayout, ht.noMark⟩
  | spaced hbefore hafter he ih =>
    obtain ⟨k, rfl⟩ : ∃ k, height' = k + 1 := ⟨height' - 1, by omega⟩
    exact .spaced hbefore hafter (ih (by omega))
  | neg id he ih =>
    obtain ⟨k, rfl⟩ : ∃ k, height' = k + 1 := ⟨height' - 1, by omega⟩
    exact .neg id (ih (by omega))
  | binary id sign hl hr ihl ihr =>
    obtain ⟨k, rfl⟩ : ∃ k, height' = k + 1 := ⟨height' - 1, by omega⟩
    exact .binary id sign (ihl (by omega)) (ihr (by omega))

lemma Arranged.surround (he : Arranged height e n) (hbefore : Blanks before)
    (hafter : Blanks after) : Arranged (height + 1) (surround before e after) n := by
  unfold Precedence.surround
  split
  · exact he.mono (Nat.le_succ height)
  · exact .spaced hbefore hafter he

/-- What follows an operand: nothing, or an operator that binds at most as strongly as `most`. -/
inductive Follows (most : Nat) : List Tree → Prop where
  | nothing : Follows most []
  | word (id : NodeId) {word : String} (hpower : power (Text.lower word) ≤ most)
      (rest : List Tree) : Follows most (.atom id (.keyword word) :: rest)

/-- The row that is left, of which the next item is known. -/
def aheadOf (before rest : List Tree) : Ahead Tree :=
  ⟨rest.head?, before, rest.tail⟩

/-- The row that is left when its first item is looked for behind the blanks `before`. -/
abbrev next (before rest : List Tree) : Ahead Tree :=
  Ahead.advance items ⟨none, before, rest⟩

lemma next_blank (before rest : List Tree) (id : NodeId) :
    next before (.atom id .space :: rest) = next (before ++ [.atom id .space]) rest := by
  have hlayout : items.isLayout (.atom id .space) = true := rfl
  simp [next, Ahead.advance, hlayout]

lemma next_item (before rest : List Tree) (ht : t.isLayout = false) :
    next before (t :: rest) = ⟨some t, before, rest⟩ := by
  have hlayout : items.isLayout t = false := ht
  simp [next, Ahead.advance, hlayout]

/-- Blanks are skipped up to what follows an operand. -/
lemma next_blanks {most : Nat} (hafter : Blanks after) (hrest : Follows most rest) :
    next before (after ++ rest) = aheadOf (before ++ after) rest := by
  induction after generalizing before with
  | nil =>
    rw [nil_append, append_nil]
    cases hrest with
    | nothing => simp [next, Ahead.advance, aheadOf]
    | word id hpower rest => exact next_item before rest rfl
  | cons t ts ih =>
    obtain ⟨id, rfl⟩ := hafter t (by simp)
    rw [cons_append, next_blank, ih fun u hu => hafter u (by simp [hu]), append_assoc]
    rfl

lemma lower_of_bare (h : Bare s) : lower s = s := by
  rw [lower, lowerAfter_of_small fun c hc => .inl (h c hc), String.ofList_toList]

lemma isUpper_of_bare (h : Bare s) : isUpper s = false := by
  have hupper : s.toList.any isUpperChar = false := by
    rw [any_eq_false]
    intro c hc
    have hlt := h c hc
    have hsmall : c.toNat < 128 := by omega
    rw [isUpperChar, if_pos hsmall, Bool.not_eq_true]
    refine decide_eq_false (p := 'A'.val ≤ c.val ∧ c.val ≤ 'Z'.val) fun hletter => ?_
    have hle : 65 ≤ c.toNat := UInt32.le_iff_toNat_le.mp hletter.1
    omega
  rw [isUpper, hupper, Bool.false_and]

lemma Operand.opening (ht : Operand height t n) (s : Ahead Tree) :
    opening items t s = .ok .alone := by
  obtain ⟨c, hhead, hc⟩ := ht.starts
  obtain ⟨cs, htext⟩ : ∃ cs, t.text.toList = c :: cs := by
    cases h : t.text.toList with
    | nil => simp [h] at hhead
    | cons d ds =>
      rw [h] at hhead
      cases hhead
      exact ⟨ds, rfl⟩
  have hunary := Vocabulary.isUnary_eq_false htext hc
  have hne (word : String) (hword : word.toList.head? = some '#') : t.text ≠ word := by
    rintro rfl
    rw [htext] at hword
    cases hword
    exact absurd hc (by decide)
  have hdirective : Vocabulary.unaryDirectives.contains t.text = false := by
    simp [Vocabulary.unaryDirectives, hne "#ifdef" rfl, hne "#ifndef" rfl, hne "#undef" rfl,
      hne "#include" rfl]
  have hdefine : (t.text == "#define") = false := beq_eq_false_iff_ne.mpr (hne _ rfl)
  unfold Precedence.opening
  simp only [items, lower_of_bare ht.bare, hunary, hdirective, hdefine,
    isUpper_of_bare ht.bare, Bool.or_self, Bool.false_eq_true, if_false]

lemma opening_minus (id : NodeId) (s : Ahead Tree) :
    opening items (.atom id (token .minus)) s = .ok .one := by
  have htext : items.text (.atom id (token .minus)) = "-" := rfl
  unfold opening
  simp only [htext]
  have hlower : lower "-" = "-" := rfl
  rw [hlower, Vocabulary.isUnary_minus, Bool.true_or, if_pos rfl]

lemma power_aheadOf (id : NodeId) (word : String) (before rest : List Tree) :
    (aheadOf before (.atom id (.keyword word) :: rest)).power items = power (lower word) :=
  congrArg (fun text => power (lower text)) (text_atom id (.keyword word))

lemma power_char (sign : Sign) : power (lower sign.char.toString) = sign.power := by
  cases sign <;> decide

/-- Operators that do not bind strongly enough are left. -/
lemma operators_stop {most : Nat} (hrest : Follows most rest) (hbound : most ≤ bound) :
    operators items (fuel + 1) bound e (aheadOf [] rest) = .ok (e, aheadOf [] rest) := by
  cases hrest with
  | nothing => rfl
  | @word id word hpower rest =>
    rw [operators]
    change (if bound < (aheadOf [] (.atom id (.keyword word) :: rest)).power items then _
      else _) = _
    rw [power_aheadOf, if_neg (by omega)]

/-- The bounds that a part of a level can stand behind. -/
def Level.Allows : Level → Nat → Prop
  | .factor, _ => True
  | .product, bound => bound < Sign.power .times
  | .sum, bound => bound < Sign.power .plus

/-- How strongly the operator behind a part of a level can bind. -/
def Level.most : Level → Nat
  | .sum => Sign.power .plus
  | _ => Sign.power .times

lemma Row.ne_nil (h : Row level n size row) : row ≠ [] := by
  induction h <;> simp_all

/-- A row whose first operand is an item: how the item starts decides. -/
lemma operand_item (ht : t.isLayout = false) {s : Ahead Tree}
    (h : start items fuel t (next [] rest) = .ok (e, s)) : operand items (fuel + 1) bound
        (next before (t :: rest)) = operators items fuel bound (surround before e s.skipped)
        ⟨s.next, [], s.rest⟩ := by
  rw [next_item before rest ht, operand]
  simp only [h]
  rfl

/-- A row of a formula starts with an item behind its blanks. -/
lemma Row.isSome_next (h : Row level n size row) (before rest : List Tree) :
    (next before (row ++ rest)).next.isSome = true := by
  induction h generalizing before rest with
  | operand hsize ht => rw [singleton_append, next_item before rest ht.notLayout]; rfl
  | neg id h ih => rw [cons_append, next_item before _ rfl]; rfl
  | product id hrow hother ihrow ihother | sum id hsign hrow hother ihrow ihother =>
    rw [append_assoc]; exact ihrow before _
  | ofFactor h ih | ofProduct h ih => exact ih before rest
  | blankBefore id h ih => rw [cons_append, next_blank]; exact ih _ rest
  | blankAfter id h ih => rw [append_assoc]; exact ih before _

/-- Behind an operator that binds strongly enough the right operand is arranged. -/
lemma operators_word (id : NodeId) (hbound : bound < power (lower word)) {s : Ahead Tree}
    (hnext : (next [] rest).next.isSome = true)
    (h : operand items fuel (power (lower word)) (next [] rest) = .ok (r, s)) :
    operators items (fuel + 1) bound l (aheadOf [] (.atom id (.keyword word) :: rest)) =
      operators items fuel bound (.group [l, .leaf (.atom id (.keyword word)), r]) s := by
  have hpower := power_aheadOf id word [] rest
  have hadvance : Ahead.advance items (aheadOf [] (.atom id (.keyword word) :: rest)) =
      next [] rest := rfl
  rw [operators]
  change (if bound < (aheadOf [] (.atom id (.keyword word) :: rest)).power items then _ else _) = _
  rw [hpower, if_pos hbound, hadvance]
  have hnone : (next [] rest).next.isNone = false := by
    rw [Option.isNone_eq_false_iff, hnext]
  simp only [hnone, h]
  rfl

/-- The row is arranged into what computes the number, whatever the blanks around it are and whatever
follows it. -/
def Arranges (level : Level) (n : Int) (size : Nat) (row : List Tree) : Prop :=
  ∀ (bound fuel : Nat) (before after rest : List Tree), level.Allows bound → Blanks before →
    Blanks after → Follows level.most rest → 3 * row.length ≤ fuel →
    ∃ e left, Arranged (2 * size + 1) e n ∧ fuel ≤ left + 3 * row.length ∧
      operand items (fuel + 1) bound
        (next before (row ++ (after ++ rest))) =
      operators items left bound e (aheadOf [] rest)

lemma Blanks.nil : Blanks [] := by
  simp [Blanks]

lemma Blanks.cons (id : NodeId) (h : Blanks row) : Blanks (.atom id .space :: row) := by
  intro t ht
  rcases mem_cons.mp ht with rfl | ht
  · exact ⟨id, rfl⟩
  · exact h t ht

lemma Blanks.append (h : Blanks row) (hother : Blanks other) : Blanks (row ++ other) := by
  intro t ht
  rcases mem_append.mp ht with ht | ht
  · exact h t ht
  · exact hother t ht

lemma Arranges.operand (ht : Operand (2 * size) t n) : Arranges .factor n size [t] := by
  intro bound fuel before after rest hbound hbefore hafter hrest hfuel
  rw [length_singleton] at hfuel
  obtain ⟨fuel, rfl⟩ : ∃ k, fuel = k + 1 := ⟨fuel - 1, by omega⟩
  have hstart : start items (fuel + 1) t
      (next [] (after ++ rest)) =
        .ok (.leaf t, aheadOf after rest) := by
    rw [next_blanks hafter hrest, nil_append, start, ht.opening]
    rfl
  refine ⟨_, fuel + 1, (Arranged.leaf ht).surround hbefore hafter, by omega, ?_⟩
  rw [singleton_append, operand_item ht.notLayout hstart]
  rfl

lemma Arranges.neg (id : NodeId) (h : Arranges .factor n size row) :
    Arranges .factor (-n) (size + 1) (.atom id (token .minus) :: row) := by
  intro bound fuel before after rest hbound hbefore hafter hrest hfuel
  rw [length_cons] at hfuel
  obtain ⟨fuel, rfl⟩ : ∃ k, fuel = k + 2 := ⟨fuel - 2, by omega⟩
  obtain ⟨e, left, he, hleft, hoperand⟩ :=
    h prefixPower fuel [] after rest trivial .nil hafter hrest (by omega)
  obtain ⟨left, rfl⟩ : ∃ k, left = k + 1 := ⟨left - 1, by omega⟩
  -- Nothing binds as strongly as the sign in front, so the operand ends with its row.
  rw [operators_stop hrest (by decide)] at hoperand
  have hstart : start items (fuel + 2) (.atom id (token .minus))
      (next [] (row ++ (after ++ rest))) =
        .ok (.group [.leaf (.atom id (token .minus)), e], aheadOf [] rest) := by
    rw [start, opening_minus]
    simp only [hoperand]
    rfl
  refine ⟨_, fuel + 2, ((Arranged.neg id he).surround hbefore .nil).mono (by omega), by omega, ?_⟩
  rw [cons_append, operand_item rfl hstart]
  rfl

/-- Two parts with an operator between them: the left part goes on to the operator, and the right part
ends before what follows. -/
lemma Arranges.between (id : NodeId) {other : Level} {m : Int} {k l : Nat} {row' : List Tree}
    (hrow : Arranges level m k row) (hother : Arranges other n l row')
    (hnext : ∀ rest, (next [] (row' ++ rest)).next.isSome = true)
    (hmost : power (lower word) ≤ level.most)
    (hallows : other.Allows (power (lower word))) (hlevel : level.Allows bound)
    (hbound : bound < power (lower word)) (hbefore : Blanks before)
    (hafter : Blanks after) (hrest : Follows (power (lower word)) rest)
    (hfollows : Follows other.most rest)
    (hfuel : 3 * (row ++ .atom id (.keyword word) :: row').length ≤ fuel) :
    ∃ left right g, Arranged (2 * k + 1) left m ∧ Arranged (2 * l + 1) right n ∧
      fuel ≤ g + 3 * (row ++ .atom id (.keyword word) :: row').length ∧
      Precedence.operand items (fuel + 1) bound
        (next before (row ++ .atom id (.keyword word) :: row' ++ (after ++ rest))) =
      operators items g bound
        (.group [left, .leaf (.atom id (.keyword word)), right]) (aheadOf [] rest) := by
  rw [length_append, length_cons] at hfuel ⊢
  obtain ⟨left, g, hl, hg, hoperand⟩ := hrow bound fuel before [] _ hlevel hbefore .nil
    (.word id hmost (row' ++ (after ++ rest))) (by omega)
  obtain ⟨h, rfl⟩ : ∃ h, g = h + 2 := ⟨g - 2, by omega⟩
  obtain ⟨right, g', hr, hg', hright⟩ := hother _ h [] after rest hallows .nil hafter hfollows (by omega)
  obtain ⟨g', rfl⟩ : ∃ k, g' = k + 1 := ⟨g' - 1, by omega⟩
  rw [operators_stop hrest (Nat.le_refl _)] at hright
  refine ⟨left, right, h + 1, hl, hr, by omega, ?_⟩
  rw [append_assoc, cons_append]
  exact hoperand.trans (operators_word id hbound (hnext _) hright)

lemma Arranges.binary (id : NodeId) (sign : Sign) {other : Level} {m : Int} {k l : Nat}
    {row' : List Tree} (hrow : Arranges level m k row) (hother : Arranges other n l row')
    (hnext : ∀ rest, (next [] (row' ++ rest)).next.isSome = true)
    (hlevel : ∀ bound, level.Allows bound → bound < sign.power) (hallows : other.Allows sign.power)
    (hmost : level.most = sign.power)
    (hmono : ∀ rest, Follows level.most rest → Follows other.most rest) :
    Arranges level (sign.apply m n) (k + 1 + l) (row ++ .atom id (token sign) :: row') := by
  intro bound fuel before after rest hbound hbefore hafter hrest hfuel
  rw [← power_char] at hallows hmost
  obtain ⟨left, right, g, hl, hr, hg, hoperand⟩ := hrow.between id hother hnext hmost.ge hallows hbound
    (power_char sign ▸ hlevel bound hbound) hbefore hafter (hmost ▸ hrest) (hmono rest hrest) hfuel
  exact ⟨_, g, (Arranged.binary id sign (hl.mono (Nat.le_add_right _ (2 * l)))
    (hr.mono (by omega))).mono (by omega), hg, hoperand⟩

lemma Follows.mono {most most' : Nat} (h : Follows most rest) (hle : most ≤ most') :
    Follows most' rest := by
  cases h with
  | nothing => exact .nothing
  | word id hpower rest => exact .word id (hpower.trans hle) rest

lemma Row.arranges (h : Row level n size row) : Arranges level n size row := by
  induction h with
  | operand hsize ht => exact .operand ht
  | neg id h ih => exact ih.neg id
  | product id hrow hother ihrow ihother =>
    exact ihrow.binary id .times ihother (hother.isSome_next []) (fun bound h => h) trivial rfl
      fun rest h => h
  | @sum id sign hsign m n k l row other hrow hother ihrow ihother =>
    have hpower : sign.power = Sign.power .plus := by cases sign <;> first | rfl | contradiction
    exact ihrow.binary id sign ihother (hother.isSome_next []) (fun bound h => hpower ▸ h)
      (hpower ▸ (by decide : Sign.power .plus < Sign.power .times)) hpower.symm
      fun rest h => h.mono (by decide)
  | ofFactor h ih => exact fun bound fuel before after rest _ => ih bound fuel before after rest trivial
  | ofProduct h ih =>
    intro bound fuel before after rest hbound hbefore hafter hrest
    exact ih bound fuel before after rest (Nat.lt_trans hbound (by decide)) hbefore hafter
      (hrest.mono (by decide))
  | @blankBefore id level n size row h ih =>
    intro bound fuel before after rest hbound hbefore hafter hrest hfuel
    rw [length_cons] at hfuel
    obtain ⟨e, left, he, hleft, hoperand⟩ :=
      ih bound fuel _ after rest hbound (hbefore.append (Blanks.nil.cons id)) hafter hrest (by omega)
    refine ⟨e, left, he.mono (by omega), by rw [length_cons]; omega, ?_⟩
    rw [cons_append, next_blank]
    exact hoperand
  | @blankAfter id level n size row h ih =>
    intro bound fuel before after rest hbound hbefore hafter hrest hfuel
    rw [length_append, length_singleton] at hfuel
    obtain ⟨e, left, he, hleft, hoperand⟩ :=
      ih bound fuel before _ rest hbound hbefore (hafter.cons id) hrest (by omega)
    refine ⟨e, left, he.mono (by omega), by rw [length_append]; omega, ?_⟩
    rw [append_assoc]
    exact hoperand

lemma singleton_ne_append_cons (h : row ≠ []) : [t] ≠ row ++ u :: other := by
  intro heq
  rcases append_eq_singleton_iff.mp heq.symm with ⟨hrow, -⟩ | ⟨-, hother⟩
  · exact h hrow
  · cases hother

lemma Row.of_singleton (h : Row level n size [t]) : Operand (2 * size) t n := by
  generalize hrow : [t] = row at h
  induction h with
  | operand hsize ht =>
    cases hrow
    exact ht
  | neg id h ih | blankBefore id h =>
    cases hrow
    exact absurd rfl h.ne_nil
  | product id h hother | sum id hsign h hother | blankAfter id h =>
    exact absurd hrow (singleton_ne_append_cons h.ne_nil)
  | ofFactor h ih => exact ih hrow
  | ofProduct h ih => exact ih hrow

lemma Row.arrange (h : Row .sum n size row) :
    ∃ e, arrange items row = .ok e ∧ Arranged (2 * size + 1) e n := by
  unfold Precedence.arrange
  split
  · exact ⟨_, rfl, (Arranged.leaf h.of_singleton).mono (Nat.le_succ _)⟩
  · obtain ⟨e, left, he, hleft, hoperand⟩ := h.arranges 0 (3 * row.length + 5) [] [] []
      (by decide : 0 < Sign.power .plus) .nil .nil .nothing (by omega)
    obtain ⟨left, rfl⟩ : ∃ k, left = k + 1 := ⟨left - 1, by omega⟩
    rw [operators_stop .nothing (Nat.zero_le 0)] at hoperand
    rw [append_nil, append_nil] at hoperand
    refine ⟨e, ?_, he⟩
    rw [hoperand]
    rfl

/-! ### From the tokens to a tree -/

lemma Bare.of_all (h : (s.toList.all fun c => decide (c.toNat < 65)) = true) : Bare s :=
  fun c hc => of_decide_eq_true (all_eq_true.1 h c hc)

lemma Bare.append {t : String} (hs : Bare s) (ht : Bare t) : Bare (s ++ t) := by
  intro c hc
  rw [String.toList_append] at hc
  rcases mem_append.mp hc with hc | hc
  · exact hs c hc
  · exact ht c hc

lemma bare_textList {ts : List Tree} (h : ∀ t ∈ ts, Bare t.text) : Bare (textList ts) := by
  induction ts with
  | nil =>
    rw [textList_nil]
    exact fun c hc => absurd hc (by simp)
  | cons t ts ih =>
    rw [textList_cons]
    exact (h t (by simp)).append (ih fun u hu => h u (by simp [hu]))

lemma bare_token (id : NodeId) (sign : Sign) : Bare (atom id (token sign)).text := by
  rw [text_atom]
  cases sign <;> exact Bare.of_all rfl

lemma Blanks.bare (h : Blanks row) : ∀ t ∈ row, Bare t.text := by
  intro t ht
  obtain ⟨id, rfl⟩ := h t ht
  rw [text_atom]
  exact Bare.of_all rfl

lemma Blanks.filter_isBase (h : Blanks row) : row.filter isBase = [] := by
  rw [filter_eq_nil_iff]
  intro t ht
  obtain ⟨id, rfl⟩ := h t ht
  rw [isBase]
  decide

lemma ofExpList_append (es fs : List (Exp Tree)) :
    ofExpList (es ++ fs) = (do return (← ofExpList es) ++ (← ofExpList fs)) := by
  induction es with
  | nil => simp [ofExpList]
  | cons e es ih => simp [ofExpList, ih]

lemma ofExpList_map_leaf (ts : List Tree) : ofExpList (ts.map .leaf) = pure ts := by
  induction ts with
  | nil => rfl
  | cons t ts ih => simp [ofExpList, ofExp, ih]

lemma ofExp_between {σ σ1 σ2 : BuildState} (id : NodeId) (a : Atom)
    (hl : ofExp l σ = .ok t σ1) (hr : ofExp r σ1 = .ok u σ2) :
    ofExp (.group [l, .leaf (.atom id a), r]) σ =
      .ok (.statement σ2.nextId false none [t, .atom id a, u]) ⟨σ2.nextId + 1, σ2.definitions⟩ := by
  rw [ofExp]
  simp only [ofExpList, ofExp, pure_bind, bind_assoc]
  exact bind_eq hl (bind_of_eq_ok hr)

lemma filter_isBase_between (ht : t.isBase = true) (hu : u.isBase = true) (id : NodeId)
    (word : String) :
    [t, .atom id (.keyword word), u].filter isBase = [t, .atom id (.keyword word), u] := by
  rw [filter_cons_of_pos ht, filter_cons_of_pos (by rw [isBase]; rfl), filter_singleton, hu]
  rfl

/-- An arranged row is built into a node that computes the same. -/
lemma Arranged.ofExp (h : Arranged height e n) (σ : BuildState) :
    ∃ t σ', ofExp e σ = .ok t σ' ∧ Computes height t n ∧ Bare t.text := by
  induction h generalizing σ with
  | @leaf height t n ht =>
    refine ⟨t, σ, ?_, ht.computes, ht.bare⟩
    rw [Build.ofExp]
    rfl
  | @spaced height before after e n hbefore hafter he ih =>
    obtain ⟨t, σ1, ht, hcomputes, hbare⟩ := ih σ
    refine ⟨.statement σ1.nextId false none (before ++ [t] ++ after),
      ⟨σ1.nextId + 1, σ1.definitions⟩, ?_, .single ?_ hcomputes, ?_⟩
    · rw [Build.ofExp, ofExpList_append, ofExpList_append, ofExpList_map_leaf, ofExpList_map_leaf]
      simp only [ofExpList, pure_bind, bind_assoc]
      exact bind_of_eq_ok ht
    · rw [filter_append, filter_append, hbefore.filter_isBase, hafter.filter_isBase,
        filter_singleton, hcomputes.isBase]
      rfl
    · rw [text_statement]
      refine bare_textList fun u hu => ?_
      rcases mem_append.mp hu with hu | hu
      · rcases mem_append.mp hu with hu | hu
        · exact hbefore.bare u hu
        · exact mem_singleton.mp hu ▸ hbare
      · exact hafter.bare u hu
  | @neg height id e n he ih =>
    obtain ⟨t, σ1, ht, hcomputes, hbare⟩ := ih σ
    refine ⟨.statement σ1.nextId false none [.atom id (token .minus), t],
      ⟨σ1.nextId + 1, σ1.definitions⟩, ?_,
      .neg (i := id) ?_ hcomputes, ?_⟩
    · rw [Build.ofExp]
      simp only [ofExpList, pure_bind, bind_assoc]
      exact bind_of_eq_ok ht
    · rw [filter_cons_of_pos (by rw [isBase]; rfl), filter_singleton, hcomputes.isBase]
      rfl
    · rw [text_statement]
      refine bare_textList fun u hu => ?_
      rcases mem_cons.mp hu with rfl | hu
      · exact bare_token id .minus
      · exact mem_singleton.mp hu ▸ hbare
  | @binary height id sign l r m n hl hr ihl ihr =>
    obtain ⟨t, σ1, ht, hcomputes, hbare⟩ := ihl σ
    obtain ⟨u, σ2, hu, hcomputes', hbare'⟩ := ihr σ1
    refine ⟨_, _, ofExp_between id (token sign) ht hu,
      .binary (filter_isBase_between hcomputes.isBase hcomputes'.isBase id _) hcomputes hcomputes', ?_⟩
    rw [text_statement]
    refine bare_textList fun v hv => ?_
    simp only [mem_cons, not_mem_nil, or_false] at hv
    rcases hv with rfl | rfl | rfl
    · exact hbare
    · exact bare_token id sign
    · exact hbare'

lemma Row.noMark (h : Row level n size row) : ∀ t ∈ row, ∀ id text, t ≠ .atom id (.mark text) := by
  induction h with
  | operand hsize ht => exact fun t hmem => mem_singleton.mp hmem ▸ ht.noMark
  | neg i h ih =>
    rw [forall_mem_cons]
    exact ⟨fun id text => by simp [token], ih⟩
  | product i hrow hother ihrow ihother | sum i hsign hrow hother ihrow ihother =>
    rw [forall_mem_append, forall_mem_cons]
    exact ⟨ihrow, fun id text => by simp [token], ihother⟩
  | ofFactor h ih => exact ih
  | ofProduct h ih => exact ih
  | blankBefore i h ih =>
    rw [forall_mem_cons]
    exact ⟨fun id text => by simp, ih⟩
  | blankAfter i h ih =>
    rw [forall_mem_append]
    exact ⟨ih, by simp⟩

lemma endingOf?_eq_none (h : ∀ t ∈ row, ∀ id text, t ≠ .atom id (.mark text)) :
    endingOf? row = none := by
  unfold endingOf?
  split
  · rename_i id text hlast
    exact absurd rfl (h _ (mem_of_getLast? hlast) id text)
  · rfl

lemma exists_arrange (h : ∀ t ∈ row, ∀ id text, t ≠ .atom id (.mark text))
    (hrow : arrange items row = .ok e) : ∃ f : Tree → Build Tree, arrange row = ofExp e >>= f ∧
      (∀ id a, f (.atom id a) = do setEnding (← statement [.atom id a]) none) ∧
      ∀ id b en cs, f (.statement id b en cs) = Build.setEnding (.statement id b en cs) none := by
  refine ⟨?f, ?row, ?atom, ?statement⟩
  case row =>
    unfold Build.arrange
    rw [endingOf?_eq_none h]
    simp only [Option.isSome_none, Bool.false_eq_true, if_false, hrow, Build.lift, pure_bind]
    rfl
  case atom => exact fun _ _ => rfl
  case statement => exact fun _ _ _ _ => rfl

/-- A row of a formula becomes a statement that computes the formula. -/
lemma Row.build (h : Row .sum n size row) (σ : BuildState) :
    ∃ t σ', Build.arrange row σ = .ok t σ' ∧ Computes (2 * size + 2) t n ∧ Bare t.text := by
  obtain ⟨e, hrow, harranged⟩ := h.arrange
  obtain ⟨f, hf, hatom, hstatement⟩ := exists_arrange h.noMark hrow
  obtain ⟨t, σ1, ht, hcomputes, hbare⟩ := harranged.ofExp σ
  rw [hf, bind_of_eq_ok ht]
  have hmono := hcomputes.mono (Nat.le_succ (2 * size + 1))
  cases hcomputes with
  | literal height id =>
    rw [hatom]
    refine ⟨_, _, rfl, .single (t := .atom id (.number (some (.int n)))) ?_ (.literal _ id n), ?_⟩
    · rfl
    · simpa using hbare
  | single | neg | binary =>
    rw [hstatement]
    exact ⟨_, σ1, rfl, hmono, hbare⟩

lemma bare_number (id : NodeId) (n : Nat) : Bare (atom id (.number (some (.int n)))).text ∧
      ∃ c ∈ (atom id (.number (some (.int n)))).text.toList.head?, c.isDigit = true := by
  have htext : (atom id (.number (some (.int n)))).text.toList = Nat.toDigits 10 n := by
    rw [text_atom]
    exact Nat.toList_repr
  have hdigit : ∀ c ∈ Nat.toDigits 10 n, c.isDigit = true :=
    fun c hc => Nat.isDigit_of_mem_toDigits (by decide) (by decide) hc
  unfold Bare
  rw [htext]
  constructor
  · intro c hc
    have h := hdigit c hc
    simp only [Char.isDigit, Bool.and_eq_true, decide_eq_true_eq] at h
    have hle : c.toNat ≤ 57 := UInt32.le_iff_toNat_le.mp h.2
    omega
  · obtain ⟨c, cs, hcs⟩ := exists_cons_of_ne_nil (Nat.toDigits_ne_nil (n := n) (b := 10))
    rw [hcs]
    exact ⟨c, rfl, hdigit c (hcs ▸ mem_cons_self)⟩

lemma operand_number (id : NodeId) (height n : Nat) :
    Operand height (.atom id (.number (some (.int n)))) n := by
  obtain ⟨hbare, c, hc, hdigit⟩ := bare_number id n
  exact ⟨.literal height id n, hbare, ⟨c, hc, .inl hdigit⟩, rfl, by simp⟩

lemma operand_bracketed (h : Computes (2 * size + 2) t n) (hbare : Bare t.text) (i j id : NodeId) :
    Operand (2 * (size + 2)) (.statement id true none [.atom i (.mark "("), t, .atom j (.mark ")")]) n where
  computes := by
    refine (Computes.single (t := t) ?_ h).mono (by omega)
    rw [filter_cons_of_neg (by rw [isBase]; decide), filter_cons_of_pos h.isBase,
      filter_cons_of_neg (by rw [isBase]; decide), filter_nil]
  bare := by
    rw [text_statement]
    refine bare_textList fun u hu => ?_
    simp only [mem_cons, not_mem_nil, or_false] at hu
    rcases hu with rfl | rfl | rfl
    · rw [text_atom]
      exact Bare.of_all rfl
    · exact hbare
    · rw [text_atom]
      exact Bare.of_all rfl
  starts := by
    refine ⟨'(', ?_, .inr rfl⟩
    rw [text_statement, textList_cons, text_atom, String.toList_append]
    rfl
  notLayout := rfl
  noMark := by simp

/-- Wherever the tokens stand, they have an outline that adds nodes with a property to the row. -/
def Builds (tokens : List Atom) (P : List Tree → Prop) : Prop :=
  ∀ (around : List Bracket) (stop : Stop) (firstId : NodeId), ∃ content,
    Item.flatList content = Script.leaves firstId tokens ∧ Item.OpenList around content ∧
    ∀ row statements σ, ∃ trees σ',
      Item.buildList stop content row statements σ = .ok (row ++ trees, statements) σ' ∧ P trees

namespace Builds

variable {P Q : List Tree → Prop} {tokens : List Atom}

lemma mono (h : Builds tokens P) (himp : ∀ row, P row → Q row) : Builds tokens Q := by
  intro around stop firstId
  obtain ⟨content, hflat, hopen, hbuild⟩ := h around stop firstId
  refine ⟨content, hflat, hopen, fun row statements σ => ?_⟩
  obtain ⟨trees, σ', hlist, htrees⟩ := hbuild row statements σ
  exact ⟨trees, σ', hlist, himp trees htrees⟩

lemma token {a : Atom} (hmark : ∀ text, a ≠ .mark text) (hend : a.kind ≠ .fileEnd) :
    Builds [a] fun row => ∃ id, row = [.atom id a] := by
  intro around stop firstId
  have hisMark (text : String) : a.isMark text = false :=
    Bool.eq_false_iff.mpr fun h => hmark text (Atom.eq_mark_of_isMark h)
  have hisEnd : stop.isEnd (.atom firstId a) = false := by
    cases a with
    | mark text => exact absurd rfl (hmark text)
    | fileEnd => exact absurd rfl hend
    | _ => rfl
  refine ⟨[.token (.atom firstId a)], by simp [Script.leaves],
    ⟨⟨by simp [opens?, atom?, Atom.opens?, hisMark],
      by simp [closes?, atom?, Atom.closes?, hisMark]⟩, trivial⟩,
    fun row statements σ => ⟨[.atom firstId a], σ, ?_, firstId, rfl⟩⟩
  have hrow : rowWith row (.atom firstId a) = row ++ [.atom firstId a] := by
    rw [rowWith, if_neg (by simpa [kind] using hend)]
  rw [Item.buildList_cons, Item.build_token, pure_bind, hisEnd, hrow]
  rfl

lemma sign (sign : Sign) : Builds [Formula.token sign] fun row =>
    ∃ id, row = [.atom id (Formula.token sign)] :=
  token (by simp [Formula.token]) (by simp [Formula.token, Atom.kind])

lemma append {others : List Atom} (h : Builds tokens P) (hothers : Builds others Q) :
    Builds (tokens ++ others) fun row => ∃ l r, row = l ++ r ∧ P l ∧ Q r := by
  intro around stop firstId
  obtain ⟨content, hflat, hopen, hbuild⟩ := h around stop firstId
  obtain ⟨content', hflat', hopen', hbuild'⟩ := hothers around stop (firstId + tokens.length)
  refine ⟨content ++ content', ?_, Item.openList_append.mpr ⟨hopen, hopen'⟩,
    fun row statements σ => ?_⟩
  · rw [Item.flatList_append, hflat, hflat', Script.leaves_append]
  · obtain ⟨l, σ1, hl, hP⟩ := hbuild row statements σ
    obtain ⟨r, σ2, hr, hQ⟩ := hbuild' (row ++ l) statements σ1
    refine ⟨l ++ r, σ2, ?_, l, r, rfl, hP, hQ⟩
    rw [Item.buildList_append, ← append_assoc]
    exact bind_eq hl hr

/-- Parentheses around a formula make one operand of it. -/
lemma parens (h : Builds tokens (Row .sum n size)) :
    Builds (.mark "(" :: tokens ++ [.mark ")"]) fun row => ∃ t, row = [t] ∧ Operand (2 * (size + 2)) t n := by
  intro around stop firstId
  obtain ⟨content, hflat, hopen, hbuild⟩ := h (.round :: around) stop (firstId + 1)
  refine ⟨[.group (.atom firstId (.mark "("))
    (.atom (firstId + 1 + tokens.length) (.mark ")")) content], ?_,
    ⟨⟨.round, rfl, ⟨.round, rfl, mem_cons_self⟩, hopen⟩, trivial⟩, fun row statements σ => ?_⟩
  · simp [hflat, Script.leaves, Script.leaves_append]
  · obtain ⟨trees, σ1, hlist, hrow⟩ := hbuild [] [] σ
    obtain ⟨t, σ2, ht, hcomputes, hbare⟩ := hrow.build σ1
    have hclose : closeRow trees [] σ1 = .ok [t] σ2 := by
      rw [closeRow, if_neg (by simpa using hrow.ne_nil)]
      exact bind_of_eq_ok ht
    have hnode : (Item.group (.atom firstId (.mark "("))
        (.atom (firstId + 1 + tokens.length) (.mark ")")) content).build stop σ =
          .ok (.statement (σ2.nextId + 2) true none [.atom σ2.nextId (.mark "("), t,
            .atom (σ2.nextId + 1) (.mark ")")]) ⟨σ2.nextId + 3, σ2.definitions⟩ := by
      rw [Item.build]
      exact bind_eq hlist (bind_of_eq_ok hclose)
    refine ⟨[.statement (σ2.nextId + 2) true none [.atom σ2.nextId (.mark "("), t,
      .atom (σ2.nextId + 1) (.mark ")")]], ⟨σ2.nextId + 3, σ2.definitions⟩, ?_, _, rfl,
      operand_bracketed hcomputes hbare _ _ _⟩
    rw [Item.buildList_cons]
    exact bind_of_eq_ok hnode

end Builds

lemma Spelt.builds {a : Formula} {tokens : List Atom} (h : Spelt level a tokens) :
    Builds tokens (Row level a.value tokens.length) := by
  induction h with
  | literal n =>
    refine (Builds.token (by simp) (by simp [Atom.kind])).mono ?_
    rintro row ⟨id, rfl⟩
    exact .operand (Nat.le_refl 1) (operand_number id 2 n)
  | @parens a ts h ih =>
    refine ih.parens.mono ?_
    rintro row ⟨t, rfl, ht⟩
    rw [cons_append, length_cons, length_append, length_singleton]
    exact .operand (by omega) ht
  | neg h ih =>
    refine ((Builds.sign .minus).append ih).mono ?_
    rintro row ⟨l, r, rfl, ⟨id, rfl⟩, hr⟩
    exact .neg id hr
  | @product a b ts us ha hb iha ihb =>
    refine (iha.append ((Builds.sign .times).append ihb)).mono ?_
    rintro row ⟨l, r, rfl, hl, _, r, rfl, ⟨id, rfl⟩, hr⟩
    rw [length_append, length_cons, Nat.add_comm us.length, ← Nat.add_assoc]
    exact .product id hl hr
  | @sum sign hsign a b ts us ha hb iha ihb =>
    refine (iha.append ((Builds.sign sign).append ihb)).mono ?_
    rintro row ⟨l, r, rfl, hl, _, r, rfl, ⟨id, rfl⟩, hr⟩
    rw [length_append, length_cons, Nat.add_comm us.length, ← Nat.add_assoc]
    exact .sum id hsign hl hr
  | ofFactor h ih => exact ih.mono fun row => .ofFactor
  | ofProduct h ih => exact ih.mono fun row => .ofProduct
  | blankBefore h ih =>
    refine ((Builds.token (by simp) (by simp [Atom.kind])).append ih).mono ?_
    rintro row ⟨l, r, rfl, ⟨id, rfl⟩, hr⟩
    exact .blankBefore id hr
  | blankAfter h ih =>
    refine (ih.append (Builds.token (by simp) (by simp [Atom.kind]))).mono ?_
    rintro row ⟨l, r, rfl, hl, ⟨id, rfl⟩⟩
    rw [length_append]
    exact .blankAfter id hl

lemma Lexes.read {s : List Char} {tokens : List Atom} {P : List Tree → Prop} {Q : Tree → Prop}
    (hlexes : Lexes s tokens) (h : Builds tokens P) (hrow : ∀ row, P row → row ≠ [] ∧
      ∀ σ, ∃ t σ', arrange row σ = .ok t σ' ∧ Q t) (firstId : NodeId) :
    ∃ script id t, Script.read (String.ofList s) firstId = .ok script ∧
      script.tree = .statement id false none [t] ∧ Q t := by
  obtain ⟨content, hflat, hopen, hbuild⟩ := h [] .both firstId
  obtain ⟨trees, σ1, hlist, htrees⟩ := hbuild [] [] ⟨firstId + (tokens.length + 1), []⟩
  obtain ⟨hne, harrange⟩ := hrow trees htrees
  obtain ⟨t, σ2, ht, hQ⟩ := harrange σ1
  have hclose : closeRow trees [] σ1 = .ok [t] σ2 := by
    rw [closeRow, if_neg (by simpa using hne)]
    exact bind_of_eq_ok ht
  have hscript : Item.buildScript content ⟨firstId + (tokens.length + 1), []⟩ =
      .ok (.statement σ2.nextId false none [t]) ⟨σ2.nextId + 1, σ2.definitions⟩ :=
    bind_eq hlist (bind_of_eq_ok hclose)
  have hdefinitions : σ2.definitions = [] := by
    rw [keeps_arrange _ ht, Item.keeps_buildList _ _ _ _ hlist]
  rw [hdefinitions] at hscript
  exact ⟨⟨.statement σ2.nextId false none [t], σ2.nextId + 1⟩, σ2.nextId, t,
    (Script.read_eq_ok_iff hlexes.lex hlexes.plain).mpr ⟨content, hflat, hopen, hscript⟩, rfl, hQ⟩

lemma Written.read {a : Formula} {s : List Char} (h : Written .sum a s) (hshort : Short s)
    (firstId : NodeId) : ∃ script id t, Script.read (String.ofList s) firstId = .ok script ∧
      script.tree = .statement id false none [t] ∧ Computes (2 * s.length + 2) t a.value := by
  obtain ⟨tokens, hlexes, hspelt⟩ := h.lexes hshort
  refine hlexes.read hspelt.builds (fun row hrow => ⟨hrow.ne_nil, fun σ => ?_⟩) firstId
  obtain ⟨t, σ', ht, hcomputes, -⟩ := hrow.build σ
  have hlength := hlexes.length
  exact ⟨t, σ', ht, hcomputes.mono (by omega)⟩

end Formula

end ArmaScript
