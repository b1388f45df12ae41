import ArmaScript.Proofs.Conditionals

/-!
# Branches of a conditional

A conditional that has no other one in it is a directive with the rest of its line, a branch, a second
one behind `#else` if there is any, `#endif`, and what follows. It stands for the branch that its
condition selects and for what follows. `#else` and the conditional's own directive are looked for from
behind and on the line of the directive too, so what stands there must not be taken for them.
-/

namespace ArmaScript

open Tree List

namespace Tree

/-- The word that a node is, if it is a name or a keyword. -/
def word? : Tree → Option String
  | .atom _ (.var v) => some v
  | .atom _ (.keyword w) => some w
  | _ => none

/-- The last word among several nodes. -/
def lastWord? (ts : List Tree) : Option String :=
  (ts.filterMap word?).getLast?

def directive? : Tree → Option String
  | .atom _ (.directive w) => some w
  | _ => none

def isLineEnd : Tree → Bool
  | .atom _ (.lineEnd _) => true
  | _ => false

variable {t : Tree} {word : String}

lemma isDirective_iff :
    t.isDirective word = true ↔ ∃ w, t.directive? = some w ∧ Text.lower w = Text.lower word := by
  cases t with
  | atom id a =>
    cases a <;> simp [isDirective, Atom.isDirective, Atom.same, directive?]
  | _ => simp [isDirective, directive?]

lemma isDirective_of_directive? (h : t.directive? = none) (word : String) :
    t.isDirective word = false := by
  rw [Bool.eq_false_iff, ne_eq, isDirective_iff, h]
  simp

lemma lower_of_mem_directives : ∀ w ∈ Vocabulary.directives, Text.lower w = w := by
  decide +kernel

lemma isDirective_of_ne {other : String} (h : t.isDirective word = true) (hne : word ≠ other)
    (hword : word ∈ Vocabulary.directives) (hother : other ∈ Vocabulary.directives) :
    t.isDirective other = false := by
  obtain ⟨w, hw, hlower⟩ := isDirective_iff.mp h
  rw [Bool.eq_false_iff, ne_eq, isDirective_iff, hw]
  rintro ⟨w', hw', hlower'⟩
  cases hw'
  rw [lower_of_mem_directives word hword] at hlower
  rw [lower_of_mem_directives other hother] at hlower'
  exact hne (hlower.symm.trans hlower')

lemma exists_of_isDirective (h : t.isDirective word = true) :
    ∃ id w, t = .atom id (.directive w) := by
  obtain ⟨w, hw, -⟩ := isDirective_iff.mp h
  cases t with
  | atom id a =>
    cases a with
    | directive w => exact ⟨id, w, rfl⟩
    | _ => cases hw
  | _ => cases hw

lemma isConditional_of_isDirective (h : t.isDirective word = true) :
    Build.isConditional t = false := by
  obtain ⟨id, w, rfl⟩ := exists_of_isDirective h
  rfl

lemma exists_of_isLineEnd (h : t.isLineEnd = true) : ∃ id text, t = .atom id (.lineEnd text) := by
  cases t with
  | atom id a =>
    cases a with
    | lineEnd text => exact ⟨id, text, rfl⟩
    | _ => cases h
  | _ => cases h

lemma lastWord?_append (ts us : List Tree) :
    lastWord? (ts ++ us) = (lastWord? us).or (lastWord? ts) := by
  rw [lastWord?, filterMap_append, getLast?_append]
  rfl

end Tree

namespace Build

/-! ### Searching from behind -/

lemma lastIndex?_append_cons {p : Tree → Bool} {front back : List Tree} {t : Tree} (ht : p t = true)
    (hback : ∀ u ∈ back, p u = false) : lastIndex? p (front ++ t :: back) = some front.length := by
  have hnone : back.reverse.findIdx? p = none :=
    findIdx?_eq_none_iff.mpr fun u hu => hback u (mem_reverse.mp hu)
  have hfirst : (front ++ t :: back).reverse.findIdx? p = some back.length := by
    rw [reverse_append, reverse_cons, append_assoc, findIdx?_append, hnone]
    simp [findIdx?_cons, ht]
  rw [lastIndex?, hfirst]
  simp
  omega

lemma exists_last {p : Tree → Bool} {ts : List Tree} (h : ∃ t ∈ ts, p t = true) :
    ∃ front t back, ts = front ++ t :: back ∧ p t = true ∧ ∀ u ∈ back, p u = false := by
  induction ts with
  | nil => simp at h
  | cons t ts ih =>
    by_cases hts : ∃ u ∈ ts, p u = true
    · obtain ⟨front, u, back, rfl, hu⟩ := ih hts
      exact ⟨t :: front, u, back, rfl, hu⟩
    · obtain ⟨u, hu, hp⟩ := h
      have hback : ∀ v ∈ ts, p v = false := fun v hv =>
        Bool.eq_false_iff.mpr fun hpv => hts ⟨v, hv, hpv⟩
      obtain rfl | hu := mem_cons.mp hu
      · exact ⟨[], u, ts, rfl, hp, hback⟩
      · exact absurd ⟨u, hu, hp⟩ hts

lemma conditionName?_cons {t : Tree} (ht : t.isLineEnd = false) (ts : List Tree) (i : Nat)
    (name : Option String) :
    conditionName? (t :: ts) i name = conditionName? ts (i + 1) (t.word?.or name) := by
  cases t with
  | atom id a =>
    cases a with
    | lineEnd s => cases ht
    | _ => rfl
  | _ => rfl

/-- The name that is asked for is the last word before the end of the line. -/
lemma conditionName?_line {ts : List Tree} (hts : ∀ t ∈ ts, t.isLineEnd = false) {e : Tree}
    (he : e.isLineEnd = true) (more : List Tree) (i : Nat) (name : Option String) :
    conditionName? (ts ++ e :: more) i name = ((lastWord? ts).or name).map (·, i + ts.length) := by
  induction ts generalizing i name with
  | nil =>
    obtain ⟨id, text, rfl⟩ := exists_of_isLineEnd he
    rfl
  | cons t ts ih =>
    have hword : lastWord? (t :: ts) = (lastWord? ts).or t.word? := by
      rw [← singleton_append, lastWord?_append]
      cases hw : t.word? <;> simp [lastWord?, hw]
    rw [cons_append, conditionName?_cons (hts t mem_cons_self),
      ih (fun u hu => hts u (mem_cons_of_mem t hu)), hword, Option.or_assoc, length_cons,
      Nat.add_assoc, Nat.add_comm 1]

/-! ### Flat conditionals -/

/-- A conditional in whose branches, and behind which, there is no other directive. -/
structure FlatConditional where
  directive : Tree
  line : List Tree
  lineEnd : Tree
  first : List Tree
  /-- `#else` and the branch behind it. -/
  second : Option (Tree × List Tree)
  endif : Tree
  rest : List Tree
  name : String
  starts : startsConditional directive = true
  sameLine : ∀ t ∈ line, t.isLineEnd = false
  named : lastWord? line = some name
  lineEnds : lineEnd.isLineEnd = true
  splits : ∀ p ∈ second, p.1.isDirective "#else" = true
  closes : endif.isDirective "#endif" = true
  plain : ∀ t ∈ first ++ second.elim [] Prod.snd ++ rest,
    t.directive? = none ∧ isConditional t = false

namespace FlatConditional

variable (c : FlatConditional)

def otherwise : List Tree :=
  c.second.elim [] fun p => p.1 :: p.2

def row : List Tree :=
  c.directive :: c.line ++ c.lineEnd :: c.first ++ c.otherwise ++ c.endif :: c.rest

/-- Whether the condition holds: the name is defined for `#ifdef`, and not for `#ifndef`. -/
def isActive (definitions : Definitions) : Bool :=
  if c.directive.isDirective "#ifdef" then definitions.has c.name else !definitions.has c.name

/-- What the conditional should stand for. -/
def selected (definitions : Definitions) : List Tree :=
  if c.isActive definitions then c.lineEnd :: c.first ++ c.rest
  else c.second.elim [] Prod.snd ++ c.rest

def word : String :=
  if c.directive.isDirective "#ifdef" then "#ifdef" else "#ifndef"

/-- What stands on the line of the directive is not taken for a part of the conditional: for its
`#else`, for its directive, or for a conditional inside. -/
structure Undisturbed (definitions : Definitions) : Prop where
  otherwise : c.second = none → ∀ t ∈ c.line, t.isDirective "#else" = false
  positive : c.directive.isDirective "#ifdef" = false → ∀ t ∈ c.line, t.isDirective "#ifdef" = false
  named : ∀ front d back, c.line = front ++ d :: back → d.isDirective c.word = true →
    lastWord? back ≠ none
  inner : c.isActive definitions = true → ∀ t ∈ c.line, isConditional t = false

variable {c}

lemma isDirective_word : c.directive.isDirective c.word = true := by
  have hstarts := c.starts
  unfold word
  split_ifs with h
  · exact h
  · simpa [startsConditional, h] using hstarts

lemma word_mem : c.word ∈ Vocabulary.directives ∧ c.word ≠ "#else" ∧ c.word ≠ "#endif" := by
  unfold word
  split_ifs <;> decide

lemma isDirective_of_mem {t : Tree} (h : t ∈ c.lineEnd :: c.first ++ c.rest) (word : String) :
    t.isDirective word = false := by
  apply isDirective_of_directive?
  obtain h | h := mem_append.mp h
  · obtain rfl | h := mem_cons.mp h
    · obtain ⟨id, text, hend⟩ := exists_of_isLineEnd c.lineEnds
      rw [hend]
      rfl
    · exact (c.plain t (by simp [h])).1
  · exact (c.plain t (by simp [h])).1

/-- Behind the line of the directive there is no directive other than `#else` and `#endif`. -/
lemma isDirective_behind {word : String} (hword : word ∈ Vocabulary.directives)
    (helse : word ≠ "#else") (hendif : word ≠ "#endif") {t : Tree}
    (h : t ∈ c.lineEnd :: c.first ++ c.otherwise ++ c.endif :: c.rest) :
    t.isDirective word = false := by
  have hotherwise : t ∈ c.otherwise → t.isDirective word = false := by
    unfold otherwise
    cases hsecond : c.second with
    | none => simp
    | some p =>
      intro ht
      obtain rfl | ht := mem_cons.mp ht
      · exact isDirective_of_ne (c.splits p hsecond) helse.symm (by decide) hword
      · exact isDirective_of_directive? (c.plain t (by simp [hsecond, ht])).1 word
  obtain h | h := mem_append.mp h
  · obtain h | h := mem_append.mp h
    · exact isDirective_of_mem (mem_append_left _ h) word
    · exact hotherwise h
  · obtain rfl | h := mem_cons.mp h
    · exact isDirective_of_ne c.closes hendif.symm (by decide) hword
    · exact isDirective_of_mem (mem_append_right _ h) word

lemma row_eq : c.row = (c.directive :: c.line) ++
    (c.lineEnd :: c.first ++ c.otherwise ++ c.endif :: c.rest) := by
  simp [row]

lemma lastIndex?_endif : lastIndex? (·.isDirective "#endif") c.row =
    some (c.directive :: c.line ++ c.lineEnd :: c.first ++ c.otherwise).length :=
  lastIndex?_append_cons c.closes fun _ hu => isDirective_of_mem (mem_append_right _ hu) _

lemma lastIndex?_else (h : c.second = none → ∀ t ∈ c.line, t.isDirective "#else" = false) :
    lastIndex? (·.isDirective "#else") c.row =
      c.second.map fun _ => (c.directive :: c.line ++ c.lineEnd :: c.first).length := by
  have hendif : c.endif.isDirective "#else" = false :=
    isDirective_of_ne c.closes (by decide) (by decide) (by decide)
  cases hsecond : c.second with
  | none =>
    refine lastIndex?_eq_none fun t ht => ?_
    have hdirective : c.directive.isDirective "#else" = false :=
      isDirective_of_ne isDirective_word word_mem.2.1 word_mem.1 (by decide)
    rw [row, otherwise, hsecond] at ht
    simp only [Option.elim_none, append_nil, cons_append, mem_cons, mem_append] at ht
    obtain rfl | ⟨ht | ht⟩ | rfl | ht := ht
    · exact hdirective
    · exact h hsecond t ht
    · exact isDirective_of_mem (mem_append_left _ (mem_cons.mpr ht)) _
    · exact hendif
    · exact isDirective_of_mem (mem_append_right _ ht) _
  | some p =>
    have hrow : c.row = (c.directive :: c.line ++ c.lineEnd :: c.first) ++
        p.1 :: (p.2 ++ c.endif :: c.rest) := by
      simp [row, otherwise, hsecond]
    rw [hrow]
    refine lastIndex?_append_cons (c.splits p hsecond) fun u hu => ?_
    obtain hu | hu := mem_append.mp hu
    · exact isDirective_of_directive? (c.plain u (by simp [hsecond, hu])).1 _
    · obtain rfl | hu := mem_cons.mp hu
      · exact hendif
      · exact isDirective_of_mem (mem_append_right _ hu) _

/-- The reader looks for `#ifdef` first, and finds it if the conditional starts with it. -/
lemma isSome_lastIndex?_ifdef (h : c.directive.isDirective "#ifdef" = false →
      ∀ t ∈ c.line, t.isDirective "#ifdef" = false) :
    (lastIndex? (·.isDirective "#ifdef") c.row).isSome = c.directive.isDirective "#ifdef" := by
  cases hd : c.directive.isDirective "#ifdef" with
  | true =>
    obtain ⟨i, hi⟩ := @exists_lastIndex? (·.isDirective "#ifdef") c.row
      ⟨c.directive, by simp [row], hd⟩
    rw [hi]
    rfl
  | false =>
    rw [lastIndex?_eq_none, Option.isSome_none]
    intro t ht
    rw [row_eq] at ht
    obtain ht | ht := mem_append.mp ht
    · obtain rfl | ht := mem_cons.mp ht
      · exact hd
      · exact h hd t ht
    · exact isDirective_behind (by decide) (by decide) (by decide) ht

/-- The last directive of the sort that the conditional starts with is on its line, and the last word
of the line is behind it. -/
lemma exists_directive_on_line (h : ∀ front d back, c.line = front ++ d :: back →
      d.isDirective c.word = true → lastWord? back ≠ none) :
    ∃ front d back, c.directive :: c.line = front ++ d :: back ∧ d.isDirective c.word = true ∧
      (∀ u ∈ back, u.isDirective c.word = false) ∧ lastWord? back = some c.name := by
  obtain ⟨front, d, back, hline, hd, hback⟩ := @exists_last (·.isDirective c.word)
    (c.directive :: c.line) ⟨c.directive, mem_cons_self, isDirective_word⟩
  refine ⟨front, d, back, hline, hd, hback, ?_⟩
  cases front with
  | nil =>
    obtain ⟨-, rfl⟩ := cons.inj hline
    exact c.named
  | cons _ front =>
    have hline : c.line = front ++ d :: back := (cons.inj hline).2
    obtain ⟨name, hname⟩ := Option.ne_none_iff_exists'.mp (h front d back hline hd)
    have hnamed := c.named
    rw [hline, ← singleton_append, ← append_assoc, lastWord?_append, hname] at hnamed
    exact hname.trans hnamed

/-- The name that the conditional asks for, and where its line ends. -/
lemma conditionName?_row {front back : List Tree} {d : Tree}
    (hline : c.directive :: c.line = front ++ d :: back) (hback : lastWord? back = some c.name) :
    conditionName? (c.row.drop front.length) front.length none =
      some (c.name, (c.directive :: c.line).length) := by
  have hrow : c.row.drop front.length =
      (d :: back) ++ c.lineEnd :: (c.first ++ c.otherwise ++ c.endif :: c.rest) := by
    rw [row_eq, hline, append_assoc, drop_left]
    simp
  have hends : ∀ t ∈ d :: back, t.isLineEnd = false := by
    intro t ht
    have hmem : t ∈ c.directive :: c.line := hline ▸ mem_append_right front ht
    obtain rfl | hmem := mem_cons.mp hmem
    · obtain ⟨id, w, hd⟩ := exists_of_isDirective c.isDirective_word
      rw [hd]
      rfl
    · exact c.sameLine t hmem
  have hword : lastWord? (d :: back) = some c.name := by
    rw [← singleton_append, lastWord?_append, hback]
    rfl
  rw [hrow, conditionName?_line hends c.lineEnds, hword, hline, length_append]
  rfl

/-- No conditional is inside before `#endif`, unless it stands on the line of the directive. -/
lemma findIdx?_isConditional (h : ∀ t ∈ c.line, isConditional t = false) :
    (c.row.take (c.directive :: c.line ++ c.lineEnd :: c.first ++ c.otherwise).length).findIdx?
      isConditional = none := by
  rw [row, take_left, findIdx?_eq_none_iff]
  intro t ht
  obtain ht | ht := mem_append.mp ht
  · obtain ht | ht := mem_append.mp ht
    · obtain rfl | ht := mem_cons.mp ht
      · exact isConditional_of_isDirective isDirective_word
      · exact h t ht
    · obtain rfl | ht := mem_cons.mp ht
      · obtain ⟨id, text, hend⟩ := exists_of_isLineEnd c.lineEnds
        rw [hend]
        rfl
      · exact (c.plain t (by simp [ht])).2
  · unfold otherwise at ht
    cases hsecond : c.second with
    | none => simp [hsecond] at ht
    | some p =>
      rw [hsecond] at ht
      obtain rfl | ht := mem_cons.mp ht
      · exact isConditional_of_isDirective (c.splits p hsecond)
      · exact (c.plain t (by simp [hsecond, ht])).2

lemma branch_row {definitions : Definitions}
    (h : c.isActive definitions = true → ∀ t ∈ c.line, isConditional t = false) :
    branch c.row (c.directive.isDirective "#ifdef") (definitions.has c.name)
      (c.directive :: c.line).length
      (c.second.map fun _ => (c.directive :: c.line ++ c.lineEnd :: c.first).length)
      (c.directive :: c.line ++ c.lineEnd :: c.first ++ c.otherwise).length =
    if c.isActive definitions then c.lineEnd :: c.first else c.second.elim [] Prod.snd := by
  have hactive : (definitions.has c.name == c.directive.isDirective "#ifdef") =
      c.isActive definitions := by
    unfold isActive
    cases c.directive.isDirective "#ifdef" <;> cases definitions.has c.name <;> rfl
  unfold branch
  dsimp only
  rw [hactive]
  split_ifs with hif
  · rw [findIdx?_isConditional (h hif), between_eq]
    have hstop : c.row.take ((c.second.map fun _ =>
        (c.directive :: c.line ++ c.lineEnd :: c.first).length).getD
          (c.directive :: c.line ++ c.lineEnd :: c.first ++ c.otherwise).length) =
        c.directive :: c.line ++ c.lineEnd :: c.first := by
      cases hsecond : c.second with
      | none =>
        rw [Option.map_none, Option.getD_none, row, take_left, otherwise, hsecond]
        exact append_nil _
      | some p =>
        rw [Option.map_some, Option.getD_some, row, append_assoc, take_left]
    rw [hstop, drop_left]
  · cases hsecond : c.second with
    | none => rfl
    | some p =>
      simp only [Option.map_some, Option.elim_some]
      rw [between_eq, row, take_left, otherwise, hsecond, ← drop_drop, drop_left]
      rfl

/-- A conditional stands for the branch that its condition selects and for what follows `#endif`. -/
theorem resolve_eq_selected (c : FlatConditional) {definitions : Definitions}
    (h : c.Undisturbed definitions) (before : Position) :
    resolve c.row definitions before = .ok (c.selected definitions, c.row) := by
  obtain ⟨front, d, back, hline, hd, hback, hname⟩ := exists_directive_on_line h.named
  have hat : lastIndex? (·.isDirective c.word) c.row = some front.length := by
    rw [row_eq, hline, append_assoc]
    refine lastIndex?_append_cons hd fun u hu => ?_
    obtain hu | hu := mem_append.mp hu
    · exact hback u hu
    · exact isDirective_behind word_mem.1 word_mem.2.1 word_mem.2.2 hu
  have hrest : (c.row.drop ((c.directive :: c.line ++ c.lineEnd :: c.first ++ c.otherwise).length +
      1)) = c.rest := by
    rw [row, ← drop_drop, drop_left]
    rfl
  have hnone : c.rest.findIdx? isConditional = none :=
    findIdx?_eq_none_iff.mpr fun t ht => (c.plain t (by simp [ht])).2
  unfold resolve
  rw [word] at hat
  simp only [isSome_lastIndex?_ifdef h.positive, hat, lastIndex?_endif, conditionName?_row hline hname,
    hrest, hnone, lastIndex?_else h.otherwise, branch_row h.inner]
  unfold selected
  split_ifs <;> rfl

/-- A line behind `#ifndef A`, and one behind `#else`. -/
def unlessDefined : FlatConditional where
  directive := .atom 0 (.directive "#ifndef")
  line := [.atom 1 .space, .atom 2 (.var "A")]
  lineEnd := .atom 3 (.lineEnd "\n")
  first := [.atom 4 (.var "x"), .atom 5 (.lineEnd "\n")]
  second := some (.atom 6 (.directive "#else"), [.atom 7 (.var "y"), .atom 8 (.lineEnd "\n")])
  endif := .atom 9 (.directive "#endif")
  rest := [.atom 10 (.lineEnd "\n")]
  name := "A"
  starts := by decide +kernel
  sameLine := by decide
  named := rfl
  lineEnds := rfl
  splits := by
    rintro p ⟨⟩
    rfl
  closes := by decide +kernel
  plain := by decide

theorem resolve_eq_selected_unlessDefined :
    unlessDefined.Undisturbed [] ∧
      resolve unlessDefined.row [] .start = .ok ([.atom 3 (.lineEnd "\n"), .atom 4 (.var "x"),
        .atom 5 (.lineEnd "\n"), .atom 10 (.lineEnd "\n")], unlessDefined.row) := by
  have h : unlessDefined.Undisturbed [] :=
    { otherwise := by decide
      positive := by decide
      named := by
        intro front d back hline hd
        have hmem : d ∈ unlessDefined.line := by simp [hline]
        have hno : ∀ t ∈ unlessDefined.line, t.isDirective unlessDefined.word = false := by decide
        rw [hno d hmem] at hd
        cases hd
      inner := by decide }
  exact ⟨h, resolve_eq_selected unlessDefined h .start⟩

/-- A line behind `#ifdef A` on which `#else` stands as well. -/
def lineWithElse : FlatConditional where
  directive := .atom 0 (.directive "#ifdef")
  line := [.atom 1 .space, .atom 2 (.var "A"), .atom 3 .space, .atom 4 (.directive "#else")]
  lineEnd := .atom 5 (.lineEnd "\n")
  first := [.atom 6 (.var "x"), .atom 7 (.lineEnd "\n")]
  second := none
  endif := .atom 8 (.directive "#endif")
  rest := [.atom 9 (.lineEnd "\n")]
  name := "A"
  starts := by decide +kernel
  sameLine := by decide
  named := rfl
  lineEnds := rfl
  splits := by
    rintro p ⟨⟩
  closes := by decide +kernel
  plain := by decide

/-- `#else` on the line of the directive is taken for that of the conditional, so where the name is not
defined, the branch in front of `#endif` is taken. -/
theorem resolve_lineWithElse :
    resolve lineWithElse.row [] .start = .ok ([.atom 5 (.lineEnd "\n"), .atom 6 (.var "x"),
        .atom 7 (.lineEnd "\n"), .atom 9 (.lineEnd "\n")], lineWithElse.row) ∧
      lineWithElse.isActive [] = false ∧
      resolve lineWithElse.row [] .start ≠ .ok (lineWithElse.selected [], lineWithElse.row) := by
  have hresolve : resolve lineWithElse.row [] .start = .ok ([.atom 5 (.lineEnd "\n"),
      .atom 6 (.var "x"), .atom 7 (.lineEnd "\n"), .atom 9 (.lineEnd "\n")], lineWithElse.row) := rfl
  refine ⟨hresolve, rfl, fun h => ?_⟩
  have hlength := congrArg (fun r => r.toOption.map fun p => p.1.length) (hresolve.symm.trans h)
  revert hlength
  decide

end FlatConditional

end Build

end ArmaScript
