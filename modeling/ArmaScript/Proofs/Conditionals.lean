import ArmaScript.Proofs.Tokens

/-!
# Conditionals

A conditional takes the tokens up to its `#endif`, and what it stands for is some of them, as long as
no `#else` stands among them. Reading one fails only with an error in the script.

A computation is `Safe` if it returns what is asked for or fails in an allowed way, as long as nothing
is defined. Where tokens come from is counted by how many of them open something: a bracket, an
inclusion or a conditional.
-/

namespace ArmaScript

open Atom List
open Tree (atomsList atomsList_append atomsList_cons atomsList_nil atomsList_sublist atoms_atom
  atoms_conditional)

/-- Whether a fault is an error in the script that is reported with its place. -/
def Fault.IsReported : Fault → Prop
  | .reported d => d.severity ≠ .warning
  | _ => False

namespace Atom

/-- Whether a token opens a bracket, an inclusion or a conditional. -/
def isOpener (a : Atom) : Bool :=
  a.opens?.isSome || a.isDirective "#include" || a.isDirective "#ifdef" || a.isDirective "#ifndef"

/-- How many tokens open something. -/
def openers (as : List Atom) : Nat :=
  as.countP isOpener

@[simp] lemma openers_nil : openers [] = 0 := rfl

@[simp] lemma openers_append (as bs : List Atom) : openers (as ++ bs) = openers as + openers bs :=
  countP_append

/-- A token other than `#define` and `#else`. Only the end of the script has no text. -/
structure IsUsual (a : Atom) : Prop where
  define : a.isDirective "#define" = false
  otherwise : a.isDirective "#else" = false
  text : a.text = "" → a = .fileEnd

end Atom

namespace Build

variable {p : Tree → Bool} {stop : Stop}

lemma exists_lastIndex? {row : List Tree} (h : ∃ t ∈ row, p t = true) :
    ∃ i, lastIndex? p row = some i := by
  obtain ⟨t, ht, hp⟩ := h
  have hsome : (row.reverse.findIdx? p).isSome = true := by
    rw [findIdx?_isSome, any_reverse]
    exact any_eq_true.mpr ⟨t, ht, hp⟩
  obtain ⟨k, hk⟩ := Option.isSome_iff_exists.mp hsome
  exact ⟨_, by rw [lastIndex?, hk]; rfl⟩

lemma lastIndex?_eq_none {row : List Tree} (h : ∀ t ∈ row, p t = false) :
    lastIndex? p row = none := by
  rw [lastIndex?, findIdx?_eq_none_iff.mpr]
  · rfl
  · intro t ht
    exact h t (by simpa using ht)

variable {i line start fuel : Nat} {ts rest : List Tree} {t d : Tree} {row : Array Tree}
  {inner : Int → Levels → Build (Tree × Int)}

lemma lastIndex?_eq_some {row : List Tree} (h : lastIndex? p row = some i) :
    ∃ t, row[i]? = some t ∧ p t = true := by
  obtain ⟨k, hk, rfl⟩ := Option.map_eq_some_iff.mp h
  obtain ⟨hlt, hp, -⟩ := findIdx?_eq_some_iff_getElem.mp hk
  rw [getElem_reverse] at hp
  have hlt' : k < row.length := by simpa using hlt
  refine ⟨_, getElem?_eq_getElem (by omega), ?_⟩
  convert hp using 3
  omega

lemma between_eq (row : List Tree) (i j : Nat) : between row i j = (row.take j).drop i := by
  rw [between, drop_take]

lemma le_of_conditionName? {name : Option String} {found : String}
    (h : conditionName? ts i name = some (found, line)) : i ≤ line := by
  fun_induction conditionName? ts i name with
  | case1 => cases h
  | case2 => simp_all
  | case3 i name v ts id ih | case4 i name v ts id ih | case5 i name t ts _ _ _ ih =>
    exact Nat.le_of_succ_le (ih h)

lemma lt_of_conditionName? {name : Option String} {found : String} (ht : t.kind ≠ .lineEnd)
    (h : conditionName? (t :: ts) i name = some (found, line)) : i < line := by
  unfold conditionName? at h
  split at h
  · exact absurd rfl ht
  all_goals exact le_of_conditionName? h

/-- Without `#else`, the branch that is taken lies before `#endif`. -/
lemma exists_branch_eq (row : List Tree) (positive defined : Bool) (line endif : Nat) :
    ∃ first last, line ≤ first ∧ last ≤ endif ∧ ∀ row', row'.take endif = row.take endif →
      branch row' positive defined line none endif = (row.take last).drop first := by
  have htake {last : Nat} (hlast : last ≤ endif) {row' : List Tree}
      (h : row'.take endif = row.take endif) : row'.take last = row.take last := by
    have := congrArg (take last) h
    simpa [take_take, Nat.min_eq_left hlast] using this
  by_cases hd : defined = positive
  · subst hd
    cases hinner : (row.take endif).findIdx? isConditional with
    | none =>
      refine ⟨line, endif, Nat.le_refl _, Nat.le_refl _, fun row' h => ?_⟩
      rw [branch, h, hinner, if_pos (by simp), between_eq]
      exact congrArg _ h
    | some i =>
      by_cases hi : i < endif
      · refine ⟨line, i + 1, Nat.le_refl _, hi, fun row' h => ?_⟩
        rw [branch, h, hinner, if_pos (by simp), between_eq]
        simp only [Option.getD_none, if_pos hi]
        rw [htake hi h]
      · refine ⟨line, endif, Nat.le_refl _, Nat.le_refl _, fun row' h => ?_⟩
        rw [branch, h, hinner, if_pos (by simp), between_eq]
        simp only [Option.getD_none, if_neg hi]
        rw [h]
  · refine ⟨line, 0, Nat.le_refl _, Nat.zero_le _, fun row' h => ?_⟩
    rw [branch, if_neg (by simpa using hd)]
    simp

lemma isDirective_endif_of_startsConditional (h : startsConditional t = true) :
    t.isDirective "#endif" = false := by
  cases t with
  | atom id a =>
    cases a with
    | directive w =>
      have h1 : Text.lower "#ifdef" ≠ Text.lower "#endif" := by decide +kernel
      have h2 : Text.lower "#ifndef" ≠ Text.lower "#endif" := by decide +kernel
      simp only [startsConditional, Tree.isDirective, isDirective, same, Bool.or_eq_true,
        beq_iff_eq] at h
      rcases h with h | h
      · simp [Tree.isDirective, isDirective, same, h, h1]
      · simp [Tree.isDirective, isDirective, same, h, h2]
    | _ => rfl
  | _ => rfl

/-- Where the directive of a conditional stands: the reader looks for `#ifdef` first. -/
lemma exists_directive {d : Tree} {rest : List Tree} (hd : startsConditional d = true) :
    ∃ i, lastIndex? (·.isDirective (if (lastIndex? (·.isDirective "#ifdef") (d :: rest)).isSome
      then "#ifdef" else "#ifndef")) (d :: rest) = some i := by
  cases hpositive : lastIndex? (·.isDirective "#ifdef") (d :: rest) with
  | some i => exact ⟨i, hpositive⟩
  | none =>
    refine exists_lastIndex? ⟨d, by simp, ?_⟩
    have hno : d.isDirective "#ifdef" ≠ true := by
      intro h
      obtain ⟨i, hi⟩ := @exists_lastIndex? (·.isDirective "#ifdef") (d :: rest) ⟨d, by simp, h⟩
      rw [hpositive] at hi
      cases hi
    simpa [startsConditional, hno] using hd

lemma lastIndex?_endif_pos (hd : startsConditional d = true) {endif : Nat}
    (h : lastIndex? (·.isDirective "#endif") (d :: rest) = some endif) : 0 < endif := by
  obtain ⟨t, ht, h⟩ := lastIndex?_eq_some h
  refine Nat.pos_of_ne_zero fun h0 => ?_
  rw [h0] at ht
  cases ht
  rw [isDirective_endif_of_startsConditional hd] at h
  cases h

lemma parts_sublist {d : Tree} {rest : List Tree} {first last endif i : Nat} (hfirst : 0 < first)
    (hlast : last ≤ endif) (hi : endif < i) :
    (((d :: rest).take last).drop first ++ (d :: rest).drop i).Sublist rest := by
  obtain ⟨f, rfl⟩ : ∃ f, first = f + 1 := ⟨first - 1, by omega⟩
  obtain ⟨k, rfl⟩ : ∃ k, i = k + 1 := ⟨i - 1, by omega⟩
  have hfront : (((d :: rest).take last).drop (f + 1)).Sublist (rest.take k) := by
    cases last with
    | zero => simp
    | succ l =>
      rw [take_succ_cons, drop_succ_cons]
      exact (drop_sublist _ _).trans (take_sublist_take_left (by omega))
  have hparts := hfront.append (Sublist.refl (rest.drop k))
  rwa [take_append_drop] at hparts

lemma lt_of_directive {row : List Tree} {name word : String}
    (hstart : lastIndex? (·.isDirective word) row = some start)
    (hname : conditionName? (row.drop start) start none = some (name, line)) : start < line := by
  obtain ⟨t, ht, hdirective⟩ := lastIndex?_eq_some hstart
  obtain ⟨hlt, rfl⟩ := List.getElem?_eq_some_iff.mp ht
  rw [drop_eq_getElem_cons hlt] at hname
  refine lt_of_conditionName? (fun hkind => ?_) hname
  cases hu : row[start] with
  | atom id a =>
    rw [hu] at hkind hdirective
    cases a with
    | directive w => cases hkind
    | _ => simp [Tree.isDirective, isDirective, same] at hdirective
  | _ =>
    rw [hu] at hdirective
    cases hdirective

/-- What the tokens of a conditional without `#else` are resolved to: those behind its directive, or
fewer. -/
lemma resolve_cases (hd : startsConditional d = true)
    (hendif : ∃ t ∈ rest, t.isDirective "#endif" = true)
    (helse : ∀ t ∈ d :: rest, t.isDirective "#else" = false) (definitions : Definitions)
    (before : Position) :
    (∃ taken children, resolve (d :: rest) definitions before = .ok (taken, children) ∧
      atomsList children = atomsList (d :: rest) ∧ (atomsList taken).Sublist (atomsList rest)) ∨
    ∃ fault, resolve (d :: rest) definitions before = .error fault ∧ fault.IsReported := by
  obtain ⟨start, hstart⟩ := @exists_directive d rest hd
  obtain ⟨t, ht, hp⟩ := hendif
  obtain ⟨endif, hlast⟩ := @exists_lastIndex? (·.isDirective "#endif") (d :: rest)
    ⟨t, mem_cons_of_mem d ht, hp⟩
  have hpos : 0 < endif := lastIndex?_endif_pos hd hlast
  unfold resolve
  simp only [hstart, hlast]
  cases hname : conditionName? ((d :: rest).drop start) start none with
  | none => exact .inr ⟨_, rfl, by simp [Fault.error, Fault.IsReported]⟩
  | some found =>
    obtain ⟨name, line⟩ := found
    refine .inl ?_
    have hline : 0 < line := Nat.zero_lt_of_lt (lt_of_directive hstart hname)
    dsimp only
    generalize (lastIndex? (·.isDirective "#ifdef") (d :: rest)).isSome = positive
    obtain ⟨first, last, hfirst, hle, hbranch⟩ :=
      exists_branch_eq (d :: rest) positive (definitions.has name) line endif
    have hno := lastIndex?_eq_none helse
    cases hnext : ((d :: rest).drop (endif + 1)).findIdx? isConditional with
    | none =>
      refine ⟨_, _, rfl, rfl, ?_⟩
      rw [hno, hbranch _ rfl]
      exact atomsList_sublist (parts_sublist (by omega) hle (Nat.lt_succ_self _))
    | some k =>
      dsimp only
      split
      · rename_i id cs hget
        obtain ⟨hlt, hget⟩ := List.getElem?_eq_some_iff.mp hget
        -- the conditional behind `#endif` takes over what follows it
        have hdrop : atomsList cs ++ atomsList ((d :: rest).drop (endif + 1 + k + 1)) =
            atomsList ((d :: rest).drop (endif + 1 + k)) := by
          rw [drop_eq_getElem_cons hlt, hget, atomsList_cons, atoms_conditional]
        have helse' : ∀ t ∈ (d :: rest).set (endif + 1 + k)
            (.conditional id (cs ++ (d :: rest).drop (endif + 1 + k + 1))),
            t.isDirective "#else" = false := by
          intro t ht
          rcases mem_or_eq_of_mem_set ht with ht | rfl
          · exact helse t ht
          · rfl
        refine ⟨_, _, rfl, ?_, ?_⟩
        · rw [atomsList_append, atomsList_cons, atoms_conditional,
            atomsList_append, hdrop, atomsList_nil, append_nil,
            ← atomsList_append, take_append_drop]
        · rw [lastIndex?_eq_none helse', hbranch _ (take_set_of_le (by omega)),
            atomsList_append, atomsList_cons, atoms_conditional,
            atomsList_append, hdrop, atomsList_nil, append_nil,
            ← atomsList_append]
          exact atomsList_sublist (parts_sublist (by omega) hle (by omega))
      · refine ⟨_, _, rfl, rfl, ?_⟩
        rw [hno, hbranch _ rfl]
        have hsub := @parts_sublist d rest first last endif (endif + 1) (by omega) hle (by omega)
        exact atomsList_sublist ((sublist_append_left _ _).trans hsub)

/-! ### Computations that fail only in some ways -/

/-- Without definitions, the computation returns with the given property and makes no definitions, or
it fails in one of the allowed ways. -/
abbrev Safe {α : Type} (allowed : Fault → Prop) (x : Build α) (post : α → Prop) : Prop :=
  Ensures (fun σ : BuildState => σ.definitions = []) (fun fault _ => allowed fault) x post

namespace Safe

variable {α β : Type} {allowed : Fault → Prop} {p : α → Prop} {q : β → Prop} {x : Build α}

lemma throw {fault : Fault} (h : allowed fault) : Safe allowed (throw fault) p :=
  fun _ _ => h

lemma throw_bind {fault : Fault} {f : α → Build β} (h : allowed fault) :
    Safe allowed (MonadExcept.throw fault >>= f) q :=
  fun _ _ => h

lemma get_bind {f : BuildState → Build β} (h : ∀ s, s.definitions = [] → Safe allowed (f s) q) :
    Safe allowed (get >>= f) q :=
  fun σ hσ => h σ hσ hσ

lemma lift {x : Except Fault α} (h : (∃ a, x = .ok a ∧ p a) ∨ ∃ f, x = .error f ∧ allowed f) :
    Safe allowed (lift x) p := by
  rcases h with ⟨a, rfl, ha⟩ | ⟨f, rfl, hf⟩
  · exact .pure ha
  · exact throw hf

lemma allow {allowed' : Fault → Prop} (hx : Safe allowed x p)
    (h : ∀ fault, allowed fault → allowed' fault) : Safe allowed' x p := by
  intro σ hσ
  have hx := hx hσ
  cases hxσ : x σ with
  | ok a σ' =>
    rw [hxσ] at hx
    exact hx
  | error fault σ' =>
    rw [hxσ] at hx
    exact h fault hx

lemma of_returns (h : ∀ σ, ∃ a σ', x σ = .ok a σ' ∧ σ'.definitions = σ.definitions ∧ p a) :
    Safe allowed x p := by
  intro σ hσ
  obtain ⟨a, σ', ha, hσ', hp⟩ := h σ
  rw [ha]
  exact ⟨hσ'.trans hσ, hp⟩

end Safe

/-! ### Where tokens come from -/

/-- How many of the first tokens of a row open something. -/
def openersUpTo (row : Array Tree) (i : Nat) : Nat :=
  openers (atomsList (row.toList.take i))

lemma openersUpTo_mono {j : Nat} (h : i ≤ j) : openersUpTo row i ≤ openersUpTo row j :=
  (atomsList_sublist (take_sublist_take_left h)).countP_le

lemma openersUpTo_succ (h : row[i]? = some t) :
    openersUpTo row (i + 1) = openersUpTo row i + openers t.atoms := by
  have htake : row.toList.take (i + 1) = row.toList.take i ++ [t] := by
    rw [take_add_one]
    simp [h]
  simp [openersUpTo, htake]

/-- The tokens are usual ones, and no more of them open something than of those of a row between two
places. -/
structure From (row : Array Tree) (i j : Nat) (as : List Atom) : Prop where
  usual : ∀ a ∈ as, a.IsUsual
  openers : openers as + openersUpTo row i ≤ openersUpTo row j

namespace From

variable {row : Array Tree} {i j k : Nat} {as bs : List Atom}

lemma nil (h : i ≤ j) : From row i j [] :=
  ⟨by simp, by simpa using openersUpTo_mono h⟩

lemma append (h : From row i j as) (h' : From row j k bs) : From row i k (as ++ bs) where
  usual a ha := by
    rcases mem_append.mp ha with ha | ha
    · exact h.usual a ha
    · exact h'.usual a ha
  openers := by
    have := h.openers
    have := h'.openers
    rw [openers_append]
    omega

lemma sublist (h : From row i j as) (hs : bs.Sublist as) : From row i j bs where
  usual a ha := h.usual a (hs.subset ha)
  openers := Nat.le_trans (Nat.add_le_add_right hs.countP_le _) h.openers

lemma mono (h : From row i j as) (hj : j ≤ k) : From row i k as where
  usual := h.usual
  openers := h.openers.trans (openersUpTo_mono hj)

lemma mono_left (h : From row i j as) (hi : k ≤ i) : From row k j as where
  usual := h.usual
  openers := (Nat.add_le_add_left (openersUpTo_mono hi) _).trans h.openers

lemma perm (h : From row i j as) (hp : bs.Perm as) : From row i j bs where
  usual a ha := h.usual a (hp.subset ha)
  openers := by
    rw [Atom.openers, hp.countP_eq]
    exact h.openers

lemma token {id : NodeId} {a : Atom} (h : row[i]? = some (.atom id a)) (ha : a.IsUsual) :
    From row i (i + 1) [a] where
  usual b hb := by rwa [mem_singleton.mp hb]
  openers := by
    rw [openersUpTo_succ h, atoms_atom, Nat.add_comm]

lemma opening {id : NodeId} {a b : Atom} (h : row[i]? = some (.atom id b)) (hb : b.isOpener = true)
    (ha : a.IsUsual) : From row i (i + 1) [a] where
  usual c hc := by rwa [mem_singleton.mp hc]
  openers := by
    have hone : Atom.openers [b] = 1 := by simp [Atom.openers, hb]
    have hle : Atom.openers [a] ≤ 1 := countP_le_length
    rw [openersUpTo_succ h, atoms_atom, hone]
    omega

lemma closing (i : Nat) {a : Atom} (ha : a.IsUsual) (h : a.isOpener = false) :
    From row i i [a] where
  usual c hc := by rwa [mem_singleton.mp hc]
  openers := by simp [Atom.openers, h]

end From

/-- A row of tokens of a script without `#define` and `#else`. -/
def IsUsualRow (row : Array Tree) : Prop :=
  ∀ t ∈ row, ∃ id a, t = .atom id a ∧ a.IsUsual

/-! ### Conditionals -/

/-- What reading a conditional gives: its directive, and tokens of the row from `start` on, among
which is `#endif`. An inner conditional ends with it. -/
structure ReadsConditional (row : Array Tree) (start : Nat) (isInner : Prop) (d : Tree)
    (taken : List Tree) (size : Int) : Prop where
  directive : row[start - 1]? = some d
  atoms : From row start (start + (atomsList taken).length) (atomsList taken)
  inside : start + (atomsList taken).length ≤ row.size
  endif : ∃ t ∈ taken, t.isDirective "#endif" = true
  otherwise : ∀ t ∈ taken, t.isDirective "#else" = false
  reaches : isInner → size + 1 = (atomsList taken).length

/-- How a conditional is read: the tokens so far are those of the row from `start` on. -/
structure Conditional.Going (row : Array Tree) (start : Nat) (c : Conditional) : Prop where
  index : c.index = (start + (atomsList c.taken.toList).length : Nat)
  atoms : From row start (start + (atomsList c.taken.toList).length)
    (atomsList c.taken.toList)
  inside : start + (atomsList c.taken.toList).length ≤ row.size
  endif : 0 < c.endifs → ∃ t ∈ c.taken.toList, t.isDirective "#endif" = true
  otherwise : ∀ t ∈ c.taken.toList, t.isDirective "#else" = false
  isInner : 1 < c.levels.conditionals → c.endifs = 0

lemma at?_pred (row : Array Tree) (h : 0 < start) :
    at? row ((start : Int) - 1) = row[start - 1]? := by
  rw [show (start : Int) - 1 = (start - 1 : Nat) by omega, at?_natCast]

/-- One round of the loop over the tokens of a conditional. -/
lemma conditionalFrom_succ {start : Int} {c : Conditional} (hi : c.index = i) :
    conditionalFrom inner row start stop (fuel + 1) c =
      (match row[i]? with
      | none => do
        if c.isComplete then return (← conditionalNode row start c.taken.toList, c.index - start)
        throw (.unbalanced (placeAfter row (start - 1)) (c.levels.unclosed?.getD ""))
      | some t => do
        let c := c.noteOpening t
        if startsConditional t then
          let (node, size) ← inner (c.index + 1)
            { c.levels with conditionals := c.levels.conditionals + 1 }
          let c := c.take node
          conditionalFrom inner row start stop fuel { c with index := c.index + size + 2 }
        else if c.isComplete && (stop.isEnd t || closesOuter c.levels t) ||
            c.levels.conditionals > 1 && t.isDirective "#endif" then
          let taken := if t.kind == .fileEnd || isClosing t then c.taken else c.taken.push t
          return (← conditionalNode row start taken.toList, c.index - start)
        else
          let c := (c.take t).noteClosing t
          conditionalFrom inner row start stop fuel { c with index := c.index + 1 }) := by
  rw [conditionalFrom, hi, at?_natCast]
  by_cases hlt : i < row.size
  · rw [if_neg (by omega), Array.getElem?_eq_getElem hlt]
  · rw [if_pos (by omega), Array.getElem?_eq_none (Nat.le_of_not_lt hlt)]

lemma safe_conditionalNode (hstart : 0 < start) (hd : row[start - 1]? = some d)
    (taken : List Tree) {allowed : Fault → Prop} :
    Safe allowed (conditionalNode row start taken) fun t => ∃ id, t = .conditional id (d :: taken) := by
  unfold conditionalNode
  rw [at?_pred row hstart, hd]
  exact Safe.of_returns fun σ => ⟨_, _, rfl, rfl, _, rfl⟩

namespace Conditional

variable (c : Conditional) (t : Tree)

@[simp] lemma noteOpening_index : (c.noteOpening t).index = c.index := by
  unfold noteOpening; split <;> rfl

@[simp] lemma noteOpening_taken : (c.noteOpening t).taken = c.taken := by
  unfold noteOpening; split <;> rfl

@[simp] lemma noteOpening_endifs : (c.noteOpening t).endifs = c.endifs := by
  unfold noteOpening; split <;> rfl

@[simp] lemma noteOpening_conditionals :
    (c.noteOpening t).levels.conditionals = c.levels.conditionals := by
  unfold noteOpening; split <;> rfl

@[simp] lemma noteClosing_index : (c.noteClosing t).index = c.index := by
  unfold noteClosing; split <;> rfl

@[simp] lemma noteClosing_taken : (c.noteClosing t).taken = c.taken := by
  unfold noteClosing; split <;> rfl

@[simp] lemma noteClosing_endifs : (c.noteClosing t).endifs = c.endifs := by
  unfold noteClosing; split <;> rfl

@[simp] lemma noteClosing_conditionals :
    (c.noteClosing t).levels.conditionals = c.levels.conditionals := by
  unfold noteClosing; split <;> rfl

end Conditional

lemma atomsList_push (row : Array Tree) (t : Tree) :
    atomsList (row.push t).toList = atomsList row.toList ++ t.atoms := by
  simp

namespace Conditional.Going

variable {row : Array Tree} {start : Nat} {c : Conditional} {t : Tree}

lemma noteOpening (h : c.Going row start) (t : Tree) : (c.noteOpening t).Going row start := by
  refine ⟨?_, ?_, ?_, ?_, ?_, ?_⟩ <;> simp only [noteOpening_index, noteOpening_taken,
    noteOpening_endifs, noteOpening_conditionals]
  exacts [h.index, h.atoms, h.inside, h.endif, h.otherwise, h.isInner]

lemma take (h : c.Going row start) {id : NodeId} {a : Atom}
    (ht : row[start + (atomsList c.taken.toList).length]? = some (.atom id a)) (ha : a.IsUsual)
    (hend : 1 < c.levels.conditionals → a.isDirective "#endif" = false) :
    Going row start { (c.take (.atom id a)).noteClosing (.atom id a) with
      index := ((c.take (.atom id a)).noteClosing (.atom id a)).index + 1 } := by
  have hlt := (Array.getElem?_eq_some_iff.mp ht).1
  have hatoms := h.atoms.append (From.token ht ha)
  refine ⟨?_, ?_, ?_, ?_, ?_, ?_⟩ <;> simp only [noteClosing_index, noteClosing_taken,
    noteClosing_endifs, noteClosing_conditionals, Conditional.take, atomsList_push,
    length_append, atoms_atom, length_singleton]
  · rw [h.index]
    omega
  · exact hatoms
  · omega
  · intro hpos
    split_ifs at hpos with hdir
    · exact ⟨_, by simp, hdir⟩
    · obtain ⟨u, hu, hdir⟩ := h.endif hpos
      exact ⟨u, by simp [hu], hdir⟩
  · intro u hu
    obtain hu | rfl : u ∈ c.taken.toList ∨ u = .atom id a := by simpa using hu
    · exact h.otherwise u hu
    · exact ha.otherwise
  · intro hinner
    rw [if_neg (by simpa [Tree.isDirective] using hend hinner)]
    exact h.isInner hinner

lemma takeInner (h : c.Going row start) {id : NodeId} {d : Tree} {taken : List Tree} {size : Int}
    (hd : ∃ id a, d = .atom id a ∧ a.IsUsual)
    (hread : ReadsConditional row (start + (atomsList c.taken.toList).length + 1) True d taken
      size) :
    Going row start { c.take (.conditional id (d :: taken)) with index := c.index + size + 2 } := by
  obtain ⟨i, a, rfl, ha⟩ := hd
  have hatoms := (h.atoms.append (From.token hread.directive ha)).append hread.atoms
  have hinside := hread.inside
  have hreaches := hread.reaches trivial
  have hpush : atomsList (c.taken.push (.conditional id (.atom i a :: taken))).toList =
      atomsList c.taken.toList ++ [a] ++ atomsList taken := by
    simp
  have hlength : (atomsList (c.taken.push (.conditional id (.atom i a :: taken))).toList).length =
      (atomsList c.taken.toList).length + 1 + (atomsList taken).length := by
    rw [hpush, length_append, length_append, length_singleton]
  refine ⟨?_, ?_, ?_, ?_, ?_, ?_⟩ <;> simp only [Conditional.take]
  · rw [hlength, h.index]
    omega
  · rw [hlength, hpush]
    simpa [Nat.add_assoc] using hatoms
  · rw [hlength]
    omega
  · intro hpos
    obtain ⟨u, hu, hdir⟩ := h.endif (by simpa [Tree.isDirective] using hpos)
    exact ⟨u, by simp [hu], hdir⟩
  · intro u hu
    obtain hu | rfl : u ∈ c.taken.toList ∨ u = .conditional id (.atom i a :: taken) := by
      simpa using hu
    · exact h.otherwise u hu
    · rfl
  · intro hinner
    simpa [Tree.isDirective] using h.isInner hinner

variable {d : Tree} {size : Int}

lemma reads (h : c.Going row start) (hd : row[start - 1]? = some d) (hc : c.isComplete = true) :
    ReadsConditional row start (1 < c.levels.conditionals) d c.taken.toList size := by
  simp only [isComplete, Bool.and_eq_true, beq_iff_eq, decide_eq_true_eq] at hc
  obtain ⟨⟨hclosed, hpos⟩, -⟩ := hc
  refine ⟨hd, h.atoms, h.inside, h.endif hpos, h.otherwise, fun hinner => ?_⟩
  have := h.isInner hinner
  omega

/-- The last token of a conditional belongs to it. -/
lemma reads_push (h : c.Going row start) (hd : row[start - 1]? = some d) {id : NodeId} {a : Atom}
    (ht : row[start + (atomsList c.taken.toList).length]? = some (.atom id a)) (ha : a.IsUsual)
    (hend : c.isComplete = true ∨ a.isDirective "#endif" = true) :
    ReadsConditional row start (1 < c.levels.conditionals) d (c.taken.push (.atom id a)).toList
      (c.index - start) := by
  have hlt := (Array.getElem?_eq_some_iff.mp ht).1
  have hlength : (atomsList (c.taken.push (.atom id a)).toList).length =
      (atomsList c.taken.toList).length + 1 := by simp
  refine ⟨hd, ?_, ?_, ?_, ?_, fun _ => ?_⟩
  · rw [hlength, ← Nat.add_assoc, atomsList_push, atoms_atom]
    exact h.atoms.append (From.token ht ha)
  · omega
  · rcases hend with hend | hend
    · obtain ⟨u, hu, hdir⟩ := h.endif (by simp_all [isComplete])
      exact ⟨u, by simp [hu], hdir⟩
    · exact ⟨.atom id a, by simp, hend⟩
  · intro u hu
    obtain hu | rfl : u ∈ c.taken.toList ∨ u = .atom id a := by simpa using hu
    · exact h.otherwise u hu
    · exact ha.otherwise
  · rw [hlength, h.index]
    omega

end Conditional.Going

/-- Reading a conditional fails only if it is not closed. -/
lemma safe_conditionalFrom {c : Conditional} (hrow : IsUsualRow row) (hstart : 0 < start)
    (hd : row[start - 1]? = some d)
    (hinner : ∀ (i : Nat) (levels : Levels), start ≤ i → i < row.size → 1 < levels.conditionals →
      Safe Fault.IsReported (inner (i + 1 : Nat) levels) fun p => ∃ id d taken,
        p.1 = .conditional id (d :: taken) ∧ ReadsConditional row (i + 1) True d taken p.2)
    (hc : c.Going row start) {isInner : Prop} (hlevel : isInner ↔ 1 < c.levels.conditionals)
    (hpos : 0 < c.levels.conditionals)
    (hfuel : row.size < fuel + (start + (atomsList c.taken.toList).length)) :
    Safe Fault.IsReported (conditionalFrom inner row start stop fuel c) fun p => ∃ id taken,
      p.1 = .conditional id (d :: taken) ∧ ReadsConditional row start isInner d taken p.2 := by
  induction fuel generalizing c with
  | zero =>
    have := hc.inside
    omega
  | succ fuel ih =>
    rw [conditionalFrom_succ hc.index]
    cases ht : row[start + (atomsList c.taken.toList).length]? with
    | none =>
      dsimp only
      refine .ite (fun hcomplete => ?_) fun _ => ?_
      · refine (safe_conditionalNode hstart hd _).bind fun node ⟨id, hnode⟩ => ?_
        exact .pure ⟨id, _, hnode, by rw [hlevel]; exact hc.reads hd hcomplete⟩
      · exact Safe.throw (by simp [Fault.unbalanced, Fault.IsReported])
    | some t =>
      obtain ⟨id, a, rfl, ha⟩ := hrow t (Array.mem_of_getElem? ht)
      have hlt := (Array.getElem?_eq_some_iff.mp ht).1
      have hc' := hc.noteOpening (.atom id a)
      have ht' : row[start + (atomsList (c.noteOpening (.atom id a)).taken.toList).length]? =
          some (.atom id a) := by
        rw [Conditional.noteOpening_taken, ht]
      have hlevel' : isInner ↔ 1 < (c.noteOpening (.atom id a)).levels.conditionals := by
        rw [Conditional.noteOpening_conditionals, hlevel]
      have hpos' : 0 < (c.noteOpening (.atom id a)).levels.conditionals := by
        rwa [Conditional.noteOpening_conditionals]
      dsimp only
      refine .ite (fun hcond => ?_) fun hcond => .ite (fun hend => ?_) fun hend => ?_
      · rw [Conditional.noteOpening_index, hc.index]
        refine (hinner _ _ (by omega) hlt ?_).bind fun ⟨node, size⟩ ⟨i, d', taken, hnode, hread⟩ => ?_
        · simpa using hpos
        · have hnode : node = .conditional i (d' :: taken) := hnode
          subst hnode
          have hd' := hrow d' (Array.mem_of_getElem? hread.directive)
          have hnext := @Conditional.Going.takeInner _ _ _ hc' i _ _ _ hd' (by simpa using hread)
          obtain ⟨_, _, rfl, -⟩ := hd'
          refine ih hnext hlevel' hpos' ?_
          simp [Conditional.take]
          omega
      · refine (safe_conditionalNode hstart hd _).bind fun node ⟨i, hnode⟩ => .pure ⟨i, _, hnode, ?_⟩
        rw [hlevel']
        have hend' : (c.noteOpening (.atom id a)).isComplete = true ∨ a.isDirective "#endif" = true := by
          simp only [Bool.or_eq_true, Bool.and_eq_true] at hend
          exact hend.imp (·.1) (·.2)
        split_ifs with hlast
        · refine hc'.reads hd (hend'.resolve_right fun hdir => ?_)
          cases a with
          | directive w =>
            simp [isClosing, Tree.kind, kind, Tree.isMark, isMark, same] at hlast
          | _ => simp [isDirective, same] at hdir
        · exact hc'.reads_push hd ht' ha hend'
      · refine ih (hc'.take ht' ha fun hinner => ?_) (by simpa [Conditional.take] using hlevel')
          (by simpa [Conditional.take] using hpos') ?_
        · simp only [Bool.or_eq_true, Bool.and_eq_true, not_or, not_and] at hend
          simpa [Tree.isDirective] using hend.2 (by simpa using hinner)
        · simp [Conditional.take]
          omega

/-- Reading the conditional behind a directive fails only if it is not closed. -/
lemma safe_conditional (hrow : IsUsualRow row) {depth : Nat} {levels : Levels}
    (hstart : 0 < start) (hle : start ≤ row.size) (hpos : 0 < levels.conditionals)
    (hdepth : row.size < depth + start) :
    Safe Fault.IsReported (conditional row stop depth start levels) fun p => ∃ id d taken,
      p.1 = .conditional id (d :: taken) ∧
        ReadsConditional row start (1 < levels.conditionals) d taken p.2 := by
  induction depth generalizing start levels with
  | zero => omega
  | succ depth ih =>
    obtain ⟨d, hd⟩ : ∃ d, row[start - 1]? = some d := ⟨_, Array.getElem?_eq_getElem (by omega)⟩
    have hgoing : Conditional.Going row start ⟨start, #[], 0, levels⟩ :=
      ⟨by simp, by simpa using From.nil (Nat.le_refl _), by simpa using hle, by simp, by simp, by simp⟩
    rw [conditional]
    refine (safe_conditionalFrom hrow hstart hd ?_ hgoing Iff.rfl hpos (by simp; omega)).mono ?_
    · intro i levels hi hlt hinner
      refine (ih (Nat.succ_pos i) hlt (Nat.zero_lt_of_lt hinner) (by omega)).mono ?_
      rintro p ⟨id, d, taken, hnode, hread⟩
      exact ⟨id, d, taken, hnode, by simpa [hinner] using hread⟩
    · rintro p ⟨id, taken, h⟩
      exact ⟨id, d, taken, h⟩

end Build

end ArmaScript
