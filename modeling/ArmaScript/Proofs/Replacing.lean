import ArmaScript.Proofs.Depth
import ArmaScript.Proofs.Overloads

/-!
# Replacing names

A use of a definition is replaced by reading the statement again with the body in its place, one
block deeper. Whether that comes to an end is a question about the definitions alone: a name whose
body mentions names that mention names, and so on without end, is replaced without end, and every
other name is gone after a number of replacements that can be counted. The script is read with no
limit large enough in the first case, and with every limit from some point on in the second.
-/

namespace ArmaScript

open List

namespace Atom

/-- Whether a token is neither a directive nor a bracket nor the end of the script. -/
def isPlain (a : Atom) : Bool :=
  a.kind != .directive && a.kind != .fileEnd &&
    !(["(", ")", "[", "]", "\x7b", "\x7d", ""].contains a.text)

variable {a : Atom}

lemma kind_of_isPlain (h : a.isPlain = true) : a.kind ≠ .directive ∧ a.kind ≠ .fileEnd := by
  simp only [isPlain, Bool.and_eq_true, bne_iff_ne] at h
  exact h.1

lemma text_of_isPlain (h : a.isPlain = true) :
    a.text ∉ ["(", ")", "[", "]", "\x7b", "\x7d", ""] := by
  simp only [isPlain, Bool.and_eq_true, Bool.not_eq_true'] at h
  simpa using h.2

lemma opens?_of_isPlain (h : a.isPlain = true) : a.opens? = none := by
  cases hk : a.opens? with
  | none => rfl
  | some k =>
    have ha := text_of_isPlain h
    rw [eq_of_opens? hk] at ha
    cases k <;> simp [text, Bracket.openingText] at ha

lemma closes?_of_isPlain (h : a.isPlain = true) : a.closes? = none := by
  cases hk : a.closes? with
  | none => rfl
  | some k =>
    have ha := text_of_isPlain h
    rw [eq_of_closes? hk] at ha
    cases k <;> simp [text, Bracket.closingText] at ha

lemma isDirective_of_isPlain (h : a.isPlain = true) (word : String) :
    a.isDirective word = false := by
  cases a with
  | directive w => exact absurd rfl (kind_of_isPlain h).1
  | _ => rfl

lemma isReplacing_of_isPlain (h : a.isPlain = true) : a.isReplacing = false := by
  simp only [isReplacing, isDirective_of_isPlain h, Bool.or_self]

end Atom

namespace Tree

def IsPlain (t : Tree) : Prop :=
  ∃ id a, t = .atom id a ∧ a.isPlain = true

variable {t : Tree}

lemma IsPlain.opens? (h : t.IsPlain) : t.opens? = none := by
  obtain ⟨id, a, rfl, ha⟩ := h
  exact Atom.opens?_of_isPlain ha

lemma IsPlain.closes? (h : t.IsPlain) : t.closes? = none := by
  obtain ⟨id, a, rfl, ha⟩ := h
  exact Atom.closes?_of_isPlain ha

lemma IsPlain.isReplacing (h : t.IsPlain) : t.isReplacing = false := by
  obtain ⟨id, a, rfl, ha⟩ := h
  exact Atom.isReplacing_of_isPlain ha

lemma IsPlain.kind_ne (h : t.IsPlain) : t.kind ≠ .fileEnd := by
  obtain ⟨id, a, rfl, ha⟩ := h
  exact (Atom.kind_of_isPlain ha).2

lemma IsPlain.text_notMem (h : t.IsPlain) : t.text ∉ ["(", ")", "[", "]", "\x7b", "\x7d", ""] := by
  obtain ⟨id, a, rfl, ha⟩ := h
  rw [text_atom]
  exact Atom.text_of_isPlain ha

lemma IsPlain.text_ne_empty (h : t.IsPlain) : t.text ≠ "" := by
  intro htext
  simpa [htext] using h.text_notMem

end Tree

lemma slice_middle {α : Type} (before middle behind : List α) :
    slice (before ++ middle ++ behind) before.length ((before.length + middle.length : Nat) : Int) =
      middle := by
  simp only [slice, clampIndex, length_append]
  rw [if_neg (by omega), if_neg (by omega), Int.toNat_natCast, Int.toNat_natCast,
    Nat.min_eq_left (by omega), Nat.min_eq_left (by omega), append_assoc, drop_left,
    Nat.add_sub_cancel_left, take_left]

namespace Build

/-! ### Names and what they stand for -/

/-- The body of the only definition of a name, which has no parameters. -/
def Defines (ds : Definitions) (name : String) (body : List Tree) : Prop :=
  ∃ id line, ds.get? name = some [(0, .define id name [] body line)]

variable {ds : Definitions} {name : String} {body ts begun : List Tree}

lemma Defines.eq {body' : List Tree} (h : Defines ds name body) (h' : Defines ds name body') :
    body = body' := by
  obtain ⟨id, line, h⟩ := h
  obtain ⟨id', line', h'⟩ := h'
  rw [h] at h'
  cases h'
  rfl

/-- All definitions are without parameters and have bodies of plain tokens. -/
structure PlainDefinitions (ds : Definitions) : Prop where
  defines : ∀ name table, ds.get? name = some table →
    ∃ body, Defines ds name body ∧ ∀ t ∈ body, t.IsPlain
  empty : ds.get? "" = none

/-- A word is written in the body of a name. -/
def Mentions (ds : Definitions) (word name : String) : Prop :=
  ∃ body, Defines ds name body ∧ ∃ t ∈ body, t.text = word

/-- A row of tokens of which no name is left after a number of replacements, each of the first name
that is left. -/
inductive Unfolds (ds : Definitions) : List Tree → Nat → Prop
  | nil : Unfolds ds [] 0
  | word {t : Tree} {ts : List Tree} {n : Nat} (h : ds.get? t.text = none) (hts : Unfolds ds ts n) :
      Unfolds ds (t :: ts) n
  | name {t : Tree} {body ts : List Tree} {n : Nat} (h : Defines ds t.text body)
      (hts : Unfolds ds (body ++ ts) n) : Unfolds ds (t :: ts) (n + 1)

lemma Unfolds.append {us : List Tree} {n : Nat} (hus : ∀ t ∈ us, ds.get? t.text = none)
    (h : Unfolds ds ts n) : Unfolds ds (us ++ ts) n := by
  induction us with
  | nil => exact h
  | cons t us ih =>
    exact .word (hus t mem_cons_self) (ih fun u hu => hus u (mem_cons_of_mem t hu))

/-- A name below which the mentions come to an end is gone after some replacements. -/
lemma exists_unfolds_cons (hds : PlainDefinitions ds) (hname : Acc (Mentions ds) name) :
    ∀ {t : Tree} {ts : List Tree} {n : Nat}, t.text = name →
      Unfolds ds ts n → ∃ m, Unfolds ds (t :: ts) m := by
  induction hname with
  | intro name _ ih =>
    intro t ts n ht hts
    subst ht
    cases hget : ds.get? t.text with
    | none => exact ⟨n, .word hget hts⟩
    | some table =>
      obtain ⟨body, hbody, -⟩ := hds.defines _ _ hget
      -- the body is put in front of the row from its last token to its first
      have hall : ∀ us, (∀ u ∈ us, u ∈ body) → ∃ m, Unfolds ds (us ++ ts) m := by
        intro us hus
        induction us with
        | nil => exact ⟨n, hts⟩
        | cons u us ihus =>
          obtain ⟨m, hm⟩ := ihus fun v hv => hus v (mem_cons_of_mem u hv)
          exact ih u.text ⟨body, hbody, u, hus u mem_cons_self, rfl⟩ rfl hm
      obtain ⟨m, hm⟩ := hall body fun _ => id
      exact ⟨m + 1, .name hbody hm⟩

lemma exists_unfolds (hds : PlainDefinitions ds) (h : ∀ t ∈ ts, Acc (Mentions ds) t.text) :
    ∃ n, Unfolds ds ts n := by
  induction ts with
  | nil => exact ⟨0, .nil⟩
  | cons t ts ih =>
    obtain ⟨n, hn⟩ := ih fun u hu => h u (mem_cons_of_mem t hu)
    exact exists_unfolds_cons hds (h t mem_cons_self) rfl hn

/-- A name whose mentions do not come to an end has a body with such a name. -/
lemma exists_mention (h : ¬Acc (Mentions ds) name) :
    ∃ body, Defines ds name body ∧ ∃ t ∈ body, ¬Acc (Mentions ds) t.text := by
  by_contra hno
  refine h ⟨name, fun word hword => ?_⟩
  obtain ⟨body, hbody, t, ht, rfl⟩ := hword
  by_contra hacc
  exact hno ⟨body, hbody, t, ht, hacc⟩

lemma acc_of_undefined (h : ds.get? name = none) : Acc (Mentions ds) name := by
  refine ⟨name, ?_⟩
  rintro word ⟨body, ⟨id, line, hget⟩, -⟩
  rw [h] at hget
  cases hget

lemma not_acc_of_mentions (h : Mentions ds name name) : ¬Acc (Mentions ds) name := by
  intro hacc
  induction hacc with
  | intro name _ ih => exact ih name h h

lemma plainDefinitions_singleton (hname : name ≠ "") (hbody : ∀ t ∈ body, t.IsPlain) (id : NodeId)
    (line : List Tree) : PlainDefinitions [(name, [(0, .define id name [] body line)])] where
  defines := by
    intro name' table h
    have hname' : name = name' := by
      by_contra hne
      rw [Table.get?, if_neg (by simpa using hne)] at h
      cases h
    subst hname'
    exact ⟨body, ⟨id, line, by simp [Table.get?]⟩, hbody⟩
  empty := by simp [Table.get?, hname]

/-! ### One token -/

variable {read : Reader} {row : Array Tree} {start : Nat} {stop : Stop} {levels : Levels}
  {σ : BuildState} {t : Tree}

lemma step_eq_stepToken_of_undefined {b : Block} (ht : startsConditional t = false)
    (hget : σ.definitions.get? t.text = none) :
    step read row start stop b t σ = stepToken read row start stop b t σ := by
  unfold step
  rw [ht]
  refine (bind_of_eq_ok (x := get) (a := σ) rfl).trans ?_
  rw [hget]
  rfl

lemma exists_closeRow (hbegun : ∀ t ∈ begun, t.text ≠ "") (statements : List Tree)
    (σ : BuildState) : ∃ statements' σ', closeRow begun statements σ = .ok statements' σ' ∧
      σ'.definitions = σ.definitions := by
  unfold closeRow
  split_ifs
  · exact ⟨_, _, rfl, rfl⟩
  · obtain ⟨t, σ', ht⟩ := exists_arrange hbegun σ
    exact ⟨_, σ', bind_eq ht rfl, keeps_arrange _ ht⟩

/-- A plain token that is no name is taken as it is; it may end the statement. -/
lemma step_undefined (ht : t.IsPlain) (hget : σ.definitions.get? t.text = none)
    {before behind : List Tree} (hrow : row.toList = before ++ begun ++ t :: behind)
    (hbegun : ∀ u ∈ begun, u.IsPlain) (read : Reader) (start : Nat) (stop : Stop)
    (statements : Array Tree) : ∃ before' begun' statements' σ',
      step read row start stop ⟨(before.length + begun.length : Nat), ⟨begun⟩, statements, .none⟩ t σ =
        .ok (.more ⟨(before'.length + begun'.length : Nat), ⟨begun'⟩, statements', .none⟩) σ' ∧
      row.toList = before' ++ begun' ++ behind ∧ (∀ u ∈ begun', u ∈ t :: begun) ∧
      σ'.definitions = σ.definitions := by
  have hcond := (isDirective_of_isReplacing ht.isReplacing).2.2
  have hwith : rowWith begun t = begun ++ [t] := if_neg (by simpa using ht.kind_ne)
  rw [step_eq_stepToken_of_undefined hcond hget,
    stepToken_plain ht.opens? ht.closes? ht.isReplacing rfl, hwith]
  split_ifs
  · have htext : ∀ u ∈ begun ++ [t], u.text ≠ "" := by
      intro u hu
      rcases mem_append.mp hu with hu | hu
      · exact (hbegun u hu).text_ne_empty
      · rw [mem_singleton.mp hu]
        exact ht.text_ne_empty
    obtain ⟨statements', σ', h, hdefs⟩ := exists_closeRow htext statements.toList σ
    refine ⟨before ++ begun ++ [t], [], ⟨statements'⟩, σ', bind_eq h ?_,
      by simpa using hrow, by simp, hdefs⟩
    simp [pure_eq_ok, Int.add_assoc]
  · refine ⟨before, begun ++ [t], statements, σ, ?_, by simpa using hrow, by simp [or_comm], rfl⟩
    simp [pure_eq_ok, Int.add_assoc]

lemma step_name {b : Block} {definition : Tree} (ht : startsConditional t = false)
    (hget : σ.definitions.get? t.text = some [(0, definition)])
    (hnext : (at? row (b.index + 1)).map Tree.text ≠ some "(") :
    step read row start stop b t σ = stepUse read row stop b definition [] σ := by
  have huse : findUse row b.index [(0, definition)] = some (definition, []) := by
    unfold findUse
    rw [if_neg (by simpa using hnext)]
    rfl
  unfold step
  rw [ht]
  refine (bind_of_eq_ok (x := get) (a := σ) rfl).trans ?_
  rw [hget, Option.bind_some, huse]

lemma substituteList_nil (hbody : ∀ u ∈ body, u.IsPlain) :
    substituteList [] [] body = pure body := by
  have hflat : ∀ u ∈ body, ∃ id a, u = .atom id a := by
    intro u hu
    obtain ⟨id, a, rfl, -⟩ := hbody u hu
    exact ⟨id, a, rfl⟩
  funext σ
  refine (substituteList_of_flat hflat σ).trans ?_
  change EStateM.Result.ok (body.map id) σ = .ok body σ
  rw [map_id]

section Use

variable {before begun body behind line : List Tree} {id : NodeId} {name : String}
  {statements : Array Tree}

lemma slices_of_use (hrow : row.toList = before ++ begun ++ t :: behind) :
    slice row.toList 0 before.length = before ∧
      slice row.toList (before.length + begun.length : Nat)
        ((before.length + begun.length : Nat) + (1 : Nat)) = [t] ∧
      slice row.toList ((before.length + begun.length : Nat) + (1 : Nat)) row.size = behind := by
  have hsize : row.size = before.length + begun.length + 1 + behind.length := by
    rw [← Array.length_toList, hrow]
    simp only [length_append, length_cons]
    omega
  rw [hrow, hsize]
  refine ⟨?_, ?_, ?_⟩
  · have h := slice_middle [] before (begun ++ t :: behind)
    simpa using h
  · have h := slice_middle (before ++ begun) [t] behind
    simpa using h
  · have h := slice_middle (before ++ begun ++ [t]) behind []
    simpa [Int.add_assoc] using h

/-- A use is replaced by reading the statement begun before it again, with the body in its place. -/
lemma stepUse_error (hrow : row.toList = before ++ begun ++ t :: behind)
    (hbody : ∀ u ∈ body, u.IsPlain) {fault : Fault} {σ' : BuildState}
    (hread : read (before ++ begun ++ body ++ behind).toArray before.length levels stop σ =
      .error fault σ') :
    stepUse read row stop ⟨(before.length + begun.length : Nat), ⟨begun⟩, statements, levels⟩
        (.define id name [] body line) [] σ = .error fault σ' := by
  obtain ⟨hbefore, -, hbehind⟩ := slices_of_use hrow
  have hstart : ((before.length + begun.length : Nat) : Int) - begun.length = before.length := by
    omega
  unfold stepUse
  simp only [filterMap_nil, substituteList_nil hbody, length_nil, if_pos, pure_bind,
    size_toArray, hstart, hbefore, hbehind]
  exact bind_of_eq_error hread

lemma firstStatement_cases (node : Tree) (σ : BuildState) :
    firstStatement node σ = .error .outOfRange σ ∨ ∃ s, firstStatement node σ = .ok s σ := by
  cases node with
  | statement id bracketed ending cs =>
    unfold firstStatement
    cases (Tree.statement id bracketed ending cs).content.head? with
    | none => exact .inl rfl
    | some s => exact .inr ⟨s, rfl⟩
  | _ => exact .inr ⟨_, rfl⟩

/-- Where the rest of the script was read in its place, reading goes on at the end of the script. -/
lemma stepUse_ok {i : NodeId}
    (hrow : row.toList = before ++ begun ++ t :: (behind ++ [.atom i .fileEnd]))
    (hbody : ∀ u ∈ body, u.IsPlain) {node : Tree} {σ' : BuildState}
    (hread : read (before ++ begun ++ body ++ (behind ++ [Tree.atom i .fileEnd])).toArray before.length
      levels stop σ = .ok (node, (begun.length + body.length + behind.length + 1 : Nat)) σ') :
    stepUse read row stop ⟨(before.length + begun.length : Nat), ⟨begun⟩, statements, levels⟩
        (.define id name [] body line) [] σ = .error .outOfRange σ' ∨
      ∃ statements' σ'', stepUse read row stop
          ⟨(before.length + begun.length : Nat), ⟨begun⟩, statements, levels⟩
          (.define id name [] body line) [] σ =
        .ok (.more ⟨(before.length + begun.length + 1 + behind.length : Nat), #[], statements',
          levels⟩) σ'' ∧ σ''.definitions = σ'.definitions := by
  obtain ⟨hbefore, huse, hbehind⟩ := slices_of_use hrow
  have hstart : ((before.length + begun.length : Nat) : Int) - begun.length = before.length := by
    omega
  have htaken : (([t] : List Tree).length : Int) - body.length +
      (begun.length + body.length + behind.length + 1 : Nat) =
      (begun.length + 1 + behind.length + 1 : Nat) := by
    simp only [length_singleton]
    omega
  have hwritten : slice row.toList before.length
      (before.length + (begun.length + 1 + behind.length + 1 : Nat)) =
      begun ++ t :: behind ++ [.atom i .fileEnd] := by
    have h := slice_middle before (begun ++ t :: behind ++ [.atom i .fileEnd]) []
    rw [hrow]
    simpa [Int.add_assoc, Int.add_comm 1] using h
  unfold stepUse
  simp only [filterMap_nil, substituteList_nil hbody, length_nil, if_pos, pure_bind,
    size_toArray, hstart, hbefore, hbehind, huse]
  rw [bind_of_eq_ok hread]
  simp only [htaken, hwritten, getLast?_concat]
  obtain hfirst | ⟨s, hfirst⟩ := firstStatement_cases node σ'
  · exact .inl (bind_of_eq_error hfirst)
  · have hindex : ((before.length + begun.length + 1 + behind.length : Nat) : Int) =
        before.length + (((begun.length + 1 + behind.length + 1 : Nat) : Int) - 1) := by omega
    refine .inr ⟨statements.push (.expansion σ'.nextId (.define id name [] body line) s
      (begun ++ t :: behind ++ [Tree.atom i .fileEnd]).dropLast), ⟨σ'.nextId + 1, σ'.definitions⟩, ?_, rfl⟩
    rw [bind_of_eq_ok hfirst, hindex]
    rfl

end Use

/-! ### Reading to the end -/

section

variable {ds : Definitions} {depth fuel : Nat} {before begun rest : List Tree} {i : NodeId}
  {statements : Array Tree}

lemma getElem?_of_toList {behind : List Tree} (hrow : row.toList = before ++ begun ++ behind)
    (k : Nat) : row[before.length + begun.length + k]? = behind[k]? := by
  rw [← Array.getElem?_toList, hrow, ← length_append, getElem?_append_right (by omega),
    Nat.add_sub_cancel_left]

lemma row_of_use (before begun body rest : List Tree) (t : Tree) :
    before ++ (begun ++ body ++ rest) ++ [t] = before ++ begun ++ body ++ (rest ++ [t]) := by
  simp only [append_assoc]

lemma length_le_fuel (before rest : List Tree) (t : Tree) :
    rest.length + 2 ≤ ((before ++ rest ++ [t]).toArray.size + 2) *
      ((before ++ rest ++ [t]).toArray.size + 2) := by
  refine le_trans ?_ (Nat.le_mul_self _)
  simp only [size_toArray, length_append]
  omega

variable {k n : Nat}

lemma blockFrom_of_error {b : Block} {σ' : BuildState} {fault : Fault} (hk : b.index = k)
    (ht : row[k]? = some t) (hstep : step read row start stop b t σ = .error fault σ') :
    blockFrom read row start stop (fuel + 1) b σ = .error fault σ' := by
  rw [blockFrom_succ hk, ht]
  exact bind_of_eq_error hstep

lemma step_name_of_plain (hbody : Defines σ.definitions t.text body)
    (hrow : row.toList = before ++ begun ++ (t :: rest ++ [.atom i .fileEnd])) (ht : t.IsPlain)
    (hrest : ∀ u ∈ rest, u.IsPlain) (read : Reader) (start : Nat) (stop : Stop)
    (statements : Array Tree) (levels : Levels) : ∃ id line,
      step read row start stop ⟨(before.length + begun.length : Nat), ⟨begun⟩, statements, levels⟩ t σ =
        stepUse read row stop ⟨(before.length + begun.length : Nat), ⟨begun⟩, statements, levels⟩
          (.define id t.text [] body line) [] σ := by
  obtain ⟨id, line, hget⟩ := hbody
  refine ⟨id, line, step_name (isDirective_of_isReplacing ht.isReplacing).2.2 hget ?_⟩
  have hnext := getElem?_of_toList hrow 1
  change (at? row ((before.length + begun.length + 1 : Nat) : Int)).map Tree.text ≠ _
  rw [at?_natCast, hnext]
  cases rest with
  | nil => exact fun h => absurd (Option.some.inj h) (by rw [Tree.text_atom]; decide)
  | cons u rest =>
    intro h
    have hu := (hrest u mem_cons_self).text_notMem
    rw [show u.text = "(" from Option.some.inj h] at hu
    exact hu mem_cons_self

/-- A row with a name whose mentions do not come to an end is read until the limit is reached, if this
holds one block deeper. -/
lemma blockFrom_exhausted (hds : PlainDefinitions ds)
    (ih : ∀ {before rest : List Tree} {σ : BuildState}, σ.definitions = ds → (∀ t ∈ rest, t.IsPlain) →
      (∃ t ∈ rest, ¬Acc (Mentions ds) t.text) →
      ∃ σ', block depth (before ++ rest ++ [Tree.atom i .fileEnd]).toArray before.length .none .both σ =
        .error .exhausted σ') (hrow : row.toList = before ++ begun ++ (rest ++ [.atom i .fileEnd]))
    (hbegun : ∀ t ∈ begun, t.IsPlain) (hrest : ∀ t ∈ rest, t.IsPlain)
    (hloop : ∃ t ∈ rest, ¬Acc (Mentions ds) t.text) (hfuel : rest.length ≤ fuel)
    (hσ : σ.definitions = ds) : ∃ σ', blockFrom (block depth) row start .both fuel
      ⟨(before.length + begun.length : Nat), ⟨begun⟩, statements, .none⟩ σ = .error .exhausted σ' := by
  induction rest generalizing before begun fuel statements σ with
  | nil => simp at hloop
  | cons t rest ihrest =>
    obtain ⟨fuel, rfl⟩ := Nat.exists_eq_add_one.mpr (Nat.zero_lt_of_lt hfuel)
    have ht := hrest t mem_cons_self
    have hrest' : ∀ u ∈ rest, u.IsPlain := fun u hu => hrest u (mem_cons_of_mem t hu)
    have hthere : row[before.length + begun.length]? = some t := getElem?_of_toList hrow 0
    cases hget : ds.get? t.text with
    | none =>
      have hloop' : ∃ u ∈ rest, ¬Acc (Mentions ds) u.text := by
        obtain ⟨u, hu, hacc⟩ := hloop
        obtain rfl | hu := mem_cons.mp hu
        · exact absurd (acc_of_undefined hget) hacc
        · exact ⟨u, hu, hacc⟩
      obtain ⟨before', begun', statements', σ', hstep, hrow', hbegun', hdefs⟩ := step_undefined ht
        (hσ ▸ hget) hrow hbegun (block depth) start .both statements
      rw [blockFrom_more rfl hthere hstep]
      refine ihrest hrow' (fun u hu => ?_) hrest' hloop' (Nat.le_of_succ_le_succ hfuel)
        (hdefs.trans hσ)
      exact (mem_cons.mp (hbegun' u hu)).elim (fun h => h ▸ ht) (hbegun u)
    | some table =>
      obtain ⟨body, hbody, hplain⟩ := hds.defines _ _ hget
      obtain ⟨id, line, hstep⟩ := step_name_of_plain (hσ ▸ hbody) hrow ht hrest' (block depth) start
        .both statements .none
      -- what was begun is read again, but the endless name is in the body or behind the use
      have hloop' : ∃ u ∈ begun ++ body ++ rest, ¬Acc (Mentions ds) u.text := by
        obtain ⟨u, hu, hacc⟩ := hloop
        obtain rfl | hu := mem_cons.mp hu
        · obtain ⟨body', hbody', v, hv, hacc⟩ := exists_mention hacc
          cases hbody.eq hbody'
          exact ⟨v, by simp [hv], hacc⟩
        · exact ⟨u, by simp [hu], hacc⟩
      have hall : ∀ u ∈ begun ++ body ++ rest, u.IsPlain := by
        simpa [or_imp, forall_and] using ⟨hbegun, hplain, hrest'⟩
      obtain ⟨σ', hread⟩ := ih hσ hall hloop'
      refine ⟨σ', blockFrom_of_error rfl hthere (hstep.trans (stepUse_error hrow hplain ?_))⟩
      rwa [row_of_use] at hread

/-- A row with a name whose mentions do not come to an end is read until the limit is reached. -/
lemma block_exhausted (hds : PlainDefinitions ds) (depth : Nat) (hσ : σ.definitions = ds)
    (hrest : ∀ t ∈ rest, t.IsPlain) (hloop : ∃ t ∈ rest, ¬Acc (Mentions ds) t.text) :
    ∃ σ', block depth (before ++ rest ++ [Tree.atom i .fileEnd]).toArray before.length .none .both σ =
      .error .exhausted σ' := by
  induction depth generalizing before rest σ with
  | zero => exact ⟨σ, rfl⟩
  | succ depth ih =>
    rw [block, if_neg (by simp)]
    change ∃ σ', blockFrom (block depth) _ _ .both _
      ⟨((before.length + ([] : List Tree).length : Nat) : Int), ⟨[]⟩, #[], .none⟩ σ = _
    refine blockFrom_exhausted hds ih (by simp) (by simp) hrest hloop ?_ hσ
    exact (Nat.le_add_right _ 2).trans (length_le_fuel before rest _)

/-- Reading comes to an end: with a node that reaches over a number of tokens, or with an error. -/
def Ends (ds : Definitions) (size : Int) (r : EStateM.Result Fault BuildState (Tree × Int)) : Prop :=
  (∃ node σ', r = .ok (node, size) σ' ∧ σ'.definitions = ds) ∨
    ∃ fault σ', r = .error fault σ' ∧ fault ≠ .exhausted

/-- At the end of the script the last statement is closed. -/
lemma blockFrom_fileEnd (hempty : σ.definitions.get? "" = none)
    (hrow : row.toList = before ++ begun ++ [.atom i .fileEnd]) (hbegun : ∀ t ∈ begun, t.IsPlain)
    (read : Reader) (start fuel : Nat) (statements : Array Tree) :
    ∃ node σ', blockFrom read row start .both (fuel + 2)
        ⟨(before.length + begun.length : Nat), ⟨begun⟩, statements, .none⟩ σ =
      .ok (node, row.size - start) σ' ∧ σ'.definitions = σ.definitions := by
  have hthere : row[before.length + begun.length]? = some (.atom i .fileEnd) :=
    getElem?_of_toList hrow 0
  have hbehind : row[before.length + begun.length + 1]? = none := getElem?_of_toList hrow 1
  have hsize : row.size = before.length + begun.length + 1 := by
    rw [← Array.length_toList, hrow, length_append, length_append]
    rfl
  obtain ⟨statements', σ', hclose, hdefs⟩ :=
    exists_closeRow (fun t ht => (hbegun t ht).text_ne_empty) statements.toList σ
  have hstep : step read row start .both
      ⟨(before.length + begun.length : Nat), ⟨begun⟩, statements, .none⟩ (.atom i .fileEnd) σ =
      .ok (.more ⟨((before.length + begun.length : Nat) : Int) + 1, #[], ⟨statements'⟩, .none⟩) σ' := by
    rw [step_eq_stepToken_of_undefined rfl hempty, stepToken_plain rfl rfl rfl rfl]
    exact bind_eq hclose rfl
  rw [blockFrom_more rfl hthere hstep, blockFrom_succ (i := before.length + begun.length + 1) rfl,
    hbehind, hsize]
  exact ⟨_, _, rfl, hdefs⟩

/-- A row of which no name is left after `n` replacements is read to its end within a limit above `n`,
if this holds one block deeper. -/
lemma ends_blockFrom (hds : PlainDefinitions ds)
    (ih : ∀ {before rest : List Tree} {σ : BuildState} {n : Nat}, σ.definitions = ds →
      (∀ t ∈ rest, t.IsPlain) → Unfolds ds rest n → n < depth → Ends ds (rest.length + 1 : Nat)
        (block depth (before ++ rest ++ [Tree.atom i .fileEnd]).toArray before.length .none .both σ))
    (hrow : row.toList = before ++ begun ++ (rest ++ [.atom i .fileEnd]))
    (hbegun : ∀ t ∈ begun, t.IsPlain ∧ ds.get? t.text = none) (hrest : ∀ t ∈ rest, t.IsPlain)
    (hunfolds : Unfolds ds rest n) (hn : n ≤ depth) (hσ : σ.definitions = ds) :
    Ends ds (row.size - start) (blockFrom (block depth) row start .both (rest.length + 2 + fuel)
      ⟨(before.length + begun.length : Nat), ⟨begun⟩, statements, .none⟩ σ) := by
  induction rest generalizing before begun statements σ with
  | nil =>
    rw [Nat.add_comm]
    subst hσ
    exact .inl (blockFrom_fileEnd hds.empty hrow (fun t ht => (hbegun t ht).1) _ _ _ _)
  | cons t rest ihrest =>
    have ht := hrest t mem_cons_self
    have hrest' : ∀ u ∈ rest, u.IsPlain := fun u hu => hrest u (mem_cons_of_mem t hu)
    have hplain : ∀ u ∈ begun, u.IsPlain := fun u hu => (hbegun u hu).1
    have hthere : row[before.length + begun.length]? = some t := getElem?_of_toList hrow 0
    have hfuel : (t :: rest).length + 2 + fuel = rest.length + 2 + fuel + 1 := by
      rw [length_cons]
      omega
    rw [hfuel]
    cases hunfolds with
    | word hget hunfolds =>
      obtain ⟨before', begun', statements', σ', hstep, hrow', hbegun', hdefs⟩ := step_undefined ht
        (hσ ▸ hget) hrow hplain (block depth) start .both statements
      rw [blockFrom_more rfl hthere hstep]
      refine ihrest hrow' (fun u hu => ?_) hrest' hunfolds (hdefs.trans hσ)
      exact (mem_cons.mp (hbegun' u hu)).elim (fun h => h ▸ ⟨ht, hget⟩) (hbegun u)
    | @name _ body _ n hbody hunfolds =>
      obtain ⟨body', hbody', hplainBody⟩ : ∃ body', Defines ds t.text body' ∧ ∀ u ∈ body', u.IsPlain := by
        obtain ⟨id, line, hget⟩ := hbody
        exact hds.defines _ _ hget
      cases hbody.eq hbody'
      obtain ⟨id, line, hstep⟩ := step_name_of_plain (hσ ▸ hbody) hrow ht hrest' (block depth) start
        .both statements .none
      have hall : ∀ u ∈ begun ++ body ++ rest, u.IsPlain := by
        simpa [or_imp, forall_and] using ⟨hplain, hplainBody, hrest'⟩
      -- what was begun has no names, so reading it again takes no replacement
      have hall' : Unfolds ds (begun ++ body ++ rest) n := by
        rw [append_assoc]
        exact .append (fun u hu => (hbegun u hu).2) hunfolds
      have hinner := @ih before _ _ _ hσ hall hall' hn
      rw [row_of_use, length_append, length_append] at hinner
      obtain ⟨node, σ', hread, hdefs⟩ | ⟨fault, σ', hread, hfault⟩ := hinner
      · obtain herror | ⟨statements', σ'', hmore, hdefs'⟩ := stepUse_ok hrow hplainBody hread
        · exact .inr ⟨.outOfRange, σ', blockFrom_of_error rfl hthere (hstep.trans herror), by simp⟩
        -- the block inside has read everything up to the end of the script
        · have hend : row.toList = before ++ begun ++ t :: rest ++ [] ++ [.atom i .fileEnd] := by
            simpa using hrow
          have hindex : before.length + begun.length + 1 + rest.length =
              (before ++ begun ++ t :: rest).length + ([] : List Tree).length := by
            simp only [length_append, length_cons, length_nil]
            omega
          have hds'' : σ''.definitions = ds := hdefs'.trans hdefs
          rw [blockFrom_more rfl hthere (hstep.trans hmore), hindex, Nat.add_right_comm, ← hds'']
          exact .inl (blockFrom_fileEnd (hds'' ▸ hds.empty) hend (by simp) _ _ _ _)
      · exact .inr ⟨fault, σ', blockFrom_of_error rfl hthere
          (hstep.trans (stepUse_error hrow hplainBody hread)), hfault⟩

/-- A row of which no name is left after `n` replacements is read to its end within every limit above
`n`. -/
lemma ends_block (hds : PlainDefinitions ds) (depth : Nat) (hσ : σ.definitions = ds)
    (hrest : ∀ t ∈ rest, t.IsPlain) (hunfolds : Unfolds ds rest n) (hn : n < depth) :
    Ends ds (rest.length + 1 : Nat)
      (block depth (before ++ rest ++ [Tree.atom i .fileEnd]).toArray before.length .none .both σ) := by
  induction depth generalizing before rest σ n with
  | zero => cases hn
  | succ depth ih =>
    rw [block, if_neg (by simp)]
    obtain ⟨fuel, hfuel⟩ := Nat.exists_eq_add_of_le (length_le_fuel before rest (.atom i .fileEnd))
    have hsize : ((rest.length + 1 : Nat) : Int) =
        (before ++ rest ++ [Tree.atom i .fileEnd]).toArray.size - (before.length : Int) := by
      simp only [size_toArray, length_append, length_singleton]
      omega
    rw [hfuel, hsize]
    change Ends ds _ (blockFrom (block depth) _ _ .both _
      ⟨((before.length + ([] : List Tree).length : Nat) : Int), ⟨[]⟩, #[], .none⟩ σ)
    exact ends_blockFrom hds ih (by simp) (by simp) hrest hunfolds (Nat.le_of_lt_succ hn) hσ

end

/-- The rest of a script, with definitions without parameters, is read to its end, with the same result
within every limit that is large enough, exactly if for each of its tokens the mentions of names in
bodies come to an end. -/
theorem replacement_ends_iff {σ : BuildState} (hds : PlainDefinitions σ.definitions)
    {rest : List Tree} (hrest : ∀ t ∈ rest, t.IsPlain) (before : List Tree) (i : NodeId) :
    (∃ result limit, (∀ σ', result ≠ .error .exhausted σ') ∧ ∀ depth, limit ≤ depth →
        block depth (before ++ rest ++ [Tree.atom i .fileEnd]).toArray before.length .none .both σ =
          result) ↔
      ∀ t ∈ rest, Acc (Mentions σ.definitions) t.text := by
  constructor
  · rintro ⟨result, limit, hresult, hlimit⟩ t ht
    by_contra hacc
    obtain ⟨σ', hσ'⟩ := block_exhausted hds limit rfl hrest ⟨t, ht, hacc⟩
    exact hresult σ' ((hlimit limit le_rfl).symm.trans hσ')
  · intro hacc
    obtain ⟨n, hn⟩ := exists_unfolds hds hacc
    have hends : ∀ σ', block (n + 1) (before ++ rest ++ [Tree.atom i .fileEnd]).toArray before.length
        .none .both σ ≠ .error .exhausted σ' := by
      intro σ' hσ'
      obtain ⟨node, σ'', hok, -⟩ | ⟨fault, σ'', herror, hfault⟩ :=
        ends_block hds (n + 1) rfl hrest hn (Nat.lt_succ_self n)
      · rw [hσ'] at hok
        cases hok
      · rw [hσ'] at herror
        cases herror
        exact hfault rfl
    exact ⟨_, n + 1, hends, fun depth hdepth => continues_block hdepth _ _ _ _ hends⟩

/-- The row `A;` is read to its end where A stands for B. -/
theorem replacement_ends_iff_other :
    ∃ result limit, (∀ σ', result ≠ .error .exhausted σ') ∧ ∀ depth, limit ≤ depth → block depth
      ([] ++ [Tree.atom 2 (.var "A"), Tree.atom 3 (.mark ";")] ++ [Tree.atom 4 .fileEnd]).toArray
      ([] : List Tree).length .none .both
      ⟨5, [("A", [(0, .define 0 "A" [] [.atom 1 (.var "B")] [])])]⟩ = result := by
  have hbody : ∀ t ∈ [Tree.atom 1 (.var "B")], t.IsPlain := by
    intro t ht
    rw [mem_singleton.mp ht]
    exact ⟨1, .var "B", rfl, by decide⟩
  have hds := plainDefinitions_singleton (show "A" ≠ "" by decide) hbody 0 []
  have hrest : ∀ t ∈ [Tree.atom 2 (.var "A"), .atom 3 (.mark ";")], t.IsPlain := by
    intro t ht
    obtain rfl | rfl : t = .atom 2 (.var "A") ∨ t = .atom 3 (.mark ";") := by simpa using ht
    · exact ⟨2, .var "A", rfl, by decide⟩
    · exact ⟨3, .mark ";", rfl, by decide⟩
  refine (replacement_ends_iff (σ := ⟨5, _⟩) hds hrest [] 4).mpr fun t ht => ?_
  obtain rfl | rfl : t = .atom 2 (.var "A") ∨ t = .atom 3 (.mark ";") := by simpa using ht
  · refine ⟨_, ?_⟩
    rintro word ⟨body, hdefines, u, hu, rfl⟩
    cases Defines.eq ⟨0, [], rfl⟩ hdefines
    rw [mem_singleton.mp hu]
    exact acc_of_undefined rfl
  · exact acc_of_undefined rfl

def selfLine : List Tree :=
  [.atom 0 (.directive "#define"), .atom 1 .space, .atom 2 (.var "A"), .atom 3 .space,
    .atom 4 (.var "A")]

/-- The row of a script with this line and a use of A in the next one. -/
def selfRow : Array Tree :=
  (selfLine ++ [Tree.atom 5 (.lineEnd "\n"), Tree.atom 6 (.var "A"), Tree.atom 7 .fileEnd]).toArray

lemma step_selfRow (depth : Nat) :
    step (block (depth + 1)) selfRow 0 .both ⟨0, #[], #[], .none⟩ (.atom 0 (.directive "#define"))
        ⟨8, []⟩ = .ok (.more ⟨5, #[], #[.statement 9 false none
          [.define 8 "A" [] [.atom 4 (.var "A")] selfLine]], .none⟩)
        ⟨10, [("A", [(0, .define 8 "A" [] [.atom 4 (.var "A")] selfLine)])]⟩ :=
  rfl

/-- A definition that mentions itself is replaced until the limit is reached, whatever the limit. -/
lemma block_selfRow_exhausted (depth : Nat) :
    ∃ σ', block depth selfRow 0 .none .both ⟨8, []⟩ = .error .exhausted σ' := by
  have hA : ∀ id, (Tree.atom id (.var "A")).IsPlain := fun id => ⟨id, .var "A", rfl, by decide⟩
  have hbody : ∀ t ∈ [Tree.atom 4 (.var "A")], t.IsPlain := by simpa using hA 4
  have hds := plainDefinitions_singleton (show "A" ≠ "" by decide) hbody 8 selfLine
  have hrest : ∀ t ∈ [Tree.atom 5 (.lineEnd "\n"), .atom 6 (.var "A")], t.IsPlain := by
    have hline : (Tree.atom 5 (.lineEnd "\n")).IsPlain := ⟨5, .lineEnd "\n", rfl, by decide⟩
    simpa using ⟨hline, hA 6⟩
  have hself : ¬Acc (Mentions [("A", [(0, .define 8 "A" [] [.atom 4 (.var "A")] selfLine)])]) "A" :=
    not_acc_of_mentions ⟨_, ⟨8, selfLine, rfl⟩, _, mem_singleton_self _, rfl⟩
  cases depth with
  | zero => exact ⟨_, rfl⟩
  | succ depth =>
    cases depth with
    | zero => exact ⟨_, rfl⟩
    | succ depth =>
      change ∃ σ', blockFrom (block (depth + 1)) selfRow (0 : Nat) .both (99 + 1)
        ⟨0, #[], #[], .none⟩ ⟨8, []⟩ = .error .exhausted σ'
      rw [blockFrom_more rfl rfl (step_selfRow depth)]
      change ∃ σ', blockFrom _ _ _ _ _
        ⟨((selfLine.length + ([] : List Tree).length : Nat) : Int), ⟨[]⟩, _, _⟩ _ = _
      exact blockFrom_exhausted hds
        (fun hσ hplain hloop => block_exhausted hds (depth + 1) hσ hplain hloop) rfl (by simp) hrest
        ⟨.atom 6 (.var "A"), by simp, hself⟩ (by decide) rfl

/-- So it is within the limit that a script is read with. -/
theorem replacement_of_self_exhausted :
    ∃ σ', block (selfRow.size + expansionLimit) selfRow 0 .none .both ⟨8, []⟩ =
      .error .exhausted σ' :=
  block_selfRow_exhausted _

end Build

end ArmaScript
