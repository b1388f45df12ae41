import ArmaScript.Proofs.Rejecting

/-!
# How deep a script is read

Blocks are read inside each other up to a limit. A script that is read within a limit is read the same
within every larger one, so whether reading comes to an end, and with what, is a question about the
script alone. Without `#define` and `#else` it always comes to an end: no more blocks are read inside
each other than the script has tokens that open something.
-/

namespace ArmaScript

namespace Build

variable {α β : Type}

/-- A computation that gives what another one gives, unless that one is cut off. -/
def Continues (x y : Build α) : Prop :=
  ∀ ⦃σ⦄, (∀ σ', x σ ≠ .error .exhausted σ') → y σ = x σ

namespace Continues

lemma refl (x : Build α) : Continues x x :=
  fun _ _ => rfl

lemma exhausted (y : Build α) : Continues (throw .exhausted) y :=
  fun σ h => absurd rfl (h σ)

lemma bind {x y : Build α} {f g : α → Build β} (hxy : Continues x y)
    (hfg : ∀ a, Continues (f a) (g a)) : Continues (x >>= f) (y >>= g) := by
  intro σ h
  have hy : y σ = x σ := hxy fun σ' hx => h σ' (bind_of_eq_error hx)
  cases hx : x σ with
  | ok a σ' =>
    rw [hx] at hy
    rw [bind_of_eq_ok hx] at h ⊢
    rw [bind_of_eq_ok hy]
    exact hfg a h
  | error e σ' =>
    rw [hx] at hy
    rw [bind_of_eq_error hx, bind_of_eq_error hy]

lemma ite {c : Prop} [Decidable c] {x x' y y' : Build α} (h : Continues x y)
    (h' : Continues x' y') : Continues (if c then x else x') (if c then y else y') := by
  split_ifs
  · exact h
  · exact h'

end Continues

/-! ### Reading with another reader for the blocks inside -/

section

variable {read read' : Reader}
  (hread : ∀ row start levels stop, Continues (read row start levels stop) (read' row start levels stop))

include hread

lemma continues_stepOpening (row : Array Tree) (b : Block) (inner : Levels) (stop : Stop) :
    Continues (stepOpening read row b inner stop) (stepOpening read' row b inner stop) :=
  (hread _ _ _ _).bind fun _ => .refl _

lemma continues_stepConditional (row : Array Tree) (stop : Stop) (b : Block) :
    Continues (stepConditional read row stop b) (stepConditional read' row stop b) := by
  unfold stepConditional
  refine (Continues.refl _).bind fun p => (Continues.refl _).bind fun σ => (Continues.refl _).bind ?_
  rintro ⟨taken, children⟩
  exact (hread _ _ _ _).bind fun _ => .refl _

lemma continues_stepUse (row : Array Tree) (stop : Stop) (b : Block) (definition : Tree)
    (arguments : List Int) : Continues (stepUse read row stop b definition arguments)
      (stepUse read' row stop b definition arguments) := by
  unfold stepUse
  split
  exact (Continues.refl _).bind fun _ => (hread _ _ _ _).bind fun _ => .refl _

lemma continues_stepToken (row : Array Tree) (start : Int) (stop : Stop) (b : Block) (t : Tree) :
    Continues (stepToken read row start stop b t) (stepToken read' row start stop b t) := by
  have hopening := continues_stepOpening hread row b
  unfold stepToken
  refine .ite (hopening _ _) (.ite (hopening _ _) (.ite (hopening _ _) (.ite (.refl _) (.ite (.refl _)
    (.ite (.refl _) (.ite (.refl _) (.ite ?_ (.refl _))))))))
  exact (Continues.refl _).bind fun _ => (hread _ _ _ _).bind fun _ => .refl _

lemma continues_step (row : Array Tree) (start : Int) (stop : Stop) (b : Block) (t : Tree) :
    Continues (step read row start stop b t) (step read' row start stop b t) := by
  unfold step
  refine .ite (continues_stepConditional hread row stop b) ((Continues.refl _).bind fun σ => ?_)
  dsimp only
  split
  · exact continues_stepUse hread _ _ _ _ _
  · exact continues_stepToken hread _ _ _ _ _

/-- What one token preserves, all tokens of a block do. -/
lemma continues_blockFrom (row : Array Tree) (start : Int) (stop : Stop) (fuel : Nat) (b : Block) :
    Continues (blockFrom read row start stop fuel b) (blockFrom read' row start stop fuel b) := by
  induction fuel generalizing b with
  | zero => exact .refl _
  | succ fuel ih =>
    unfold blockFrom
    refine .ite (.refl _) ?_
    split
    · exact .refl _
    · refine (continues_step hread _ _ _ _ _).bind fun how => ?_
      cases how with
      | more b => exact ih b
      | done node size => exact .refl _

end

/-- A block that is read within a limit is read the same within every larger one. -/
lemma continues_block {depth depth' : Nat} (h : depth ≤ depth') (row : Array Tree) (start : Int)
    (levels : Levels) (stop : Stop) :
    Continues (block depth row start levels stop) (block depth' row start levels stop) := by
  induction depth generalizing depth' row start levels stop with
  | zero => exact .exhausted _
  | succ depth ih =>
    obtain ⟨depth', rfl⟩ := Nat.exists_eq_add_one.mpr (Nat.zero_lt_of_lt h)
    unfold block
    exact .ite (.refl _) (continues_blockFrom (ih (Nat.le_of_succ_le_succ h)) _ _ _ _ _)

end Build

namespace Script

/-- Reads a script with at most `depth` blocks inside each other. -/
def readWithin (depth : Nat) (text : String) (firstId : NodeId) : Except Fault Script := do
  let tokens ← Atom.lex text
  ofResult (Build.block depth (leaves firstId (tokens ++ [.fileEnd])).toArray 0 .none .both
    ⟨firstId + (tokens.length + 1), []⟩)

variable {text : String}

lemma readWithin_eq_of_lex {tokens : List Atom} (hlex : Atom.lex text = .ok tokens) (depth : Nat)
    (firstId : NodeId) : readWithin depth text firstId = ofResult (Build.block depth
      (leaves firstId (tokens ++ [.fileEnd])).toArray 0 .none .both
      ⟨firstId + (tokens.length + 1), []⟩) := by
  rw [readWithin, hlex]
  rfl

lemma ofResult_eq_exhausted {r : EStateM.Result Fault BuildState (Tree × Int)} :
    ofResult r = .error .exhausted ↔ ∃ σ, r = .error .exhausted σ := by
  cases r with
  | ok p σ =>
    constructor
    · intro h
      cases h
    · rintro ⟨σ', h⟩
      cases h
  | error fault σ =>
    constructor
    · intro h
      cases h
      exact ⟨σ, rfl⟩
    · rintro ⟨σ', h⟩
      cases h
      rfl

/-- A script that is read within a limit is read the same within every larger one. -/
lemma readWithin_mono {depth depth' : Nat} (hle : depth ≤ depth') {firstId : NodeId}
    (h : readWithin depth text firstId ≠ .error .exhausted) :
    readWithin depth' text firstId = readWithin depth text firstId := by
  cases hlex : Atom.lex text with
  | error fault => rw [readWithin, readWithin, hlex]; rfl
  | ok tokens =>
    rw [readWithin_eq_of_lex hlex] at h
    rw [readWithin_eq_of_lex hlex, readWithin_eq_of_lex hlex]
    refine congrArg ofResult (Build.continues_block hle _ _ _ _ fun σ' hσ' => h ?_)
    exact ofResult_eq_exhausted.mpr ⟨σ', hσ'⟩

/-- As many blocks as tokens that open something are enough without `#define` and `#else`. -/
lemma readWithin_ne_exhausted {tokens : List Atom} (hlex : Atom.lex text = .ok tokens)
    (h : ∀ a ∈ tokens, a.isDirective "#define" = false ∧ a.isDirective "#else" = false)
    {depth : Nat} (hdepth : Atom.openers tokens < depth) (firstId : NodeId) :
    readWithin depth text firstId ≠ .error .exhausted := by
  have husual := isUsual_of_lex hlex h
  have hdecent : Build.Decent (fun fault => fault ≠ .exhausted)
      (leaves firstId (tokens ++ [.fileEnd])).toArray :=
    decent_leaves hlex (fun _ => by simp) firstId
  have hopeners : Build.openersUpTo (leaves firstId (tokens ++ [.fileEnd])).toArray
      (leaves firstId (tokens ++ [.fileEnd])).toArray.size < depth := by
    rw [Build.openersUpTo, List.size_toArray, List.take_length, atomsList_leaves, Atom.openers,
      List.countP_append]
    exact hdepth
  have hreported : ∀ fault : Fault, fault.IsReported → fault ≠ .exhausted := by
    rintro fault hfault rfl
    cases hfault
  have hsafe := Build.safe_block hreported depth .both (isUsualRow_leaves husual) hdecent
    (Nat.zero_le _) (.inl ⟨rfl, rfl⟩) (Nat.lt_add_right _ hopeners)
  have hblock := @hsafe ⟨firstId + (tokens.length + 1), []⟩ rfl
  rw [readWithin_eq_of_lex hlex, Ne, ofResult_eq_exhausted]
  rintro ⟨σ, hσ⟩
  rw [Int.natCast_zero, hσ] at hblock
  exact hblock rfl

/-- A script without `#define` and `#else` is read to an end, with a tree or an error. Every limit for
the blocks inside each other that is above the number of tokens that open something gives the same. -/
theorem readWithin_eq_read {text : String}
    (h : ∀ tokens, Atom.lex text = .ok tokens →
      ∀ a ∈ tokens, a.isDirective "#define" = false ∧ a.isDirective "#else" = false)
    {depth : Nat} (hdepth : ∀ tokens, Atom.lex text = .ok tokens → Atom.openers tokens < depth)
    (firstId : NodeId) : readWithin depth text firstId = read text firstId ∧
      read text firstId ≠ .error .exhausted := by
  cases hlex : Atom.lex text with
  | error fault =>
    have hread : read text firstId = .error fault := by rw [read, hlex]; rfl
    have hwithin : readWithin depth text firstId = .error fault := by rw [readWithin, hlex]; rfl
    refine ⟨hwithin.trans hread.symm, ?_⟩
    rw [hread]
    rintro ⟨⟩
    exact Atom.isReported_of_lex hlex
  | ok tokens =>
    have hread := read_eq_of_lex hlex firstId
    rw [← readWithin_eq_of_lex hlex] at hread
    have hopeners : Atom.openers tokens < tokens.length + 1 + Build.expansionLimit :=
      List.countP_le_length.trans_lt (by omega)
    have hlarge := readWithin_ne_exhausted hlex (h tokens hlex) hopeners firstId
    have hsmall := readWithin_ne_exhausted hlex (h tokens hlex) (hdepth tokens hlex) firstId
    rw [hread]
    refine ⟨?_, hlarge⟩
    obtain hle | hle := Nat.le_total depth (tokens.length + 1 + Build.expansionLimit)
    · exact (readWithin_mono hle hsmall).symm
    · exact readWithin_mono hle hlarge

theorem readWithin_eq_read_unclosed :
    readWithin 3 "[(\"a\"," 0 = read "[(\"a\"," 0 ∧ read "[(\"a\"," 0 ≠ .error .exhausted := by
  obtain ⟨tokens, hlex, hall⟩ := exists_eq_ok_of_any (x := Atom.lex "[(\"a\",")
    (p := fun tokens => (tokens.all fun a => !a.isDirective "#define" && !a.isDirective "#else") &&
      Nat.ble (Atom.openers tokens) 2) (by decide +kernel)
  obtain ⟨hno, hopeners⟩ := Bool.and_eq_true_iff.mp hall
  refine readWithin_eq_read ?_ ?_ 0
  · intro tokens' hlex'
    cases hlex.symm.trans hlex'
    simpa using hno
  · intro tokens' hlex'
    cases hlex.symm.trans hlex'
    exact Nat.lt_succ_of_le (Nat.le_of_ble_eq_true hopeners)

end Script

end ArmaScript
