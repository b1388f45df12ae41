import ArmaScript.Proofs.Arrays
import ArmaScript.Proofs.Parameters

/-!
# Texts and their code points

`toArray` gives the code points of a text and `toString` the text of code points. Each takes back what
the other one did, whatever quotes the text has in it or around it. Only an empty text has no code
points in an array, since an array must have an element. Surrogates are no characters, so texts do not
have them.
-/

namespace ArmaScript.Run

open List

/-- What a number holds that is the code point of a character. -/
def codePoint (c : Char) : Content :=
  .num (.int c.toNat)

/-- A statement that is a word, in any spelling, before an operand with a given value is evaluated to
its end, and the property holds of the result and of the world behind it. -/
def Applies (answer : Answer) (word : String) (v : Value) (w : World) (p : Value → World → Prop) :
    Prop :=
  ∀ statement w0 u w1 i spelling token token', isEnded statement = false →
    nothing w0 = .ok u w1 → Text.lower spelling = word →
    statement.base.mapM (part answer) w1 = .ok [(token, .atom i (.keyword spelling)), (token', v)] w →
    ∃ r w', runStatement answer statement w0 = .ok r w' ∧ p r w'

variable {answer : Answer} {w : World} {p : Value → World → Prop}

/-- A word before an operand is the command of the first entry that accepts it. -/
lemma applies_of_unary {word : String} {v r : Value} {w' : World} {k : Kind} {c : Command}
    (hv : v.operand = .thing k) (hentry : ((Entry.candidates Entry.interpreted word 2).find?
      (·.signature.accepts [.keyword word, .thing k])).map (·.command) = some c)
    (hrun : unary answer c v w = .ok r w') (hdefined : w'.store.isUndefined r = .ok false)
    (hp : p r w') : Applies answer word v w p := by
  intro statement w0 u w1 i spelling token token' hended hnothing hword hparts
  obtain ⟨entry, hfind, rfl⟩ := Option.map_eq_some_iff.mp hentry
  have hoperands : [.atom i (.keyword spelling), v].map Value.operand = [.keyword word, .thing k] := by
    rw [← hv, ← hword]
    rfl
  have hlookup : Index.interpreted.lookup [.keyword word, .thing k] =
      Entry.candidates Entry.interpreted word 2 := Index.lookup_ofEntries rfl
  have houtcome (tokens : List Value) :
      outcomeOf answer statement tokens [.atom i (.keyword spelling), v] u w = .ok (some r) w' := by
    unfold outcomeOf
    rw [hoperands, hlookup, hfind]
    exact map_eq_ok.mpr ⟨r, hrun, rfl⟩
  refine ⟨r, w', ?_, hp⟩
  rw [runStatement_eq]
  refine bind_eq hnothing (bind_eq hparts (bind_eq (houtcome _) ?_))
  unfold checkOutcome
  rw [hended]
  dsimp only
  rw [if_neg (by decide)]
  dsimp only
  split
  · exact bind_eq rfl (bind_eq (lift_eq_ok.mpr ⟨hdefined, rfl⟩) rfl)
  · rfl

/-! ### From texts to code points -/

lemma exists_mapM_ofInt (cs : List Char) (w : World) :
    ∃ vs w', cs.mapM (fun c => ofInt c.toNat) w = .ok vs w' ∧
      ∀ s : Store, vs.map s.content = cs.map codePoint := by
  induction cs generalizing w with
  | nil => exact ⟨[], w, rfl, fun _ => rfl⟩
  | cons c cs ih =>
    obtain ⟨i, w1, hstored, -⟩ := exists_stored_atom (.number (some (.int c.toNat))) w
    obtain ⟨vs, w2, hmap, hvs⟩ := ih w1
    exact ⟨_ :: vs, w2, mapM_cons_eq_ok.mpr ⟨_, w1, _, hstored, hmap, rfl⟩,
      fun s => congrArg (_ :: ·) (hvs s)⟩

lemma applies_toArray {q : Quoted} (hq : q.body ≠ "") (i : NodeId)
    (hp : ∀ a vs w', w'.store.elements? a = some vs →
      vs.map w'.store.content = q.body.toList.map codePoint → p (.array a) w') :
    Applies answer "toarray" (.atom i (.string (some q))) w p := by
  obtain ⟨vs, w1, hmap, hvs⟩ := exists_mapM_ofInt q.body.toList w
  have hne : vs ≠ [] := by
    rintro rfl
    exact hq (String.toList_eq_nil_iff.mp (map_eq_nil_iff.mp (hvs .empty).symm))
  obtain ⟨a, s, harray, ha⟩ := Store.InStep.exists_of_array w1.store hne
  have hrun : unary answer .toArray (.atom i (.string (some q))) w =
      .ok (.array a) { w1 with store := s } :=
    bind_eq rfl (bind_eq hmap (stored_eq_ok.mpr ⟨s, harray, rfl⟩))
  refine applies_of_unary (k := .string) rfl (by decide +kernel) hrun ?_ (hp a vs _ ha.elements? (hvs s))
  simp [Store.isUndefined, ha.elements?]

/-! ### From code points to texts -/

lemma charOf_codePoint (c : Char) (w : World) : charOf (codePoint c) w = .ok c w := by
  have hvalid : c.toNat < 0xd800 ∨ 0xdfff < c.toNat ∧ c.toNat < 0x110000 := c.valid
  unfold charOf
  refine bind_eq rfl ?_
  rw [if_neg (by simp; omega), if_neg (by simp; omega)]
  exact congrArg (EStateM.Result.ok · w) (Char.ofNat_toNat c)

lemma mapM_charOf {vs : List Value} {cs : List Char} (h : vs.map w.store.content = cs.map codePoint) :
    (vs.mapM fun v => do charOf (← contentOf v) : Run _) w = .ok cs w := by
  induction vs generalizing cs with
  | nil => rw [map_eq_nil_iff.mp h.symm]; rfl
  | cons v vs ih =>
    obtain ⟨c, cs, rfl, hc, hcs⟩ := map_eq_cons_iff.mp h.symm
    refine mapM_cons_eq_ok.mpr ⟨c, w, cs, bind_eq rfl ?_, ih hcs.symm, rfl⟩
    rw [← hc]
    exact charOf_codePoint c w

lemma applies_toString {a : NodeId} {vs : List Value} {cs : List Char}
    (ha : w.store.elements? a = some vs) (hvs : vs.map w.store.content = cs.map codePoint)
    (hp : ∀ i w', p (.atom i (.string (some ⟨'"', String.ofList cs⟩))) w') :
    Applies answer "tostring" (.array a) w p := by
  obtain ⟨i, w', hstored, -⟩ := exists_stored_atom (.string (some ⟨'"', String.ofList cs⟩)) w
  exact applies_of_unary (k := .array) (c := .toText) rfl (by decide +kernel)
    (bind_eq (stored_elements ha) (bind_eq (mapM_charOf hvs) hstored)) rfl (hp i w')

end ArmaScript.Run
