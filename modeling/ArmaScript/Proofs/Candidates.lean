import ArmaScript.Signature.Command
import Mathlib.Tactic.Lemma

/-!
# Entries for a word

An index gives the entries for a word and a number of parts, in order. The operands of signatures
are values, never words, so the first word among operands that fit a signature is its keyword:
whoever looks for entries that fit finds the same ones in the index as in the whole list.
-/

namespace ArmaScript

namespace Signature

variable {s : Signature} {k wanted : Kind}

lemma accepts_three {o1 o2 o3 : Operand} (h : s.accepts [o1, o2, o3] = true) :
    ∃ a keyword b r, s = .binary a keyword b r ∧ o2 = .keyword (Text.lower keyword) ∧
      o1.kind.isA a = true ∧ o3.kind.isA b = true := by
  cases s with
  | binary a keyword b r =>
    simp only [accepts, fits, Bool.and_eq_true, beq_iff_eq] at h
    exact ⟨a, keyword, b, r, rfl, h.1.2, h.1.1, h.2⟩
  | nullary keyword r => cases h
  | unary keyword a r => cases h

def kinds : Signature → List Kind
  | .nullary .. => []
  | .unary _ a _ => [a]
  | .binary l _ r _ => [l, r]

/-- The operands of a signature are values: it takes no words of the language, and no layout. -/
def TakesValues (s : Signature) : Prop :=
  ∀ k ∈ s.kinds, k.isValue = true

instance (s : Signature) : Decidable s.TakesValues :=
  inferInstanceAs (Decidable (∀ k ∈ s.kinds, k.isValue = true))

lemma isValue_of_mayBe (hwanted : wanted.isValue = true) (h : k.mayBe wanted = true) :
    k.isValue = true := by
  simp only [Kind.mayBe, Kind.isA, Bool.or_eq_true, Bool.and_eq_true, beq_iff_eq] at h
  rcases h with (rfl | ⟨-, h⟩) | ⟨rfl, -⟩
  · exact hwanted
  · exact h
  · rfl

lemma mayBe_of_isA (h : k.isA wanted = true) : k.mayBe wanted = true := by
  rw [Kind.mayBe, h, Bool.true_or]

lemma word?_eq_none {o : Operand} (h : o.kind.isValue = true) : o.word? = none := by
  cases o with
  | keyword w => cases h
  | directive w => cases h
  | thing k => rfl

/-- Operands that surely fit also may fit. -/
lemma admits_of_accepts {operands : List Operand} (h : s.accepts operands = true) :
    s.admits operands = true := by
  unfold accepts at h
  unfold admits
  fun_cases fits Kind.isA s operands with
  | case1 k r w => exact h
  | case2 k a r w x =>
    simp only [fits, Bool.and_eq_true] at h ⊢
    exact ⟨h.1, mayBe_of_isA h.2⟩
  | case3 l k r o x w y =>
    simp only [fits, Bool.and_eq_true] at h ⊢
    exact ⟨⟨mayBe_of_isA h.1.1, h.1.2⟩, mayBe_of_isA h.2⟩
  | case4 s operands h1 h2 h3 => simp [fits] at h

/-- Operands that may fit have the keyword of the signature as their first word. -/
lemma firstWord?_of_admits (hs : s.TakesValues) {operands : List Operand}
    (h : s.admits operands = true) :
    Operand.firstWord? operands = some s.word ∧ s.arity = operands.length := by
  unfold admits at h
  fun_cases fits Kind.mayBe s operands with
  | case1 k r w =>
    simp only [fits, beq_iff_eq] at h
    subst h
    exact ⟨rfl, rfl⟩
  | case2 k a r w x =>
    simp only [fits, Bool.and_eq_true, beq_iff_eq] at h
    obtain ⟨rfl, -⟩ := h
    exact ⟨rfl, rfl⟩
  | case3 l k r o x w y =>
    simp only [fits, Bool.and_eq_true, beq_iff_eq] at h
    obtain ⟨⟨hx, rfl⟩, -⟩ := h
    -- in front of the keyword stands a value, and the search goes on behind it
    have hx : x.word? = none := word?_eq_none (isValue_of_mayBe (hs l (by simp [kinds])) hx)
    exact ⟨by rw [Operand.firstWord?, List.findSome?_cons, hx]; rfl, rfl⟩
  | case4 s operands h1 h2 h3 => simp [fits] at h

end Signature

namespace Entry

variable {e : Entry}

lemma mem_candidates {entries : List Entry} {word : String} {arity : Nat} :
    e ∈ candidates entries word arity ↔
      e ∈ entries ∧ e.signature.word = word ∧ e.signature.arity = arity := by
  simp [candidates]

lemma mem_of_mem_override {entries overriding : List Entry} (h : e ∈ override entries overriding) :
    e ∈ entries ∨ e ∈ overriding := by
  induction overriding generalizing entries with
  | nil => exact .inl h
  | cons f fs ih =>
    rw [override, List.foldl_cons, ← override] at h
    rcases ih h with h | h
    · rcases List.mem_append.mp h with h | h
      · exact .inl (List.mem_of_mem_eraseP h)
      · exact .inr (by simp_all)
    · exact .inr (by simp [h])

lemma takesValues_of_mem_checked (h : e ∈ checked) : e.signature.TakesValues := by
  have hcatalogue : ∀ s ∈ Catalogue.all, s.TakesValues := by decide +kernel
  have hcontrol : ∀ e ∈ control, e.signature.TakesValues := by decide
  rcases mem_of_mem_override h with h | h
  · obtain ⟨s, hs, rfl⟩ := List.mem_map.mp h
    exact hcatalogue s hs
  · exact hcontrol e h

end Entry

namespace Index

/-- What an index has under a word and a number of parts. -/
lemma getD_ofEntries (entries : List Entry) (word : String) (arity : Nat) :
    (ofEntries entries).getD (word, arity) [] = Entry.candidates entries word arity := by
  induction entries with
  | nil => simp [ofEntries, Entry.candidates]
  | cons e es ih =>
    rw [ofEntries, List.foldr_cons, ← ofEntries, insertEntry, Std.HashMap.getD_insert]
    by_cases h : e.signature.word = word ∧ e.signature.arity = arity
    · obtain ⟨rfl, rfl⟩ := h
      rw [if_pos (by simp), ih]
      simp [Entry.candidates]
    · rw [if_neg (by simpa using h), ih]
      have he : (e.signature.word == word && e.signature.arity == arity) = false := by
        simpa using h
      simp [Entry.candidates, he]

variable {operands : List Operand}

lemma lookup_ofEntries {entries : List Entry} {word : String}
    (h : Operand.firstWord? operands = some word) :
    (ofEntries entries).lookup operands = Entry.candidates entries word operands.length := by
  rw [lookup, h]
  exact getD_ofEntries entries word operands.length

lemma lookup_eq_nil {index : Index} (h : Operand.firstWord? operands = none) :
    index.lookup operands = [] := by
  rw [lookup, h]

/-- If only entries for the first word among the operands can be wanted, they are all found. -/
lemma filter_lookup_of_firstWord {entries : List Entry} {wanted : Entry → Bool}
    (h : ∀ e ∈ entries, wanted e = true →
      Operand.firstWord? operands = some e.signature.word ∧ e.signature.arity = operands.length) :
    ((ofEntries entries).lookup operands).filter wanted = entries.filter wanted := by
  cases hword : Operand.firstWord? operands with
  | none =>
    rw [lookup_eq_nil hword, List.filter_nil, eq_comm, List.filter_eq_nil_iff]
    intro e he hwanted
    have := (h e he hwanted).1
    rw [hword] at this
    cases this
  | some w =>
    rw [lookup_ofEntries hword, Entry.candidates, List.filter_filter]
    refine List.filter_congr fun e he => ?_
    cases hwanted : wanted e with
    | false => rfl
    | true =>
      obtain ⟨hw, harity⟩ := h e he hwanted
      rw [hword, Option.some.injEq] at hw
      simp [← hw, harity]

end Index

end ArmaScript
