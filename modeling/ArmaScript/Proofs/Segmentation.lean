import ArmaScript.Proofs.Lexemes
import Mathlib.Data.List.Chain

/-!
# Segmentations

A text can be taken apart into separators and words in many ways. One of them is its segmentation: no
two words stand side by side, and no separator of two characters is cut in two, where it does not
start inside of another one. Cutting a text finds this segmentation, and there is no other.
-/

namespace ArmaScript.Lexeme

open List

/-- The separators of two characters. -/
def pairs : List String :=
  ["\\\n", "\r\n", ">>", "/*", "*/", "||", "//", "!=", "<=", ">=", "=="]

def separatorTexts : List String :=
  pairs ++ separators.map Char.toString

def IsWord (s : String) : Prop :=
  s ≠ "" ∧ ∀ t ∈ separatorTexts, ¬t.toList <:+: s.toList

/-- Lexemes that can stand side by side: they are not both words, and behind all but a separator of
two characters, the characters at the boundary are no such separator. -/
structure Adjoin (s t : String) : Prop where
  word : ¬(IsWord s ∧ IsWord t)
  pair : s ∉ pairs → ∀ c ∈ s.toList.getLast?, ∀ d ∈ t.toList.head?, String.ofList [c, d] ∉ pairs

structure Segmented (lexemes : List String) : Prop where
  lexeme : ∀ s ∈ lexemes, s ∈ separatorTexts ∨ IsWord s
  adjoin : lexemes.IsChain Adjoin

/-! ### Separators and words by their characters -/

variable {c d : Char} {s : String} {w cs : List Char} {lexemes rest : List String}

lemma isPair_iff : isPair c d = true ↔ String.ofList [c, d] ∈ pairs := by
  constructor
  · intro h
    unfold isPair at h
    split at h <;> first | decide | cases h
  · intro h
    simp only [pairs, mem_cons, not_mem_nil, or_false, ← String.toList_inj,
      String.toList_ofList] at h
    rcases h with h | h | h | h | h | h | h | h | h | h | h <;> cases h <;> rfl

lemma exists_of_mem_pairs (h : s ∈ pairs) :
    ∃ c d, isPair c d = true ∧ s = String.ofList [c, d] := by
  simp only [pairs, mem_cons, not_mem_nil, or_false] at h
  rcases h with rfl | rfl | rfl | rfl | rfl | rfl | rfl | rfl | rfl | rfl | rfl <;>
    exact ⟨_, _, rfl, rfl⟩

lemma mem_separatorTexts :
    s ∈ separatorTexts ↔ s ∈ pairs ∨ ∃ c, isSeparator c = true ∧ s = c.toString := by
  simp only [separatorTexts, mem_append, mem_map, isSeparator, contains_iff_mem, @eq_comm _ s]

lemma not_isWord (h : s ∈ separatorTexts) : ¬IsWord s :=
  fun hword => hword.2 s h infix_rfl

lemma isWord_ofList : IsWord (String.ofList w) ↔
    w ≠ [] ∧ (∀ c ∈ w, isSeparator c = false) ∧ w.IsChain fun c d => isPair c d = false := by
  rw [isChain_iff_forall_rel_of_append_cons_cons]
  simp only [IsWord, mem_separatorTexts, String.toList_ofList]
  refine and_congr (by simp) ⟨fun h => ⟨fun c hc => ?_, fun c d l1 l2 hw => ?_⟩, ?_⟩
  · by_contra hsep
    refine h c.toString (.inr ⟨c, by simpa using hsep, rfl⟩) ?_
    obtain ⟨l1, l2, rfl⟩ := append_of_mem hc
    exact ⟨l1, l2, by simp⟩
  · by_contra hpair
    exact h _ (.inl (isPair_iff.mp (by simpa using hpair))) ⟨l1, l2, by simp [hw]⟩
  · rintro ⟨hsep, hpair⟩ t (ht | ⟨c, hc, rfl⟩) ⟨l1, l2, hw⟩
    · obtain ⟨c, d, hcd, rfl⟩ := exists_of_mem_pairs ht
      rw [@hpair c d l1 l2 (by simp [← hw])] at hcd
      cases hcd
    · rw [hsep c (by simp [← hw])] at hc
      cases hc

/-! ### Segmentations, lexeme by lexeme -/

lemma Segmented.nil : Segmented [] :=
  ⟨by simp, .nil⟩

lemma Segmented.ne_empty (h : Segmented lexemes) (hs : s ∈ lexemes) : s ≠ "" := by
  rcases h.lexeme s hs with hsep | hword
  · rintro rfl
    exact absurd hsep (by decide)
  · exact hword.1

lemma Segmented.head?_chars (h : Segmented lexemes) :
    (chars lexemes).head? = lexemes.head?.bind fun s => s.toList.head? := by
  cases lexemes with
  | nil => rfl
  | cons s rest =>
    have hs : s.toList ≠ [] := by simpa using h.ne_empty mem_cons_self
    rw [chars_cons, head?_append_of_ne_nil _ hs]
    rfl

lemma segmented_cons : Segmented (s :: rest) ↔ (s ∈ separatorTexts ∨ IsWord s) ∧ Segmented rest ∧
      (IsWord s → ∀ t ∈ rest.head?, t ∈ separatorTexts) ∧
      (s ∉ pairs → ∀ c ∈ s.toList.getLast?, ∀ d ∈ (chars rest).head?, isPair c d = false) := by
  constructor
  · intro h
    have hrest : Segmented rest :=
      ⟨fun t ht => h.lexeme t (mem_cons_of_mem s ht), h.adjoin.tail⟩
    have hadjoin := (isChain_cons.mp h.adjoin).1
    refine ⟨h.lexeme s mem_cons_self, hrest, fun hs t ht => ?_, fun hs c hc d hd => ?_⟩
    · have hword : ¬IsWord t := fun hword => (hadjoin t ht).word ⟨hs, hword⟩
      exact (hrest.lexeme t (mem_of_mem_head? ht)).resolve_right hword
    · rw [hrest.head?_chars] at hd
      obtain ⟨t, ht, hd⟩ := Option.bind_eq_some_iff.mp hd
      exact Bool.eq_false_iff.mpr fun hpair =>
        (hadjoin t ht).pair hs c hc d hd (isPair_iff.mp hpair)
  · rintro ⟨hs, hrest, hwords, hpairs⟩
    refine ⟨forall_mem_cons.mpr ⟨hs, hrest.lexeme⟩,
      isChain_cons.mpr ⟨fun t ht => ⟨?_, fun hs c hc d hd hpair => ?_⟩, hrest.adjoin⟩⟩
    · rintro ⟨hs, ht'⟩
      exact not_isWord (hwords hs t ht) ht'
    · have hd' : d ∈ (chars rest).head? := by
        rw [hrest.head?_chars, ht]
        exact hd
      exact absurd (isPair_iff.mpr hpair) (by simp [hpairs hs c hc d hd'])

lemma Segmented.separator (h : Segmented rest) (hs : s ∈ separatorTexts)
    (hpair : s ∉ pairs → ∀ c ∈ s.toList.getLast?, ∀ d ∈ (chars rest).head?, isPair c d = false) :
    Segmented (s :: rest) :=
  segmented_cons.mpr ⟨.inl hs, h, fun hword => absurd hword (not_isWord hs), hpair⟩

/-! ### The lexemes of a text are a segmentation -/

/-- What was read of a word, from its end, holds no separator, and the text goes on with `cs`. -/
structure Begun (word cs : List Char) : Prop where
  separator : ∀ c ∈ word, isSeparator c = false
  pair : word.IsChain fun d c => isPair c d = false
  next : ∀ c ∈ word.head?, ∀ d ∈ cs.head?, isPair c d = false

namespace Begun

variable {word cs : List Char}

lemma nil (cs : List Char) : Begun [] cs :=
  ⟨by simp, .nil, by simp⟩

lemma cons (h : Begun word (c :: cs)) (hc : isSeparator c = false)
    (hnext : ∀ d ∈ cs.head?, isPair c d = false) : Begun (c :: word) cs :=
  ⟨forall_mem_cons.mpr ⟨hc, h.separator⟩,
    isChain_cons.mpr ⟨fun d hd => h.next d hd c rfl, h.pair⟩, by simpa using hnext⟩

lemma flush (h : Begun word cs) (hrest : Segmented rest)
    (hsep : ∀ t ∈ rest.head?, t ∈ separatorTexts) (hcs : (chars rest).head? = cs.head?) :
    Segmented (flush word rest) := by
  by_cases hne : word = []
  · rwa [hne]
  · have hword : IsWord (String.ofList word.reverse) :=
      isWord_ofList.mpr ⟨by simpa using hne, by simpa using h.separator,
        isChain_reverse.mpr h.pair⟩
    rw [Lexeme.flush, if_neg (by simpa using hne)]
    refine segmented_cons.mpr ⟨.inr hword, hrest, fun _ => hsep, fun _ => ?_⟩
    simpa [hcs] using h.next

end Begun

lemma segmented_splitChars {word : List Char} (h : Begun word cs) :
    Segmented (splitChars word cs) := by
  fun_induction splitChars word cs with
  | case1 word => exact h.flush .nil (by simp) rfl
  | case2 word c hc =>
    have hsep : c.toString ∈ separatorTexts := mem_separatorTexts.mpr (.inr ⟨c, hc, rfl⟩)
    exact h.flush (Segmented.nil.separator hsep (by simp)) (by simpa using hsep) (by simp)
  | case3 word c hc => exact (h.cons (by simpa using hc) (by simp)).flush .nil (by simp) rfl
  | case4 word c d rest hpair ih =>
    have hpairs := isPair_iff.mp hpair
    have hsep := mem_separatorTexts.mpr (.inl hpairs)
    exact h.flush ((ih (.nil rest)).separator hsep (absurd hpairs)) (by simpa using hsep) (by simp)
  | case5 word c d rest hpair hc ih =>
    have hsep : c.toString ∈ separatorTexts := mem_separatorTexts.mpr (.inr ⟨c, hc, rfl⟩)
    refine h.flush ((ih (.nil _)).separator hsep fun _ => ?_) (by simpa using hsep) (by simp)
    simpa [chars_splitChars] using hpair
  | case6 word c d rest hpair hc ih =>
    exact ih (h.cons (by simpa using hc) (by simpa using hpair))

/-! ### There is no other segmentation -/

lemma splitChars_word (word : List Char) {rest : List Char}
    (hsep : ∀ c ∈ w, isSeparator c = false) (hpair : w.IsChain fun c d => isPair c d = false)
    (hlast : ∀ c ∈ w.getLast?, ∀ d ∈ rest.head?, isPair c d = false) :
    splitChars word (w ++ rest) = splitChars (w.reverse ++ word) rest := by
  induction w generalizing word with
  | nil => rfl
  | cons c w ih =>
    obtain ⟨hc, hw⟩ := forall_mem_cons.mp hsep
    obtain ⟨hnext, hchain⟩ := isChain_cons.mp hpair
    have hhead : ∀ d ∈ (w ++ rest).head?, isPair c d = false := by
      cases w with
      | nil => exact hlast c rfl
      | cons d w => exact hnext
    have hlast' : ∀ c ∈ w.getLast?, ∀ d ∈ rest.head?, isPair c d = false := by
      cases w with
      | nil => simp
      | cons d w => exact hlast
    rw [cons_append, splitChars_cons word hhead, hc, if_neg (by simp), ih _ hw hchain hlast',
      reverse_cons, append_assoc]
    rfl

lemma splitChars_chars (h : Segmented lexemes) (word : List Char)
    (hword : word ≠ [] → ∀ s ∈ lexemes.head?, s ∈ separatorTexts) :
    splitChars word (chars lexemes) = flush word lexemes := by
  induction lexemes generalizing word with
  | nil => rfl
  | cons s rest ih =>
    obtain ⟨hs, hrest, hwords, hpairs⟩ := segmented_cons.mp h
    rw [chars_cons]
    rcases hs with hs | hs
    · have hnil : splitChars [] (chars rest) = rest := ih hrest [] (absurd rfl)
      rcases mem_separatorTexts.mp hs with hpair | ⟨c, hc, rfl⟩
      · obtain ⟨c, d, hcd, rfl⟩ := exists_of_mem_pairs hpair
        rw [String.toList_ofList, cons_append, singleton_append, splitChars_pair word hcd, hnil]
      · have hsingle : c.toString ∉ pairs := fun hmem => by
          obtain ⟨_, _, -, htext⟩ := exists_of_mem_pairs hmem
          simpa using congrArg String.length htext
        have htext : c.toString.toList = [c] := by simp
        rw [htext, singleton_append, splitChars_cons word (hpairs hsingle c (by simp)),
          if_pos hc, hnil]
    · obtain ⟨w, rfl⟩ : ∃ w, s = String.ofList w := ⟨s.toList, String.ofList_toList.symm⟩
      obtain ⟨hne, hsep, hpair⟩ := isWord_ofList.mp hs
      obtain rfl : word = [] := by
        by_contra hword'
        exact not_isWord (hword hword' _ rfl) hs
      have hlast := hpairs fun hmem => not_isWord (mem_separatorTexts.mpr (.inl hmem)) hs
      rw [String.toList_ofList] at hlast ⊢
      rw [splitChars_word [] hsep hpair hlast, append_nil, ih hrest _ fun _ => hwords hs]
      simp [flush, hne]

/-- A segmentation is found again in the text that it makes up. -/
lemma split_join (h : Segmented lexemes) : split (String.join lexemes) = lexemes := by
  rw [split, toList_join]
  exact splitChars_chars h [] (absurd rfl)

lemma segmented_split (text : String) : Segmented (split text) :=
  segmented_splitChars (.nil _)

lemma join_split (text : String) : String.join (split text) = text := by
  rw [← String.toList_inj, toList_join, chars_split]

/-- Each text has exactly one segmentation: the lexemes that it is cut into. -/
theorem split_eq_iff (text : String) (lexemes : List String) :
    split text = lexemes ↔ String.join lexemes = text ∧ Segmented lexemes := by
  constructor
  · rintro rfl
    exact ⟨join_split text, segmented_split text⟩
  · rintro ⟨rfl, h⟩
    exact split_join h

-- separators are found from the left, and a word may end with half of one
example : split "a|||b>>=\\\n\r/*/" = ["a", "||", "|b", ">>", "=", "\\\n", "\r", "/*", "/"] := by
  decide

end ArmaScript.Lexeme
