import ArmaScript.Proofs.Lexing

/-!
# Lexing in parts

A separator that makes no pair with its neighbours cuts a text in two: what stands before it and what
stands behind it are cut up on their own. So the tokens of a text that ends with a semicolon, outside
of quotes and comments, do not depend on what follows.
-/

namespace ArmaScript

open List

namespace Lexeme

lemma flush_append (word : List Char) (lexemes rest : List String) :
    flush word (lexemes ++ rest) = flush word lexemes ++ rest := by
  unfold flush
  split_ifs <;> rfl

variable {c : Char}

lemma splitChars_pair (word : List Char) {d : Char} (h : isPair c d = true) (cs : List Char) :
    splitChars word (c :: d :: cs) = flush word (String.ofList [c, d] :: splitChars [] cs) := by
  rw [splitChars, if_pos h]

lemma splitChars_cons (word : List Char) {cs : List Char} (h : ∀ d ∈ cs.head?, isPair c d = false) :
    splitChars word (c :: cs) = if isSeparator c then flush word (c.toString :: splitChars [] cs)
      else splitChars (c :: word) cs := by
  cases cs with
  | nil => rfl
  | cons d cs => rw [splitChars, if_neg (by simp [h d rfl])]

/-- A text is cut before a separator that makes no pair with what is in front of it. -/
lemma splitChars_append (word : List Char) {s t : List Char} {lexemes : List String}
    (hcut : ∀ word, splitChars word (c :: t) = flush word lexemes)
    (hleft : ∀ x ∈ s, isPair x c = false) :
    splitChars word (s ++ c :: t) = splitChars word s ++ lexemes := by
  fun_induction splitChars word s with
  | case1 word =>
    rw [nil_append, hcut, ← flush_append]
    rfl
  | case2 word x hx =>
    rw [singleton_append, splitChars, if_neg (by simp [hleft x (by simp)]), if_pos hx, hcut,
      ← flush_append]
    rfl
  | case3 word x hx =>
    rw [singleton_append, splitChars, if_neg (by simp [hleft x (by simp)]), if_neg hx, hcut,
      ← flush_append]
    rfl
  | case4 word x y rest hpair ih =>
    rw [cons_append, cons_append, splitChars, if_pos hpair,
      ih fun z hz => hleft z (by simp [hz]), ← flush_append]
    rfl
  | case5 word x y rest hpair hx ih =>
    rw [cons_append, cons_append, splitChars, if_neg hpair, if_pos hx, ← cons_append,
      ih fun z hz => hleft z (by simp_all), ← flush_append]
    rfl
  | case6 word x y rest hpair hx ih =>
    rw [cons_append, cons_append, splitChars, if_neg hpair, if_neg hx, ← cons_append,
      ih fun z hz => hleft z (by simp_all)]

/-- A text is cut at a separator that makes no pair with its neighbours. -/
lemma splitChars_append_separator {word s t : List Char} (hc : isSeparator c = true)
    (hleft : ∀ x ∈ s, isPair x c = false) (hright : ∀ y ∈ t.head?, isPair c y = false) :
    splitChars word (s ++ c :: t) = splitChars word s ++ c.toString :: splitChars [] t :=
  splitChars_append word (fun word => (splitChars_cons word hright).trans (if_pos hc)) hleft

/-- The lexemes that start a text in quotes or a comment. -/
def starters : List String :=
  ["\"", "'", "/*", "//"]

lemma groupFrom_words {buffer : String} {done : List Piece} {lexemes : List String}
    (h : ∀ s ∈ lexemes, s ∉ starters) :
    groupFrom .plain buffer done lexemes = .ok (done.reverse ++ lexemes.map .word) := by
  induction lexemes generalizing buffer done with
  | nil => simp [groupFrom]
  | cons s rest ih =>
    have hs : s ∉ starters := h s (by simp)
    simp only [starters, mem_cons, not_mem_nil, or_false, not_or] at hs
    rw [groupFrom, ih fun t ht => h t (by simp [ht])]
    · simp
    all_goals simp_all

end Lexeme

/-- The tokens of a text without quotes and comments are its words. -/
lemma Atom.lex_of_words {text : String} (h : ∀ s ∈ Lexeme.split text, s ∉ Lexeme.starters) :
    Atom.lex text = .ok ((Lexeme.split text).map Atom.ofWord) := by
  unfold Atom.lex Lexeme.group
  rw [Lexeme.groupFrom_words h, reverse_nil, nil_append]
  refine congrArg Except.ok ?_
  rw [map_map]
  rfl

namespace Lexeme

variable {mode : Mode} {buffer : String} {done : List Piece} {lexemes : List String}
  {pieces : List Piece}

lemma groupFrom_plain (buffer : String) (done : List Piece) (lexemes : List String) :
    groupFrom .plain buffer done lexemes = groupFrom .plain "" done lexemes := by
  cases lexemes <;> rfl

/-- Lexemes that end outside of quotes and comments are put together on their own. -/
lemma groupFrom_append (h : groupFrom mode buffer done lexemes = .ok pieces) {s : String}
    (hlast : pieces.getLast? = some (.word s)) (rest : List String) :
    groupFrom mode buffer done (lexemes ++ rest) = groupFrom .plain "" pieces.reverse rest := by
  fun_induction groupFrom mode buffer done lexemes with
  | case1 buffer done =>
    cases h
    rw [nil_append, reverse_reverse, groupFrom_plain]
  | case2 buffer done | case3 buffer done =>
    cases h
    simp at hlast
  | case4 => cases h
  | case5 buffer done tail ih | case6 buffer done tail ih | case7 buffer done tail ih
  | case8 buffer done tail ih => exact ih h
  | case9 buffer done lexeme tail _ _ _ _ ih =>
    rw [cons_append, groupFrom, ih h] <;> assumption
  | case10 quote doubled buffer done lexeme tail hq ih =>
    rw [cons_append, groupFrom, if_pos hq, ih h]
  | case11 quote buffer done lexeme tail hq ih =>
    rw [cons_append, groupFrom, if_neg hq, if_pos rfl, ih h]
  | case12 quote doubled buffer done lexeme tail hq hd hn ih =>
    have hn' : ((tail ++ rest).head? == some quote.toString) = true := by
      cases tail with
      | nil => simp at hn
      | cons x tail => exact hn
    rw [cons_append, groupFrom, if_neg hq, if_neg hd, if_pos hn', ih h]
  | case13 quote doubled buffer done lexeme tail hq hd hn ih =>
    cases tail with
    | nil =>
      -- a closing quote is not the last lexeme, because the last piece is a word
      rw [groupFrom] at h
      cases h
      simp at hlast
    | cons x tail =>
      have hn' : ¬((x :: tail ++ rest).head? == some quote.toString) = true := hn
      rw [cons_append, groupFrom, if_neg hq, if_neg hd, if_neg hn', ih h]
  | case14 buffer done lexeme tail he ih | case16 buffer done lexeme tail he ih =>
    rw [cons_append, groupFrom, if_pos he, ih h]
  | case15 buffer done lexeme tail he ih | case17 buffer done lexeme tail he ih =>
    rw [cons_append, groupFrom, if_neg he, ih h]

lemma groupFrom_done (mode : Mode) (buffer : String) (done before : List Piece)
    (lexemes : List String) : (∀ pieces, groupFrom mode buffer done lexemes = .ok pieces →
      groupFrom mode buffer (done ++ before) lexemes = .ok (before.reverse ++ pieces)) ∧
    ∀ e, groupFrom mode buffer done lexemes = .error e →
      ∃ e', groupFrom mode buffer (done ++ before) lexemes = .error e' := by
  fun_induction groupFrom mode buffer done lexemes with
  | case1 buffer done | case2 buffer done | case3 buffer done | case4 => simp [groupFrom]
  | case5 buffer done tail ih | case6 buffer done tail ih | case7 buffer done tail ih
  | case8 buffer done tail ih => exact ih
  | case9 buffer done lexeme tail _ _ _ _ ih =>
    rw [groupFrom] <;> assumption
  | case10 quote doubled buffer done lexeme tail hq ih => rwa [groupFrom, if_pos hq]
  | case11 quote buffer done lexeme tail hq ih => rwa [groupFrom, if_neg hq, if_pos rfl]
  | case12 quote doubled buffer done lexeme tail hq hd hn ih =>
    rwa [groupFrom, if_neg hq, if_neg hd, if_pos hn]
  | case13 quote doubled buffer done lexeme tail hq hd hn ih =>
    rwa [groupFrom, if_neg hq, if_neg hd, if_neg hn]
  | case14 buffer done lexeme tail he ih | case16 buffer done lexeme tail he ih =>
    rwa [groupFrom, if_pos he]
  | case15 buffer done lexeme tail he ih | case17 buffer done lexeme tail he ih =>
    rwa [groupFrom, if_neg he]

/-- A text that ends with a semicolon is cut up on its own. -/
lemma split_append {s t : String} {front : List Char} (h : s.toList = front ++ [';']) :
    split (s ++ t) = split s ++ split t := by
  have hleft : ∀ x ∈ front, isPair x ';' = false := fun x _ => by
    unfold isPair
    split <;> first | rfl | simp_all
  have hright : ∀ y, isPair ';' y = false := fun y => by
    unfold isPair
    split <;> first | rfl | simp_all
  have hsep : isSeparator ';' = true := by decide
  unfold split
  rw [String.toList_append, h, append_assoc, singleton_append,
    splitChars_append_separator hsep hleft fun y _ => hright y,
    splitChars_append_separator hsep hleft fun y _ => hright y]
  simp [splitChars, flush]

end Lexeme

namespace Atom

open Lexeme

lemma eq_of_ofWord_eq_mark {s text : String} (h : ofWord s = .mark text) : s = text := by
  unfold ofWord ofName at h
  split_ifs at h with h1 h2 h3 h4 h5 h6 h7
  · cases h
    rfl
  all_goals
    split at h <;> cases h

/-- The tokens of a text that ends with a semicolon are those of its own, and then the others. -/
lemma lex_append {s t : String} {as : List Atom} (h : lex s = .ok as)
    (hlast : as.getLast? = some (.mark ";")) :
    (∀ bs, lex t = .ok bs → lex (s ++ t) = .ok (as ++ bs)) ∧
      ∀ e, lex t = .error e → ∃ e', lex (s ++ t) = .error e' := by
  obtain ⟨pieces, hpieces, has⟩ := except_bind_eq_ok.mp h
  cases has
  rw [getLast?_map, Option.map_eq_some_iff] at hlast
  obtain ⟨p, hp, hmark⟩ := hlast
  obtain ⟨text, rfl⟩ : ∃ text, p = .word text := by
    cases p with
    | word text => exact ⟨text, rfl⟩
    | _ => cases hmark
  obtain rfl := eq_of_ofWord_eq_mark hmark
  obtain ⟨front, hfront⟩ := getLast?_eq_some_iff.mp hp
  have hchars : s.toList = Piece.chars front ++ [';'] := by
    rw [← chars_split, ← chars_group hpieces, hfront]
    simp [Piece.text]
  have hgroup : group (split (s ++ t)) = groupFrom .plain "" pieces.reverse (split t) := by
    rw [split_append hchars]
    exact groupFrom_append hpieces hp _
  have hdone := groupFrom_done .plain "" [] pieces.reverse (split t)
  rw [nil_append, reverse_reverse] at hdone
  constructor
  · intro bs hbs
    obtain ⟨rest, hrest, hbs⟩ := except_bind_eq_ok.mp hbs
    cases hbs
    refine except_bind_eq_ok.mpr ⟨_, hgroup.trans (hdone.1 rest hrest), ?_⟩
    rw [map_append]
    rfl
  · intro e he
    cases hrest : group (split t) with
    | ok rest =>
      unfold lex at he
      rw [hrest] at he
      cases he
    | error e =>
      obtain ⟨e', he'⟩ := hdone.2 e hrest
      refine ⟨e', ?_⟩
      unfold lex
      rw [hgroup, he']
      rfl

end Atom

end ArmaScript
