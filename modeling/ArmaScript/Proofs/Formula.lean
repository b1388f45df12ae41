import ArmaScript.Proofs.Lexemes
import ArmaScript.Proofs.LowerCase
import ArmaScript.Proofs.Outline
import Mathlib.Data.List.Infix
import Mathlib.Data.List.TakeWhile
import Mathlib.Data.Nat.Digits.Defs

/-!
# Formulas

Formulas of whole numbers with the usual conventions: a minus sign before an operand binds strongest,
then the product, then sum and difference, and operators of the same strength are taken from left to
right. A formula has many texts, since parentheses and blanks may stand where they are not needed.
This module goes from the texts to the tokens.
-/

namespace ArmaScript

open Lexeme List

inductive Sign where
  | plus
  | minus
  | times
deriving DecidableEq, Repr

namespace Sign

def char : Sign → Char
  | .plus => '+'
  | .minus => '-'
  | .times => '*'

def apply : Sign → Int → Int → Int
  | .plus => (· + ·)
  | .minus => (· - ·)
  | .times => (· * ·)

end Sign

/-- A formula of whole numbers. -/
inductive Formula where
  | literal (n : Nat)
  | neg (a : Formula)
  | binary (sign : Sign) (a b : Formula)

namespace Formula

/-- The whole number that a formula stands for. -/
def value : Formula → Int
  | .literal n => n
  | .neg a => -a.value
  | .binary sign a b => sign.apply a.value b.value

/-- How strongly a text holds together: what may stand in a sum, in a product, or behind a sign. -/
inductive Level where
  | sum
  | product
  | factor

/-- The number that a row of decimal digits stands for. -/
def ofDigits (digits : List Char) : Nat :=
  Nat.ofDigits 10 (digits.reverse.map fun c => c.toNat - '0'.toNat)

inductive Written : Level → Formula → List Char → Prop where
  | literal {digits : List Char} (hne : digits ≠ []) (hdigits : ∀ c ∈ digits, c.isDigit = true) :
      Written .factor (.literal (ofDigits digits)) digits
  | parens {a : Formula} {s : List Char} (h : Written .sum a s) :
      Written .factor a ('(' :: s ++ [')'])
  | neg {a : Formula} {s : List Char} (h : Written .factor a s) : Written .factor (.neg a) ('-' :: s)
  | product {a b : Formula} {s t : List Char} (ha : Written .product a s)
      (hb : Written .factor b t) : Written .product (.binary .times a b) (s ++ '*' :: t)
  | sum {sign : Sign} (hsign : sign ≠ .times) {a b : Formula} {s t : List Char}
      (ha : Written .sum a s) (hb : Written .product b t) :
      Written .sum (.binary sign a b) (s ++ sign.char :: t)
  | ofFactor {a : Formula} {s : List Char} (h : Written .factor a s) : Written .product a s
  | ofProduct {a : Formula} {s : List Char} (h : Written .product a s) : Written .sum a s
  | blankBefore {level : Level} {a : Formula} {s : List Char} (h : Written level a s) :
      Written level a (' ' :: s)
  | blankAfter {level : Level} {a : Formula} {s : List Char} (h : Written level a s) :
      Written level a (s ++ [' '])

def token (sign : Sign) : Atom :=
  .keyword sign.char.toString

inductive Spelt : Level → Formula → List Atom → Prop where
  | literal (n : Nat) : Spelt .factor (.literal n) [.number (some (.int n))]
  | parens {a : Formula} {ts : List Atom} (h : Spelt .sum a ts) :
      Spelt .factor a (.mark "(" :: ts ++ [.mark ")"])
  | neg {a : Formula} {ts : List Atom} (h : Spelt .factor a ts) :
      Spelt .factor (.neg a) (token .minus :: ts)
  | product {a b : Formula} {ts us : List Atom} (ha : Spelt .product a ts)
      (hb : Spelt .factor b us) : Spelt .product (.binary .times a b) (ts ++ token .times :: us)
  | sum {sign : Sign} (hsign : sign ≠ .times) {a b : Formula} {ts us : List Atom}
      (ha : Spelt .sum a ts) (hb : Spelt .product b us) :
      Spelt .sum (.binary sign a b) (ts ++ token sign :: us)
  | ofFactor {a : Formula} {ts : List Atom} (h : Spelt .factor a ts) : Spelt .product a ts
  | ofProduct {a : Formula} {ts : List Atom} (h : Spelt .product a ts) : Spelt .sum a ts
  | blankBefore {level : Level} {a : Formula} {ts : List Atom} (h : Spelt level a ts) :
      Spelt level a (.space :: ts)
  | blankAfter {level : Level} {a : Formula} {ts : List Atom} (h : Spelt level a ts) :
      Spelt level a (ts ++ [.space])

end Formula

/-! ### Rows of digits -/

namespace Numeral

variable {c : Char}

lemma plainChar_digit (h : c.isDigit = true) : plainChar c = c := by
  have hc : c.toNat < 127 := by
    simp only [Char.isDigit, Bool.and_eq_true, decide_eq_true_eq] at h
    have := UInt32.le_iff_toNat_le.mp h.2
    exact Nat.lt_of_le_of_lt this (by decide)
  rw [plainChar, if_pos hc]

lemma isPlainBlank_digit (h : c.isDigit = true) : Text.isPlainBlank c = false := by
  simp only [Char.isDigit, Bool.and_eq_true, decide_eq_true_eq] at h
  have hle : 48 ≤ c.toNat := UInt32.le_iff_toNat_le.mp h.1
  have hne : c ≠ ' ' := by
    rintro rfl
    exact absurd hle (by decide)
  have hlarge : ¬c.toNat ≤ 13 := by omega
  simp [Text.isPlainBlank, hne, hlarge]

variable {digits : List Char}

lemma dropWhile_digits (h : ∀ c ∈ digits, c.isDigit = true) :
    digits.dropWhile Text.isPlainBlank = digits := by
  cases digits with
  | nil => rfl
  | cons c cs => rw [dropWhile_cons_of_neg (by simp [isPlainBlank_digit (h c (by simp))])]

lemma strip_digits (h : ∀ c ∈ digits, c.isDigit = true) : strip digits = digits := by
  rw [strip, dropWhile_digits h, dropWhile_digits (by simpa using h), reverse_reverse]

lemma joinDigits_digits {previous : Char} (hprevious : previous ≠ '_')
    (h : ∀ c ∈ digits, c.isDigit = true) : joinDigits previous digits = some digits := by
  induction digits generalizing previous with
  | nil => simp [joinDigits, hprevious]
  | cons c cs ih =>
    have hc : c ≠ '_' := by
      rintro rfl
      exact absurd (h '_' (by simp)) (by decide)
    simp [joinDigits, hc, hprevious, ih hc fun d hd => h d (by simp [hd])]

lemma splitSign_digits (h : ∀ c ∈ digits, c.isDigit = true) :
    splitSign digits = (false, digits) := by
  unfold splitSign
  split
  · exact absurd (h '-' (by simp)) (by decide)
  · exact absurd (h '+' (by simp)) (by decide)
  · rfl

lemma digitsValue_eq_ofDigits (digits : List Char) :
    digitsValue digits = Formula.ofDigits digits := by
  induction digits using reverseRecOn with
  | nil => rfl
  | append_singleton cs c ih =>
    unfold digitsValue at ih ⊢
    rw [foldl_append, ih, Formula.ofDigits, Formula.ofDigits, reverse_append]
    simp only [foldl_cons, foldl_nil, reverse_singleton, singleton_append,
      map_cons, Nat.ofDigits_cons]
    exact Nat.add_comm _ _

/-- A row of digits that is not too long is a whole number. -/
lemma ofWord?_digits (hne : digits ≠ []) (h : ∀ c ∈ digits, c.isDigit = true)
    (hlength : digits.length ≤ longestWhole) :
    Num.ofWord? (String.ofList digits) = some (.int (Formula.ofDigits digits)) := by
  have hplain : digits.map plainChar = digits := by
    rw [map_congr_left fun c hc => plainChar_digit (h c hc), map_id']
  have hwhole : whole? (String.ofList digits) = some (Formula.ofDigits digits : Int) := by
    unfold whole?
    rw [String.toList_ofList, hplain, strip_digits h, splitSign_digits h]
    have hjoin : joinDigits ' ' digits = some digits := joinDigits_digits (by decide) h
    simp [hjoin, Nat.not_lt.mpr hlength, Double.signed, digitsValue_eq_ofDigits]
    exact ⟨hne, h⟩
  rw [Num.ofWord?, hwhole]

/-- A word that starts with a digit is no fixed word that starts otherwise. -/
lemma ofList_ne_of_isDigit {cs : List Char} (hc : c.isDigit = true) {word : String}
    (hword : (word.toList.head?.map Char.isDigit) ≠ some true) :
    String.ofList (c :: cs) ≠ word := by
  rintro rfl
  simp [hc] at hword

lemma toLower_digit (h : c.isDigit = true) : c.toLower = c := by
  simp only [Char.isDigit, Bool.and_eq_true, decide_eq_true_eq] at h
  have hle : c.toNat ≤ 57 := UInt32.le_iff_toNat_le.mp h.2
  exact Text.toLower_of_small (.inl (by omega))

lemma ofWord?_long (h : ∀ c ∈ digits, c.isDigit = true) (hlength : longestWhole < digits.length) :
    ∃ x, Num.ofWord? (String.ofList digits) = some (.double x) := by
  have hplain : digits.map plainChar = digits := by
    rw [map_congr_left fun c hc => plainChar_digit (h c hc), map_id']
  have hjoin : joinDigits ' ' digits = some digits := joinDigits_digits (by decide) h
  have hwhole : whole? (String.ofList digits) = none := by
    unfold whole?
    rw [String.toList_ofList, hplain, strip_digits h, splitSign_digits h]
    simp [hjoin, hlength]
  have hlower : digits.map Char.toLower = digits := by
    rw [map_congr_left fun c hc => toLower_digit (h c hc), map_id']
  have hword (word : String) (hhead : (word.toList.head?.map Char.isDigit) ≠ some true) :
      (String.ofList digits == word) = false := by
    obtain ⟨c, cs, rfl⟩ := exists_cons_of_length_pos (Nat.zero_lt_of_lt hlength)
    exact beq_eq_false_iff_ne.mpr (ofList_ne_of_isDigit (h c (by simp)) hhead)
  have hne : digits.isEmpty = false := by
    rw [isEmpty_eq_false_iff]
    rintro rfl
    cases hlength
  have hdouble : double? (String.ofList digits) = some (ofDecimal false (digits ++ []) (0 - 0)) := by
    unfold double?
    rw [String.toList_ofList, hplain, strip_digits h, hjoin]
    dsimp only [Option.bind_eq_bind, Option.bind_some]
    rw [splitSign_digits h]
    dsimp only
    rw [hlower, hword "inf" (by decide), hword "infinity" (by decide), hword "nan" (by decide),
      takeWhile_eq_self_iff.mpr h, dropWhile_eq_nil_iff.mpr h]
    simp [hne, exponent?]
  exact ⟨_, by rw [Num.ofWord?, hwhole, hdouble]; rfl⟩

end Numeral

/-! ### Words and signs -/

lemma Text.bytes_cons {s : String} {c : Char} {cs : List Char} (hs : s.toList = c :: cs)
    (hc : c.toNat < 128) : ∃ rest, bytes s = UInt8.ofNat c.toNat :: rest := by
  have hencode : String.utf8EncodeChar c = [UInt8.ofNat c.toNat] := by
    unfold String.utf8EncodeChar
    dsimp only
    exact if_pos (show c.val.toNat ≤ 127 from Nat.le_of_lt_succ hc)
  rw [bytes_eq, hs, flatMap_cons, hencode]
  exact ⟨_, rfl⟩

namespace Vocabulary

lemma isKeyword_eq (word : String) : isKeyword word = keywordList.contains word := by
  rw [isKeyword, keywordWords, Std.HashSet.contains_ofList]

lemma isUnary_eq (word : String) : isUnary word = unaryList.contains word := by
  rw [isUnary, unaryWords, Std.HashSet.contains_ofList]

variable {s : Signature}

/-- The words of the catalogue are keywords, the names of namespaces apart. -/
lemma isKeyword_of_mem (hs : s ∈ Catalogue.all) (hspace : namespaces.contains s.keyword = false) :
    isKeyword s.keyword = true := by
  rw [isKeyword_eq, keywordList, contains_iff_mem, mem_filter]
  refine ⟨mem_append_right _ (mem_map.mpr ⟨s, hs, Entry.word_eq_keyword hs⟩), ?_⟩
  rw [hspace]
  rfl

lemma isKeyword_of_operator {word : String}
    (h : (Catalogue.operators.any fun s => s.keyword == word) = true)
    (hspace : namespaces.contains word = false) : isKeyword word = true := by
  obtain ⟨s, hs, hword⟩ := any_eq_true.mp h
  rw [beq_iff_eq] at hword
  rw [← hword] at hspace ⊢
  exact isKeyword_of_mem (mem_append_left _ (mem_append_left _ (mem_append_left _ hs))) hspace

/-- A byte that is neither a digit nor an opening parenthesis. -/
def isOrdinary (b : UInt8) : Bool :=
  b.toNat != 40 && (Nat.blt b.toNat 48 || Nat.blt 57 b.toNat)

lemma mem_all_of_mem_unaries (hs : s ∈ Catalogue.unaries) : s ∈ Catalogue.all :=
  mem_append_left _ (mem_append_left _ (mem_append_right _ hs))

lemma isUnary_of_mem (hs : s ∈ Catalogue.unaries) : isUnary s.keyword = true := by
  rw [isUnary_eq, contains_iff_mem]
  exact mem_map.mpr ⟨s, hs, Entry.word_eq_keyword (mem_all_of_mem_unaries hs)⟩

lemma unaries_ordinary :
    (Catalogue.unaries.all fun s => (Text.bytes s.keyword).head?.all isOrdinary) = true := by
  decide +kernel

/-- No operator before its operand starts with a digit or an opening parenthesis. -/
lemma isUnary_eq_false {word : String} {c : Char} {cs : List Char} (hword : word.toList = c :: cs)
    (hc : c.isDigit = true ∨ c = '(') : isUnary word = false := by
  rw [isUnary_eq, Bool.eq_false_iff]
  intro hmem
  obtain ⟨s, hs, rfl⟩ := mem_map.mp (contains_iff_mem.mp hmem)
  have hordinary := all_eq_true.mp unaries_ordinary s hs
  rw [Entry.word_eq_keyword (mem_all_of_mem_unaries hs)] at hword
  have hrange : c.toNat = 40 ∨ (48 ≤ c.toNat ∧ c.toNat ≤ 57) := by
    rcases hc with hc | rfl
    · simp only [Char.isDigit, Bool.and_eq_true, decide_eq_true_eq] at hc
      exact .inr ⟨UInt32.le_iff_toNat_le.mp hc.1, UInt32.le_iff_toNat_le.mp hc.2⟩
    · exact .inl rfl
  obtain ⟨rest, hbytes⟩ := Text.bytes_cons hword (by omega)
  have hbyte : (UInt8.ofNat c.toNat).toNat = c.toNat := by
    rw [UInt8.toNat_ofNat']
    exact Nat.mod_eq_of_lt (by omega)
  rw [hbytes] at hordinary
  simp only [head?_cons, Option.all_some, isOrdinary, hbyte, Bool.and_eq_true,
    Bool.or_eq_true, Nat.blt_eq, bne_iff_ne] at hordinary
  omega

/-- The minus sign can stand before an operand. -/
lemma isUnary_minus : isUnary "-" = true := by
  have hany : (Catalogue.unaries.any fun s => s.keyword == "-") = true := by
    decide +kernel
  obtain ⟨s, hs, hkeyword⟩ := any_eq_true.mp hany
  exact beq_iff_eq.mp hkeyword ▸ isUnary_of_mem hs

end Vocabulary

namespace Atom

/-- The words that are layout, marks or truth values. -/
def fixedWords : List String :=
  [" ", "\t", "\\\n", "\n", "\r\n", "true", "false"] ++ marks

lemma ofWord_eq_ofName {word : String} (hfixed : word ∉ fixedWords)
    (hnumber : Num.ofWord? word = none) : ofWord word = ofName word := by
  obtain ⟨hwords, hmarks⟩ := not_or.mp (mt mem_append.mpr hfixed)
  simp only [mem_cons, not_mem_nil, or_false, not_or] at hwords
  rw [ofWord, hnumber]
  simp [hwords, hmarks]

lemma ofWord_of_isKeyword {word : String}
    (hfixed : word ∉ fixedWords ++ Vocabulary.directives ++ Vocabulary.namespaces)
    (hnumber : Num.ofWord? word = none) (hlower : Text.lower word = word)
    (hkeyword : Vocabulary.isKeyword word = true) : ofWord word = .keyword word := by
  simp only [mem_append, not_or] at hfixed
  rw [ofWord_eq_ofName hfixed.1.1 hnumber, ofName, hlower]
  simp [hfixed, hkeyword]

lemma ofWord_sign (sign : Sign) : ofWord sign.char.toString = Formula.token sign := by
  refine ofWord_of_isKeyword ?_ ?_ ?_ (Vocabulary.isKeyword_of_operator ?_ ?_) <;> cases sign
  all_goals first | rfl | decide +kernel

lemma ofWord_digits {digits : List Char} (hne : digits ≠ []) (h : ∀ c ∈ digits, c.isDigit = true)
    {n : Num} (hnumber : Num.ofWord? (String.ofList digits) = some n) :
    ofWord (String.ofList digits) = .number (some n) := by
  obtain ⟨c, cs, rfl⟩ := exists_cons_of_ne_nil hne
  have hne' (word : String) (hword : (word.toList.head?.map Char.isDigit) ≠ some true) :
      (String.ofList (c :: cs) == word) = false :=
    beq_eq_false_iff_ne.mpr (Numeral.ofList_ne_of_isDigit (h c (by simp)) hword)
  have hmarks : marks.contains (String.ofList (c :: cs)) = false := by
    rw [Bool.eq_false_iff]
    intro hmem
    have hdigits : (marks.all fun s => (s.toList.head?.map Char.isDigit) != some true) = true := by
      decide
    have hhead := all_eq_true.mp hdigits _ (contains_iff_mem.mp hmem)
    simp [h c (by simp)] at hhead
  rw [ofWord, hne' " " (by decide), hne' "\t" (by decide), hne' "\\\n" (by decide), hmarks,
    hne' "\n" (by decide), hne' "\r\n" (by decide), hne' "true" (by decide),
    hne' "false" (by decide), hnumber]
  rfl

end Atom

namespace Formula

/-- The characters that make pairs with each other or with a sign. None of them is in a formula. -/
def pairing : List Char :=
  ['/', '!', '<', '>', '=']

variable {c : Char}

/-- A symbol makes no pair with what can stand in a formula. -/
lemma isPair_symbol {x : Char} (hc : c ∈ ['+', '-', '*', '(', ')', ' ', '<', '>', '=', '!'])
    (hx : x ∉ pairing) : isPair x c = false ∧ isPair c x = false := by
  simp only [pairing, mem_cons, not_mem_nil, or_false, not_or] at hc hx
  rcases hc with rfl | rfl | rfl | rfl | rfl | rfl | rfl | rfl | rfl | rfl <;>
    simp [isPair, hx]

lemma isPair_digit (hc : c.isDigit = true) (d : Char) : isPair c d = false := by
  unfold isPair
  split <;> first | rfl | exact absurd hc (by decide)

lemma isSeparator_digit (hc : c.isDigit = true) : isSeparator c = false := by
  have hdigits : (separators.all fun x => !x.isDigit) = true := by decide
  rw [isSeparator, Bool.eq_false_iff]
  intro hmem
  have hother := all_eq_true.mp hdigits c (contains_iff_mem.mp hmem)
  simp [hc] at hother

lemma splitChars_digits {digits word : List Char} (h : ∀ c ∈ digits, c.isDigit = true) :
    splitChars word digits = flush (digits.reverse ++ word) [] := by
  fun_induction splitChars word digits with
  | case1 word => rfl
  | case2 word c hc | case5 word c d rest hpair hc ih =>
    simp [isSeparator_digit (h c (by simp))] at hc
  | case3 word c hc => rfl
  | case4 word c d rest hpair ih => simp [isPair_digit (h c (by simp))] at hpair
  | case6 word c d rest hpair hc ih =>
    rw [ih fun x hx => h x (by simp [mem_cons.mp hx])]
    simp

/-- The tokens of a text without quotes, comments and directives. -/
structure Lexes (s : List Char) (tokens : List Atom) : Prop where
  starters : ∀ lexeme ∈ splitChars [] s, lexeme ∉ starters
  length : tokens.length ≤ s.length
  plain : ∀ a ∈ tokens, a.isReplacing = false
  tokens : (splitChars [] s).map Atom.ofWord = tokens

/-- The tokens of a text that can stand in a formula. -/
structure LexesAlone (s : List Char) (tokens : List Atom) : Prop extends Lexes s tokens where
  alone : ∀ x ∈ s, x ∉ pairing

namespace Lexes

variable {s t : List Char} {ts us : List Atom} {a : Atom}

/-- Two texts with a lexeme between them. -/
lemma join (hs : Lexes s ts) (ht : Lexes t us) (cs : List Char) {word : String}
    (hcut : ∀ before, splitChars before (c :: (cs ++ t)) = flush before (word :: splitChars [] t))
    (hleft : ∀ x ∈ s, Lexeme.isPair x c = false) (hword : word ∉ Lexeme.starters)
    (ha : Atom.ofWord word = a) (hplain : a.isReplacing = false) :
    Lexes (s ++ c :: (cs ++ t)) (ts ++ a :: us) := by
  have hsplit := splitChars_append [] hcut hleft
  refine ⟨?_, ?_, ?_, ?_⟩
  · rw [hsplit, forall_mem_append, forall_mem_cons]
    exact ⟨hs.starters, hword, ht.starters⟩
  · have hs := hs.length
    have ht := ht.length
    simp only [length_append, length_cons]
    omega
  · rw [forall_mem_append, forall_mem_cons]
    exact ⟨hs.plain, hplain, ht.plain⟩
  · rw [hsplit, map_append, map_cons, hs.tokens, ha, ht.tokens]

/-- The tokens of a text are those that the reader finds. -/
lemma lex (h : Lexes s ts) : Atom.lex (String.ofList s) = .ok ts := by
  have hsplit : split (String.ofList s) = splitChars [] s := by
    rw [split, String.toList_ofList]
  rw [Atom.lex_of_words (hsplit ▸ h.starters), hsplit, h.tokens]

end Lexes

namespace LexesAlone

variable {s t : List Char} {ts us : List Atom} {a : Atom}

lemma nil : LexesAlone [] [] :=
  ⟨⟨by simp [splitChars, flush], Nat.le_refl 0, by simp, rfl⟩, by simp⟩

/-- Two parts of formulas with a sign, a parenthesis or a blank between them. -/
lemma sign (hs : LexesAlone s ts) (hc : c ∈ ['+', '-', '*', '(', ')', ' '])
    (ha : Atom.ofWord c.toString = a) (hplain : a.isReplacing = false) (ht : LexesAlone t us) :
    LexesAlone (s ++ c :: t) (ts ++ a :: us) := by
  have hsymbol : c ∈ ['+', '-', '*', '(', ')', ' ', '<', '>', '=', '!'] :=
    mem_append_left _ hc
  have hsign : Lexeme.isSeparator c = true ∧ c ∉ pairing ∧ c.toString ∉ Lexeme.starters := by
    simp only [mem_cons, not_mem_nil, or_false] at hc
    rcases hc with rfl | rfl | rfl | rfl | rfl | rfl <;> decide
  refine ⟨hs.join ht.toLexes [] (fun before => ?_) (fun x hx => ?_) hsign.2.2 ha hplain, ?_⟩
  · refine (Lexeme.splitChars_cons before fun y hy => ?_).trans (if_pos hsign.1)
    exact (isPair_symbol hsymbol (ht.alone y (mem_of_mem_head? hy))).2
  · exact (isPair_symbol hsymbol (hs.alone x hx)).1
  · rw [forall_mem_append, forall_mem_cons]
    exact ⟨hs.alone, hsign.2.1, ht.alone⟩

lemma digits {digits : List Char} (hne : digits ≠ []) (h : ∀ c ∈ digits, c.isDigit = true)
    {n : Num} (hnumber : Num.ofWord? (String.ofList digits) = some n) :
    LexesAlone digits [.number (some n)] := by
  have hsplit : splitChars [] digits = [String.ofList digits] := by
    rw [splitChars_digits h, append_nil, flush, if_neg (by simpa using hne), reverse_reverse]
  refine ⟨⟨?_, length_pos_iff.mpr hne, forall_mem_singleton.mpr rfl, ?_⟩, fun x hx => ?_⟩
  · rw [hsplit]
    obtain ⟨c, cs, rfl⟩ := exists_cons_of_ne_nil hne
    have hstarters : (starters.all fun s =>
        (s.toList.head?.map Char.isDigit) != some true) = true := by
      decide
    intro lexeme hlexeme hmem
    rw [mem_singleton.mp hlexeme] at hmem
    have hhead := all_eq_true.mp hstarters _ hmem
    simp [h c (by simp)] at hhead
  · rw [hsplit, map_singleton, Atom.ofWord_digits hne h hnumber]
  · have hpairing : (pairing.all fun x => !x.isDigit) = true := by decide
    intro hmem
    simpa [h x hx] using all_eq_true.mp hpairing x hmem

end LexesAlone

/-- No literal has too many digits. -/
def Short (s : List Char) : Prop :=
  ∀ digits, digits <:+: s → (∀ c ∈ digits, c.isDigit = true) → digits.length ≤ Numeral.longestWhole

lemma Short.part {s t : List Char} (h : Short s) (ht : t <:+: s) : Short t :=
  fun digits hdigits => h digits (hdigits.trans ht)

/-- The tokens of a formula that has no literal of too many digits. -/
lemma Written.lexes {level : Level} {a : Formula} {s : List Char} (h : Written level a s)
    (hshort : Short s) : ∃ ts, LexesAlone s ts ∧ Spelt level a ts := by
  induction h with
  | @literal digits hne hdigits =>
    have hnumber := Numeral.ofWord?_digits hne hdigits (hshort digits infix_rfl hdigits)
    exact ⟨_, .digits hne hdigits hnumber, .literal _⟩
  | @parens a s h ih =>
    obtain ⟨ts, hlexes, hspelt⟩ := ih (hshort.part ⟨['('], [')'], rfl⟩)
    have hclose := hlexes.sign (c := ')') (by simp) rfl rfl .nil
    exact ⟨_, LexesAlone.nil.sign (c := '(') (by simp) rfl rfl hclose, .parens hspelt⟩
  | @neg a s h ih =>
    obtain ⟨ts, hlexes, hspelt⟩ := ih (hshort.part (suffix_cons _ _).isInfix)
    exact ⟨_, LexesAlone.nil.sign (by simp) (Atom.ofWord_sign .minus) rfl hlexes, .neg hspelt⟩
  | @product a b s t ha hb iha ihb =>
    obtain ⟨ts, hs, hts⟩ := iha (hshort.part (prefix_append _ _).isInfix)
    obtain ⟨us, ht, hus⟩ := ihb (hshort.part ⟨s ++ ['*'], [], by simp⟩)
    exact ⟨_, hs.sign (by simp) (Atom.ofWord_sign .times) rfl ht, .product hts hus⟩
  | @sum sign hsign a b s t ha hb iha ihb =>
    obtain ⟨ts, hs, hts⟩ := iha (hshort.part (prefix_append _ _).isInfix)
    obtain ⟨us, ht, hus⟩ := ihb (hshort.part ⟨s ++ [sign.char], [], by simp⟩)
    exact ⟨_, hs.sign (by cases sign <;> simp [Sign.char]) (Atom.ofWord_sign sign) rfl ht,
      .sum hsign hts hus⟩
  | ofFactor h ih =>
    obtain ⟨ts, hlexes, hspelt⟩ := ih hshort
    exact ⟨ts, hlexes, .ofFactor hspelt⟩
  | ofProduct h ih =>
    obtain ⟨ts, hlexes, hspelt⟩ := ih hshort
    exact ⟨ts, hlexes, .ofProduct hspelt⟩
  | @blankBefore level a s h ih =>
    obtain ⟨ts, hlexes, hspelt⟩ := ih (hshort.part (suffix_cons _ _).isInfix)
    exact ⟨_, LexesAlone.nil.sign (by simp) rfl rfl hlexes, .blankBefore hspelt⟩
  | @blankAfter level a s h ih =>
    obtain ⟨ts, hlexes, hspelt⟩ := ih (hshort.part (prefix_append _ _).isInfix)
    exact ⟨_, hlexes.sign (by simp) rfl rfl .nil, .blankAfter hspelt⟩

end Formula

end ArmaScript
