import ArmaScript.Proofs.Computation
import ArmaScript.Token.Classify
import Mathlib.Tactic.SplitIfs

/-!
# Lexing keeps the text

Cutting a script at its separators and putting quotes and comments together again loses nothing: the
texts of the pieces make up the script. A token shows the text of its piece as well, unless it is a
number, which is shown in its standard form.
-/

namespace ArmaScript

namespace Lexeme

/-- The characters of several texts in a row. -/
def chars (texts : List String) : List Char :=
  texts.flatMap String.toList

@[simp] lemma chars_nil : chars [] = [] := rfl

@[simp] lemma chars_cons (s : String) (rest : List String) :
    chars (s :: rest) = s.toList ++ chars rest := rfl

@[simp] lemma chars_append (texts others : List String) :
    chars (texts ++ others) = chars texts ++ chars others := by
  simp [chars]

lemma toList_join (texts : List String) : (String.join texts).toList = chars texts := by
  simp [chars]

lemma chars_flush (word : List Char) (rest : List String) :
    chars (flush word rest) = word.reverse ++ chars rest := by
  cases word with
  | nil => rfl
  | cons c word => simp [flush]

lemma chars_splitChars (word cs : List Char) : chars (splitChars word cs) = word.reverse ++ cs := by
  fun_induction splitChars word cs with
  | case1 word | case2 word c h | case3 word c h => simp [chars_flush]
  | case4 word c d rest h ih | case5 word c d rest h h' ih => simp [chars_flush, ih]
  | case6 word c d rest h h' ih => simp [ih]

lemma chars_split (script : String) : chars (split script) = script.toList := by
  simp [split, chars_splitChars]

namespace Piece

/-- The characters of several pieces in a row. -/
def chars (pieces : List Piece) : List Char :=
  pieces.flatMap fun p => p.text.toList

@[simp] lemma chars_nil : chars [] = [] := rfl

@[simp] lemma chars_append (ps qs : List Piece) : chars (ps ++ qs) = chars ps ++ chars qs := by
  simp [chars]

@[simp] lemma chars_singleton (p : Piece) : chars [p] = p.text.toList := by
  simp [chars]

end Piece

/-- What was read of the piece that is not finished yet. -/
def Mode.begun : Mode → String → List Char
  | .plain, _ => []
  | .quoted quote _, buffer => quote :: buffer.toList
  | .block, buffer => buffer.toList
  | .line, buffer => buffer.toList

lemma chars_groupFrom (mode : Mode) (buffer : String) (done : List Piece) (lexemes : List String)
    (pieces : List Piece) (h : groupFrom mode buffer done lexemes = .ok pieces) :
    Piece.chars pieces = Piece.chars done.reverse ++ mode.begun buffer ++ chars lexemes := by
  fun_induction groupFrom mode buffer done lexemes with
  | case1 buffer done =>
    cases h
    simp [Mode.begun]
  | case2 buffer done | case3 buffer done =>
    cases h
    simp [Mode.begun, Piece.text]
  | case4 => cases h
  | case5 buffer done rest ih | case6 buffer done rest ih | case7 buffer done rest ih
  | case8 buffer done rest ih | case10 quote doubled buffer done lexeme rest hq ih
  | case11 quote buffer done lexeme rest hq ih
  | case12 quote doubled buffer done lexeme rest hq hd hn ih | case15 buffer done lexeme rest he ih
  | case17 buffer done lexeme rest he ih => simp [ih h, Mode.begun]
  | case9 buffer done lexeme rest _ _ _ _ ih | case14 buffer done lexeme rest he ih
  | case16 buffer done lexeme rest he ih => simp [ih h, Mode.begun, Piece.text]
  | case13 quote doubled buffer done lexeme rest hq hd hn ih =>
    have hl : lexeme = quote.toString := by simpa using hq
    simp [ih h, Mode.begun, Piece.text, Quoted.text, hl]

lemma chars_group {lexemes : List String} {pieces : List Piece}
    (h : group lexemes = .ok pieces) : Piece.chars pieces = chars lexemes := by
  simpa [Mode.begun] using chars_groupFrom .plain "" [] lexemes pieces h

lemma flush_ne_empty (word : List Char) {rest : List String} (h : ∀ s ∈ rest, s ≠ "") :
    ∀ s ∈ flush word rest, s ≠ "" := by
  intro s hs
  unfold flush at hs
  split_ifs at hs with hw
  · exact h s hs
  · rcases List.mem_cons.mp hs with rfl | hs
    · simpa using hw
    · exact h s hs

lemma splitChars_ne_empty (word cs : List Char) : ∀ s ∈ splitChars word cs, s ≠ "" := by
  fun_induction splitChars word cs with
  | case1 word | case2 word c h => exact flush_ne_empty word (by simp)
  | case3 word c h => exact flush_ne_empty (c :: word) (by simp)
  | case4 word c d rest h ih | case5 word c d rest h h' ih =>
    exact flush_ne_empty word (by simpa using ih)
  | case6 word c d rest h h' ih => exact ih

/-- No piece is empty, if no lexeme is. A comment holds at least the lexeme that starts it. -/
lemma groupFrom_ne_empty (mode : Mode) (buffer : String) (done : List Piece)
    (lexemes : List String) (pieces : List Piece) (h : groupFrom mode buffer done lexemes = .ok pieces)
    (hdone : ∀ p ∈ done, p.text ≠ "") (hlexemes : ∀ s ∈ lexemes, s ≠ "")
    (hbuffer : mode = .block ∨ mode = .line → buffer ≠ "") : ∀ p ∈ pieces, p.text ≠ "" := by
  fun_induction groupFrom mode buffer done lexemes with
  | case1 buffer done =>
    cases h
    simpa using hdone
  | case2 buffer done | case3 buffer done =>
    cases h
    intro p hp
    obtain hp | rfl : p ∈ done ∨ p = .comment buffer := by simpa using hp
    · exact hdone p hp
    · exact hbuffer (by simp)
  | case4 => cases h
  | case5 buffer done rest ih | case6 buffer done rest ih | case7 buffer done rest ih
  | case8 buffer done rest ih | case10 quote doubled buffer done lexeme rest hq ih
  | case11 quote buffer done lexeme rest hq ih
  | case12 quote doubled buffer done lexeme rest hq hd hn ih =>
    exact ih h hdone (by simp_all) (by simp)
  | case9 buffer done lexeme rest _ _ _ _ ih | case14 buffer done lexeme rest he ih
  | case16 buffer done lexeme rest he ih =>
    exact ih h (by simp_all [Piece.text]) (by simp_all) (by simp)
  | case13 quote doubled buffer done lexeme rest hq hd hn ih =>
    exact ih h (by simp_all [Piece.text, Quoted.text]) (by simp_all) (by simp)
  | case15 buffer done lexeme rest he ih | case17 buffer done lexeme rest he ih =>
    exact ih h hdone (by simp_all) (by simp_all)

end Lexeme

lemma Num.text_ne_empty (n : Num) : n.text ≠ "" := by
  cases n with
  | int n =>
    rw [text, Int.toString_eq_repr, Int.repr_eq_if]
    split
    · exact Nat.repr_ne_empty
    · simp
  | double x =>
    rw [text, Double.fixedText]
    cases Double.view x with
    | nan => decide
    | infinite negative => cases negative <;> decide
    | finite negative m e => simp

namespace Atom

/-- The characters of several tokens in a row. -/
def chars (tokens : List Atom) : List Char :=
  tokens.flatMap fun a => a.text.toList

def isNumber : Atom → Bool
  | .number _ => true
  | _ => false

lemma text_ofName (word : String) : (ofName word).text = word := by
  unfold ofName
  split_ifs <;> rfl

lemma text_ofWord {word : String} (h : (ofWord word).isNumber = false) :
    (ofWord word).text = word := by
  unfold ofWord at h ⊢
  split_ifs at h ⊢ with h1 h2 h3 h4 h5 h6 h7
  · exact (beq_iff_eq.mp h1).symm
  · exact (beq_iff_eq.mp h2).symm
  · exact (beq_iff_eq.mp h3).symm
  · rfl
  · rfl
  · exact (beq_iff_eq.mp h6).symm
  · exact (beq_iff_eq.mp h7).symm
  · cases hn : Num.ofWord? word with
    | some n =>
      rw [hn] at h
      cases h
    | none => exact text_ofName word

lemma text_ofPiece {p : Lexeme.Piece} (h : (ofPiece p).isNumber = false) :
    (ofPiece p).text = p.text := by
  cases p with
  | word s => exact text_ofWord h
  | quoted q => rfl
  | comment s => rfl

variable {script : String} {tokens : List Atom}

/-- The tokens of a script make up the script, if none of them is a number. -/
lemma chars_lex (h : lex script = .ok tokens) (hn : ∀ a ∈ tokens, a.isNumber = false) :
    chars tokens = script.toList := by
  obtain ⟨pieces, hp, ht⟩ := except_bind_eq_ok.mp h
  cases ht
  have hc : chars (pieces.map ofPiece) = Lexeme.Piece.chars pieces := by
    rw [chars, Lexeme.Piece.chars, List.flatMap_def, List.flatMap_def, List.map_map]
    congr 1
    apply List.map_congr_left
    intro p hp
    simp only [Function.comp_apply, text_ofPiece (hn _ (List.mem_map_of_mem hp))]
  rw [hc, Lexeme.chars_group hp, Lexeme.chars_split]

lemma text_ofPiece_ne_empty {p : Lexeme.Piece} (h : p.text ≠ "") : (ofPiece p).text ≠ "" := by
  cases hnumber : (ofPiece p).isNumber with
  | false => rwa [text_ofPiece hnumber]
  | true =>
    cases hp : ofPiece p with
    | number n =>
      cases n with
      | none => simp [text, orUndefined]
      | some n => exact n.text_ne_empty
    | _ => simp [hp, isNumber] at hnumber

lemma text_ne_empty_of_lex (h : lex script = .ok tokens) : ∀ a ∈ tokens, a.text ≠ "" := by
  obtain ⟨pieces, hp, ht⟩ := except_bind_eq_ok.mp h
  cases ht
  intro a ha
  obtain ⟨p, hmem, rfl⟩ := List.mem_map.mp ha
  exact text_ofPiece_ne_empty (Lexeme.groupFrom_ne_empty _ _ _ _ _ hp (by simp)
    (Lexeme.splitChars_ne_empty _ _) (by simp) p hmem)

lemma kind_ofWord (word : String) :
    (ofWord word).kind ≠ .fileEnd ∧ (ofWord word).kind ≠ .nothing := by
  unfold ofWord ofName
  split_ifs <;> cases Num.ofWord? word <;> simp [kind]

lemma kind_of_lex (h : lex script = .ok tokens) :
    ∀ a ∈ tokens, a.kind ≠ .fileEnd ∧ a.kind ≠ .nothing := by
  obtain ⟨pieces, hp, ht⟩ := except_bind_eq_ok.mp h
  cases ht
  intro a ha
  obtain ⟨p, hmem, rfl⟩ := List.mem_map.mp ha
  cases p with
  | word s => exact kind_ofWord s
  | quoted q | comment s => simp [ofPiece, kind]

lemma kind_ne_fileEnd_of_lex (h : lex script = .ok tokens) : ∀ a ∈ tokens, a.kind ≠ .fileEnd :=
  fun a ha => (kind_of_lex h a ha).1

lemma kind_ne_nothing_of_lex (h : lex script = .ok tokens) : ∀ a ∈ tokens, a.kind ≠ .nothing :=
  fun a ha => (kind_of_lex h a ha).2

end Atom

end ArmaScript
