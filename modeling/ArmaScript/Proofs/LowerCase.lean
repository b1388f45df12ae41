import ArmaScript.Proofs.Candidates
import Mathlib.Tactic.SplitIfs

/-!
# Words in lower case

A text in ASCII without capital letters is its own lower-case form. The keywords of the catalogue
are such texts, which is seen from their bytes.
-/

namespace ArmaScript

namespace Text

def bytes (s : String) : List UInt8 :=
  s.toByteArray.data.toList

/-- A byte of a character that is in ASCII and no capital letter. -/
def isSmallByte (b : UInt8) : Bool :=
  Nat.blt b.toNat 65 || (Nat.blt 90 b.toNat && Nat.blt b.toNat 128)

/-- Whether a text is in ASCII and has no capital letter. -/
def isSmall (s : String) : Bool :=
  (bytes s).all isSmallByte

variable {c : Char}

lemma toLower_of_small (h : c.toNat < 65 ∨ 90 < c.toNat) : c.toLower = c := by
  unfold Char.toLower
  rw [dif_neg]
  rintro ⟨h1, h2⟩
  have h1 : 65 ≤ c.toNat := UInt32.le_iff_toNat_le.mp h1
  have h2 : c.toNat ≤ 90 := UInt32.le_iff_toNat_le.mp h2
  omega

lemma lowerAt_of_small {before rest : List Char}
    (h : c.toNat < 65 ∨ (90 < c.toNat ∧ c.toNat < 128)) : lowerAt before c rest = [c] := by
  have h1 : (c.toNat == 0x3a3) = false := by rw [beq_eq_false_iff_ne]; omega
  have h2 : (c.toNat == 0x130) = false := by rw [beq_eq_false_iff_ne]; omega
  have hlt : c.toNat < 128 := by omega
  simp only [lowerAt, h1, h2, lowerChar, hlt, if_true]
  rw [toLower_of_small (by omega)]
  simp

lemma bytes_eq (s : String) : bytes s = s.toList.flatMap String.utf8EncodeChar := by
  rw [bytes, ← String.utf8Encode_toList, List.utf8Encode, List.data_toByteArray]

/-- A byte below 128 in the encoding of a character is the character. -/
lemma small_of_encode (h : (String.utf8EncodeChar c).all isSmallByte = true) :
    c.toNat < 65 ∨ (90 < c.toNat ∧ c.toNat < 128) := by
  have hbyte : ∀ n < 256, 128 ≤ n → isSmallByte (UInt8.ofNat n) = false := by
    intro n hn hle
    have hmod : n % 256 = n := Nat.mod_eq_of_lt hn
    have h1 : Nat.blt n 65 = false := by rw [← Bool.not_eq_true, Nat.blt_eq]; omega
    have h2 : Nat.blt n 128 = false := by rw [← Bool.not_eq_true, Nat.blt_eq]; omega
    simp [isSmallByte, hmod, h1, h2]
  unfold String.utf8EncodeChar at h
  dsimp only at h
  split_ifs at h with h1 h2 h3
  · have hmod : c.val.toNat % 256 = c.val.toNat := Nat.mod_eq_of_lt (by omega)
    simp only [List.all_cons, List.all_nil, Bool.and_true, isSmallByte, UInt8.toNat_ofNat',
      Nat.reducePow, hmod, Bool.or_eq_true, Bool.and_eq_true, Nat.blt_eq] at h
    exact h
  all_goals
    rw [List.all_cons, hbyte _ (by omega) (by omega), Bool.false_and] at h
    cases h

lemma lowerAfter_of_small {before cs : List Char}
    (h : ∀ c ∈ cs, c.toNat < 65 ∨ (90 < c.toNat ∧ c.toNat < 128)) : lowerAfter before cs = cs := by
  induction cs generalizing before with
  | nil => rfl
  | cons c cs ih =>
    rw [lowerAfter, lowerAt_of_small (h c (by simp)), ih fun d hd => h d (by simp [hd])]
    rfl

/-- A text in ASCII without capital letters is its own lower-case form. -/
lemma lower_of_isSmall {s : String} (h : isSmall s = true) : lower s = s := by
  rw [isSmall, bytes_eq, List.all_flatMap] at h
  rw [lower, lowerAfter_of_small, String.ofList_toList]
  intro c hc
  exact small_of_encode (List.all_eq_true.mp h c hc)

end Text

namespace Entry

lemma catalogue_isSmall : Catalogue.all.all (Text.isSmall ·.keyword) = true := by
  decide +kernel

lemma word_eq_keyword {s : Signature} (hs : s ∈ Catalogue.all) : s.word = s.keyword :=
  Text.lower_of_isSmall (List.all_eq_true.mp catalogue_isSmall s hs)

end Entry

end ArmaScript
