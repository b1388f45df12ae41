import ArmaScript.Proofs.Lexemes

/-!
# Texts that are not closed

A grammar of the lexemes of a script: which of them stand outside of texts in quotes and of comments,
and where a text in quotes ends. Grouping the lexemes fails exactly if the script ends inside a text
in quotes, and the error then stands at the opening quote of that text.
-/

namespace ArmaScript.Lexeme

open List

/-- The lexemes inside a text in quotes: a quote among them stands there twice. -/
inductive Paired (quote : String) : List String → Prop where
  | nil : Paired quote []
  | other {s : String} {rest : List String} (hs : s ≠ quote) (h : Paired quote rest) :
      Paired quote (s :: rest)
  | twice {rest : List String} (h : Paired quote rest) : Paired quote (quote :: quote :: rest)

/-- The lexemes that open and close a text in quotes. -/
def quotes : List String :=
  ["\"", "'"]

def lineEnds : List String :=
  ["\n", "\r\n"]

/-- `Outside lexemes rest` says that `rest` is left of the lexemes behind words, texts in quotes and
comments that have all come to their end. -/
inductive Outside (lexemes : List String) : List String → Prop where
  | start : Outside lexemes lexemes
  | word {s : String} {rest : List String} (h : Outside lexemes (s :: rest)) (hs : s ∉ starters) :
      Outside lexemes rest
  | quoted {quote : String} {body rest : List String}
      (h : Outside lexemes (quote :: (body ++ quote :: rest))) (hquote : quote ∈ quotes)
      (hbody : Paired quote body) (hrest : rest.head? ≠ some quote) : Outside lexemes rest
  | block {body rest : List String} (h : Outside lexemes ("/*" :: (body ++ "*/" :: rest)))
      (hbody : "*/" ∉ body) : Outside lexemes rest
  | line {lineEnd : String} {body rest : List String}
      (h : Outside lexemes ("//" :: (body ++ lineEnd :: rest))) (hend : lineEnd ∈ lineEnds)
      (hbody : ∀ s ∈ body, s ∉ lineEnds) : Outside lexemes rest

/-- The script ends inside a text in quotes, and `before` is what stands before the quote that opens
it. -/
def EndsQuoted (script before : String) : Prop :=
  ∃ front quote body, split script = front ++ quote :: body ∧ before = String.join front ∧
    Outside (split script) (quote :: body) ∧ quote ∈ quotes ∧ Paired quote body

namespace Paired

variable {quote : String} {body : List String}

lemma concat_other {s : String} (h : Paired quote body) (hs : s ≠ quote) :
    Paired quote (body ++ [s]) := by
  induction h with
  | nil => exact .other hs .nil
  | other hs' h ih => exact .other hs' ih
  | twice h ih => exact .twice ih

lemma concat_twice (h : Paired quote body) : Paired quote (body ++ [quote, quote]) := by
  induction h with
  | nil => exact .twice .nil
  | other hs h ih => exact .other hs ih
  | twice h ih => exact .twice ih

end Paired

namespace Outside

variable {lexemes rest : List String}

lemma suffix (h : Outside lexemes rest) : ∃ front, lexemes = front ++ rest := by
  induction h with
  | start => exact ⟨[], rfl⟩
  | @word s rest _ _ ih =>
    obtain ⟨front, rfl⟩ := ih
    exact ⟨front ++ [s], by simp⟩
  | @quoted quote body rest _ _ _ _ ih =>
    obtain ⟨front, rfl⟩ := ih
    exact ⟨front ++ quote :: (body ++ [quote]), by simp⟩
  | @block body rest _ _ ih =>
    obtain ⟨front, rfl⟩ := ih
    exact ⟨front ++ "/*" :: (body ++ ["*/"]), by simp⟩
  | @line lineEnd body rest _ _ _ ih =>
    obtain ⟨front, rfl⟩ := ih
    exact ⟨front ++ "//" :: (body ++ [lineEnd]), by simp⟩

end Outside

lemma Piece.toList_joined (pieces : List Piece) : (joined pieces).toList = chars pieces := by
  simp [joined, chars, flatMap_map]

/-! ### What the grammar allows is grouped -/

variable {body lexemes rest : List String}

lemma groupFrom_quoted {quote : Char} (h : Paired quote.toString body) (buffer : String)
    (done : List Piece) (rest : List String) :
    groupFrom (.quoted quote false) buffer done (body ++ rest) =
      groupFrom (.quoted quote false) (buffer ++ String.join body) done rest := by
  induction h generalizing buffer with
  | nil => simp
  | other hs h ih =>
    rw [cons_append, groupFrom, if_pos (by simpa using hs), ih, String.join_cons,
      String.append_assoc]
  | twice h ih =>
    rw [cons_append, groupFrom, if_neg (by simp), if_neg (by simp), if_pos (by simp),
      cons_append, groupFrom, if_neg (by simp), if_pos rfl, ih, String.join_cons,
      String.join_cons, String.append_assoc, String.append_assoc]

lemma groupFrom_block (h : "*/" ∉ body) (buffer : String) (done : List Piece) (rest : List String) :
    groupFrom .block buffer done (body ++ rest) =
      groupFrom .block (buffer ++ String.join body) done rest := by
  induction body generalizing buffer with
  | nil => simp
  | cons s body ih =>
    obtain ⟨hs, hbody⟩ := not_or.mp (mt mem_cons.mpr h)
    rw [cons_append, groupFrom, if_neg (by simpa using Ne.symm hs), ih hbody,
      String.join_cons, String.append_assoc]

lemma groupFrom_line (h : ∀ s ∈ body, s ∉ lineEnds) (buffer : String) (done : List Piece)
    (rest : List String) : groupFrom .line buffer done (body ++ rest) =
      groupFrom .line (buffer ++ String.join body) done rest := by
  induction body generalizing buffer with
  | nil => simp
  | cons s body ih =>
    have hs : s ∉ lineEnds := h s (by simp)
    rw [cons_append, groupFrom, if_neg (by simpa [lineEnds] using hs),
      ih fun t ht => h t (by simp [ht]), String.join_cons, String.append_assoc]

lemma groupFrom_opening {quote : String} (hquote : quote ∈ quotes) (buffer : String)
    (done : List Piece) : ∃ c : Char, quote = c.toString ∧ ∀ rest,
      groupFrom .plain buffer done (quote :: rest) = groupFrom (.quoted c false) "" done rest := by
  simp only [quotes, mem_cons, not_mem_nil, or_false] at hquote
  rcases hquote with rfl | rfl
  · exact ⟨'"', rfl, fun _ => rfl⟩
  · exact ⟨'\'', rfl, fun _ => rfl⟩

lemma groupFrom_word {s : String} (hs : s ∉ starters) (buffer : String) (done : List Piece)
    (rest : List String) :
    groupFrom .plain buffer done (s :: rest) = groupFrom .plain "" (.word s :: done) rest := by
  simp only [starters, mem_cons, not_mem_nil, or_false, not_or] at hs
  rw [groupFrom]
  all_goals simp_all

/-- Outside of quotes and comments everything before is grouped, and nothing of it is lost. So it is
in front of other lexemes, unless they double the last quote. -/
lemma Outside.exists_done (h : Outside lexemes rest) :
    ∃ done, (∀ more : List String, (∀ s ∈ lexemes.getLast?, more.head? ≠ some s) →
        group (lexemes ++ more) = groupFrom .plain "" done (rest ++ more)) ∧
      Piece.chars done.reverse ++ chars rest = chars lexemes := by
  induction h with
  | start => exact ⟨[], fun _ _ => rfl, rfl⟩
  | @word s rest _ hs ih =>
    obtain ⟨done, hgroup, hchars⟩ := ih
    refine ⟨.word s :: done, fun more hmore => ?_, ?_⟩
    · rw [hgroup more hmore, cons_append, groupFrom_word hs]
    · rw [← hchars]
      simp [Piece.text]
  | @quoted quote body rest hout hquote hbody hrest ih =>
    obtain ⟨done, hgroup, hchars⟩ := ih
    obtain ⟨front, hfront⟩ := hout.suffix
    obtain ⟨c, rfl, hopening⟩ := groupFrom_opening hquote "" done
    refine ⟨.quoted ⟨c, String.join body⟩ :: done, fun more hmore => ?_, ?_⟩
    · have hnext : (rest ++ more).head? ≠ some c.toString := by
        cases rest with
        | nil =>
          rw [← cons_append, ← append_assoc] at hfront
          exact hmore _ (hfront ▸ getLast?_concat)
        | cons s rest => exact hrest
      rw [hgroup more hmore, cons_append, append_assoc, cons_append, hopening,
        groupFrom_quoted hbody, groupFrom, if_neg (by simp), if_neg (by simp),
        if_neg (by simpa using hnext), String.empty_append]
    · rw [← hchars]
      simp [Piece.text, Quoted.text, chars]
  | @block body rest _ hbody ih =>
    obtain ⟨done, hgroup, hchars⟩ := ih
    refine ⟨.comment ("/*" ++ String.join body ++ "*/") :: done, fun more hmore => ?_, ?_⟩
    · rw [hgroup more hmore, cons_append, append_assoc, cons_append, groupFrom,
        groupFrom_block hbody, groupFrom, if_pos (by simp)]
    · rw [← hchars]
      simp [Piece.text, chars]
  | @line lineEnd body rest _ hend hbody ih =>
    obtain ⟨done, hgroup, hchars⟩ := ih
    refine ⟨.comment ("//" ++ String.join body ++ lineEnd) :: done, fun more hmore => ?_, ?_⟩
    · rw [hgroup more hmore, cons_append, append_assoc, cons_append, groupFrom,
        groupFrom_line hbody, groupFrom, if_pos (by simpa [lineEnds] using hend)]
    · rw [← hchars]
      simp [Piece.text, chars]

/-! ### What is grouped is what the grammar allows -/

/-- Where in the grammar the lexemes are grouped, if `rest` is left of them. -/
inductive Mode.At (lexemes : List String) : Mode → List String → Prop where
  | plain {rest : List String} (h : Outside lexemes rest) : At lexemes .plain rest
  | quoted {quote : Char} {body rest : List String} (hquote : quote.toString ∈ quotes)
      (h : Outside lexemes (quote.toString :: (body ++ rest))) (hbody : Paired quote.toString body) :
      At lexemes (.quoted quote false) rest
  | doubled {quote : Char} {body rest : List String} (hquote : quote.toString ∈ quotes)
      (h : Outside lexemes (quote.toString :: (body ++ quote.toString :: rest)))
      (hbody : Paired quote.toString body) (hrest : rest.head? = some quote.toString) :
      At lexemes (.quoted quote true) rest
  | block {body rest : List String} (h : Outside lexemes ("/*" :: (body ++ rest)))
      (hbody : "*/" ∉ body) : At lexemes .block rest
  | line {body rest : List String} (h : Outside lexemes ("//" :: (body ++ rest)))
      (hbody : ∀ s ∈ body, s ∉ lineEnds) : At lexemes .line rest

/-- Grouping fails only at the end of the lexemes, inside a text in quotes. -/
lemma exists_of_groupFrom_eq_error {mode : Mode} {buffer : String} {done : List Piece}
    {fault : Fault} (hat : mode.At lexemes rest)
    (h : groupFrom mode buffer done rest = .error fault) :
    ∃ quote body, Outside lexemes (quote :: body) ∧ quote ∈ quotes ∧ Paired quote body := by
  fun_induction groupFrom mode buffer done rest with
  | case1 | case2 | case3 => cases h
  | case4 quote doubled buffer done =>
    cases hat with
    | doubled _ _ _ hrest => simp at hrest
    | @quoted _ body _ hquote hout hbody =>
      rw [append_nil] at hout
      exact ⟨quote.toString, body, hout, hquote, hbody⟩
  | case5 buffer done rest ih | case6 buffer done rest ih =>
    cases hat with
    | plain hout =>
      exact ih (@Mode.At.quoted _ _ [] _ (by simp [quotes]) hout .nil) h
  | case7 buffer done rest ih =>
    cases hat with
    | plain hout => exact ih (@Mode.At.block _ [] _ hout (by simp)) h
  | case8 buffer done rest ih =>
    cases hat with
    | plain hout => exact ih (@Mode.At.line _ [] _ hout (by simp)) h
  | case9 buffer done lexeme rest h1 h2 h3 h4 ih =>
    cases hat with
    | plain hout =>
      have hword : lexeme ∉ starters := by
        simpa [starters] using ⟨h1, h2, h3, h4⟩
      exact ih (.plain (hout.word hword)) h
  | case10 quote doubled buffer done lexeme rest hq ih =>
    have hne : lexeme ≠ quote.toString := by simpa using hq
    refine ih ?_ h
    cases hat with
    | quoted hquote hout hbody =>
      exact .quoted hquote (by simpa using hout) (hbody.concat_other hne)
    | doubled _ _ _ hrest => exact absurd (by simpa using hrest) hne
  | case11 quote buffer done lexeme rest hq ih =>
    obtain rfl : lexeme = quote.toString := by simpa using hq
    refine ih ?_ h
    cases hat with
    | doubled hquote hout hbody _ => exact .quoted hquote (by simpa using hout) hbody.concat_twice
  | case12 quote doubled buffer done lexeme rest hq hd hn ih =>
    obtain rfl : lexeme = quote.toString := by simpa using hq
    refine ih ?_ h
    cases hat with
    | doubled => exact absurd rfl hd
    | quoted hquote hout hbody => exact .doubled hquote hout hbody (by simpa using hn)
  | case13 quote doubled buffer done lexeme rest hq hd hn ih =>
    obtain rfl : lexeme = quote.toString := by simpa using hq
    refine ih ?_ h
    cases hat with
    | doubled => exact absurd rfl hd
    | quoted hquote hout hbody => exact .plain (hout.quoted hquote hbody (by simpa using hn))
  | case14 buffer done lexeme rest he ih =>
    obtain rfl : lexeme = "*/" := by simpa using he
    cases hat with
    | block hout hbody =>
      exact ih (.plain (hout.block hbody)) h
  | case15 buffer done lexeme rest he ih =>
    have hne : lexeme ≠ "*/" := by simpa using he
    cases hat with
    | @block body _ hout hbody =>
      have hbody' : "*/" ∉ body ++ [lexeme] := by simp [hbody, Ne.symm hne]
      exact ih (.block (by simpa using hout) hbody') h
  | case16 buffer done lexeme rest he ih =>
    have hend : lexeme ∈ lineEnds := by simpa [lineEnds] using he
    cases hat with
    | line hout hbody =>
      exact ih (.plain (hout.line hend hbody)) h
  | case17 buffer done lexeme rest he ih =>
    have hend : lexeme ∉ lineEnds := by simpa [lineEnds] using he
    cases hat with
    | @line body _ hout hbody =>
      have hbody' : ∀ s ∈ body ++ [lexeme], s ∉ lineEnds := by
        intro s hs
        rcases mem_append.mp hs with hs | hs
        · exact hbody s hs
        · rwa [mem_singleton.mp hs]
      exact ih (.line (by simpa using hout) hbody') h

/-- A text in quotes that goes on to the end of the lexemes is an error at its opening quote. -/
lemma group_eq_error {front : List String} {quote : String}
    (hlexemes : lexemes = front ++ quote :: body) (h : Outside lexemes (quote :: body))
    (hquote : quote ∈ quotes) (hbody : Paired quote body) :
    group lexemes = .error (.error (.afterText (String.join front)) "String is not closed") := by
  obtain ⟨done, hgroup, hchars⟩ := h.exists_done
  obtain ⟨c, rfl, hopening⟩ := groupFrom_opening hquote "" done
  have hfront : Piece.chars done.reverse = chars front := by
    have hlexemes := congrArg chars hlexemes
    rw [← hchars] at hlexemes
    simpa [chars] using hlexemes
  have htext : Piece.joined done.reverse = String.join front := by
    apply String.toList_inj.mp
    rw [Piece.toList_joined, hfront]
    simp [chars]
  rw [← append_nil lexemes, hgroup [] (by simp), cons_append, hopening,
    groupFrom_quoted hbody, groupFrom, htext]

/-- Lexing loses nothing of a script, and it fails exactly if the script ends inside a text in quotes.
The error is then at the quote that opens this text. -/
theorem joined_group_and_error_iff (script : String) :
    (∀ pieces, group (split script) = .ok pieces → Piece.joined pieces = script) ∧
    ∀ fault, group (split script) = .error fault ↔ ∃ before, EndsQuoted script before ∧
      fault = .error (.afterText before) "String is not closed" := by
  constructor
  · intro pieces h
    apply String.toList_inj.mp
    rw [Piece.toList_joined, chars_group h, chars_split]
  · intro fault
    constructor
    · intro h
      obtain ⟨quote, body, hout, hquote, hbody⟩ := exists_of_groupFrom_eq_error (.plain .start) h
      obtain ⟨front, hfront⟩ := hout.suffix
      refine ⟨String.join front, ⟨front, quote, body, hfront, rfl, hout, hquote, hbody⟩, ?_⟩
      have hgroup := group_eq_error hfront hout hquote hbody
      exact Except.error.inj (h.symm.trans hgroup)
    · rintro ⟨before, ⟨front, quote, body, hfront, rfl, hout, hquote, hbody⟩, rfl⟩
      exact group_eq_error hfront hout hquote hbody

-- the quote in the comment opens nothing, and the doubled one closes nothing
example : group (split "x /* ' */ =\n 'a'' // b") =
    .error (.error ⟨2, 2⟩ "String is not closed") := by
  rfl

end ArmaScript.Lexeme
