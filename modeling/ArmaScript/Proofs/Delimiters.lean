import ArmaScript.Proofs.Quotes
import ArmaScript.Proofs.Segmentation
import Mathlib.Data.List.DropRight

/-!
# Texts between delimiters

A text is cut at its separators before quotes and comments are put together. For a text in quotes this
makes no difference: whatever it holds, with its quotes doubled it is read back as one piece. For a
comment in a block it does: if an odd number of slashes stands before the closing marker, the last of
them and the asterisk are taken for an opening marker, and the comment goes on.
-/

namespace ArmaScript.Lexeme

open List

/-! ### Texts in quotes -/

def doubled (quote : Char) (text : String) : String :=
  String.ofList (text.toList.flatMap fun c => if c = quote then [c, c] else [c])

/-- Separators that make no pairs. -/
structure Lone (c : Char) : Prop where
  separator : isSeparator c = true
  left : ∀ x, isPair x c = false
  right : ∀ y, isPair c y = false

variable {c quote : Char}

lemma lone_of_pairs (h : isSeparator c = true)
    (hpairs : (pairs.all fun p => !p.toList.contains c) = true) : Lone c := by
  have hpair {p : String} (hp : p ∈ pairs) : c ∉ p.toList := by
    simpa using all_eq_true.mp hpairs p hp
  exact ⟨h, fun x => Bool.eq_false_iff.mpr fun hx => hpair (isPair_iff.mp hx) (by simp),
    fun y => Bool.eq_false_iff.mpr fun hy => hpair (isPair_iff.mp hy) (by simp)⟩

lemma lone_of_mem_quotes (h : quote.toString ∈ quotes) : Lone quote := by
  simp only [quotes, mem_cons, not_mem_nil, or_false, ← String.toList_inj] at h
  obtain rfl | rfl : quote = '"' ∨ quote = '\'' := by simpa using h
  all_goals exact lone_of_pairs (by decide) (by decide)

lemma Lone.splitChars (h : Lone c) (s t : List Char) :
    splitChars [] (s ++ c :: t) = splitChars [] s ++ c.toString :: splitChars [] t :=
  splitChars_append_separator h.separator (fun x _ => h.left x) fun y _ => h.right y

/-- A lexeme lies in the text that is cut. -/
lemma infix_of_mem_splitChars {s : String} {cs : List Char} (h : s ∈ splitChars [] cs) :
    s.toList <:+: cs := by
  obtain ⟨front, back, hsplit⟩ := append_of_mem h
  refine ⟨chars front, chars back, ?_⟩
  have hchars := chars_splitChars [] cs
  rw [hsplit] at hchars
  simpa [chars] using hchars

lemma Paired.append {quote : String} {front body : List String} (h : quote ∉ front)
    (hbody : Paired quote body) : Paired quote (front ++ body) := by
  induction front with
  | nil => exact hbody
  | cons s front ih =>
    obtain ⟨hs, hfront⟩ := not_or.mp (mt mem_cons.mpr h)
    exact .other (Ne.symm hs) (ih hfront)

/-- Cutting keeps doubled quotes side by side. -/
lemma paired_splitChars (hquote : Lone quote) {front : List Char} (hfront : quote ∉ front)
    (text : List Char) : Paired quote.toString (splitChars []
      (front ++ text.flatMap fun c => if c = quote then [c, c] else [c])) := by
  have hplain {cs : List Char} (hcs : quote ∉ cs) : quote.toString ∉ splitChars [] cs := by
    intro h
    exact hcs ((infix_of_mem_splitChars h).subset (by simp))
  induction text generalizing front with
  | nil =>
    have := Paired.append (hplain hfront) .nil
    simpa using this
  | cons c text ih =>
    rw [flatMap_cons]
    split_ifs with hc
    · subst hc
      have htail := @ih [] (by simp)
      rw [cons_append, singleton_append, hquote.splitChars front,
        ← nil_append (c :: _), hquote.splitChars []]
      exact .append (hplain hfront) (.twice htail)
    · rw [← append_assoc]
      exact ih (by simp [hfront, Ne.symm hc])

/-- A text in quotes is read back as one piece, whatever it holds, between texts that have no quote of
the same sort beside it. -/
theorem group_quoted {quote : Char} (hquote : quote.toString ∈ quotes) {before after : String}
    {front back : List Piece} (hfront : group (split before) = .ok front)
    (houtside : Outside (split before) []) (hbefore : before.toList.getLast? ≠ some quote)
    (hback : group (split after) = .ok back) (hafter : after.toList.head? ≠ some quote)
    (text : String) :
    group (split (before ++ quote.toString ++ doubled quote text ++ quote.toString ++ after)) =
      .ok (front ++ .quoted ⟨quote, doubled quote text⟩ :: back) := by
  have hlone := lone_of_mem_quotes hquote
  have hsplit : split (before ++ quote.toString ++ doubled quote text ++ quote.toString ++ after) =
      split before ++ quote.toString :: (split (doubled quote text) ++
        quote.toString :: split after) := by
    simp only [split, String.toList_append, append_assoc]
    rw [← hlone.splitChars, ← hlone.splitChars]
    simp
  have hfirst : ∀ s ∈ (split before).getLast?, some quote.toString ≠ some s := by
    rintro s hs ⟨⟩
    obtain ⟨init, hinit⟩ := getLast?_eq_some_iff.mp hs
    refine hbefore ?_
    rw [← chars_split before, hinit]
    simp [chars]
  have hnext : (split after).head? ≠ some quote.toString := by
    intro h
    obtain ⟨tail, htail⟩ := head?_eq_some_iff.mp h
    refine hafter ?_
    rw [← chars_split after, htail]
    simp
  have hpaired : Paired quote.toString (split (doubled quote text)) := by
    have := @paired_splitChars quote hlone [] (by simp) text.toList
    simpa [split, doubled] using this
  obtain ⟨done, hgroup, -⟩ := houtside.exists_done
  obtain rfl : done.reverse = front := by
    have := hgroup [] (by simp)
    rw [append_nil, hfront] at this
    exact (Except.ok.inj this).symm
  obtain ⟨c, hc, hopening⟩ := groupFrom_opening hquote "" done
  obtain rfl : quote = c := by simpa [← String.toList_inj] using hc
  rw [hsplit, hgroup (quote.toString :: _) hfirst, nil_append, hopening, groupFrom_quoted hpaired, groupFrom,
    if_neg (by simp), if_neg (by simp), if_neg (by simpa using hnext), String.empty_append, join_split]
  have hdone := (groupFrom_done .plain "" [] (.quoted ⟨quote, doubled quote text⟩ :: done) _).1 _ hback
  simpa using hdone

/-- Between a comment and a number, a text that holds both sorts of quotes and the start of a comment.
-/
theorem group_quoted_comment :
    group (split "'a'/*'*/\"b\"\"'//\"1") =
      .ok [.quoted ⟨'\'', "a"⟩, .comment "/*'*/", .quoted ⟨'"', "b\"\"'//"⟩, .word "1"] := by
  have hsplit : split "'a'/*'*/" = ["'", "a", "'", "/*", "'", "*/"] := by decide
  have houtside : Outside (split "'a'/*'*/") [] := by
    rw [hsplit]
    have hquoted : Outside _ ["/*", "'", "*/"] :=
      @Outside.quoted _ "'" ["a"] _ .start (by simp [quotes]) (.other (by decide) .nil) (by simp)
    exact @Outside.block _ ["'"] [] hquoted (by simp)
  exact @group_quoted '"' (by simp [quotes]) _ "1" _ _ rfl houtside (by decide) rfl (by decide)
    "b\"'//"

/-! ### Comments in blocks -/

/-- How many slashes a text ends with. -/
def slashes (text : String) : Nat :=
  (text.toList.rtakeWhile (· == '/')).length

/-- A text is cut up on its own in front of a separator that makes no pair with it. -/
lemma Segmented.behind {rest : List String} (h : Segmented rest) (text : String)
    (hsep : ∀ t ∈ rest.head?, t ∈ separatorTexts)
    (hpair : ∀ c ∈ text.toList.getLast?, ∀ d ∈ (chars rest).head?, isPair c d = false) :
    Segmented (split text ++ rest) := by
  have htext := segmented_split text
  refine ⟨forall_mem_append.mpr ⟨htext.lexeme, h.lexeme⟩,
    isChain_append.mpr ⟨htext.adjoin, h.adjoin, fun s hs t ht => ?_⟩⟩
  refine ⟨fun hword => not_isWord (hsep t ht) hword.2, fun _ c hc d hd hmem => ?_⟩
  have hlast : c ∈ text.toList.getLast? := by
    obtain ⟨init, hinit⟩ := getLast?_eq_some_iff.mp hs
    rw [← chars_split text, hinit]
    simpa [chars] using .inl hc
  have hhead : d ∈ (chars rest).head? := by
    rw [h.head?_chars, ht]
    exact hd
  exact absurd (isPair_iff.mpr hmem) (by simp [hpair c hlast d hhead])

lemma exists_eq_append_slashes (text : String) :
    ∃ front : String, text.toList = front.toList ++ replicate (slashes text) '/' ∧
      front.toList.getLast? ≠ some '/' := by
  refine ⟨String.ofList (text.toList.rdropWhile (· == '/')), ?_, fun hlast => ?_⟩
  · have hslashes : text.toList.rtakeWhile (· == '/') = replicate (slashes text) '/' :=
      eq_replicate_of_mem fun c hc => by simpa using mem_rtakeWhile_imp hc
    rw [← hslashes, String.toList_ofList, rdropWhile_append_rtakeWhile]
  · rw [String.toList_ofList] at hlast
    obtain ⟨hne, hlast⟩ := mem_getLast?_eq_getLast hlast
    exact rdropWhile_last_not _ _ hne (by simp [← hlast])

lemma isPair_slash (hslash : c ≠ '/') (hstar : c ≠ '*') : isPair c '/' = false := by
  unfold isPair
  split <;> simp_all

lemma isPair_star (hslash : c ≠ '/') : isPair c '*' = false := by
  unfold isPair
  split <;> simp_all

lemma chars_slashes (n : Nat) : chars (replicate n "//") = replicate (2 * n) '/' := by
  induction n with
  | zero => rfl
  | succ n ih =>
    rw [replicate_succ, chars_cons, ih]
    rfl

/-- An even number of slashes is cut into pairs, so the pair behind them is found. -/
lemma split_slashes (front : String) (n : Nat) {s : String} (hs : s ∈ pairs) (after : String)
    (hpair : ∀ c ∈ front.toList.getLast?,
      ∀ d ∈ (replicate (2 * n) '/' ++ s.toList).head?, isPair c d = false) :
    split (front ++ String.ofList (replicate (2 * n) '/') ++ s ++ after) =
      split front ++ replicate n "//" ++ s :: split after := by
  have hrow : Segmented (replicate n "//" ++ s :: split after) := by
    clear hpair
    induction n with
    | zero =>
      exact (segmented_split after).separator (mem_separatorTexts.mpr (.inl hs)) (absurd hs)
    | succ n ih => exact ih.separator (by decide) (absurd (by decide))
  have hsep : ∀ t ∈ (replicate n "//" ++ s :: split after).head?, t ∈ separatorTexts := by
    cases n with
    | zero => simpa using mem_separatorTexts.mpr (.inl hs)
    | succ n => simp [replicate_succ, separatorTexts, pairs]
  have hne : replicate (2 * n) '/' ++ s.toList ≠ [] := by
    obtain ⟨c, d, -, rfl⟩ := exists_of_mem_pairs hs
    simp
  have hhead : (chars (replicate n "//" ++ s :: split after)).head? =
      (replicate (2 * n) '/' ++ s.toList).head? := by
    rw [chars_append, chars_cons, chars_slashes, ← append_assoc, head?_append_of_ne_nil _ hne]
  have hsegmented := hrow.behind front hsep (by rwa [hhead])
  rw [append_assoc, ← split_join hsegmented]
  congr 1
  rw [← String.toList_inj, toList_join, chars_append, chars_append, chars_cons, chars_slashes,
    chars_split, chars_split]
  simp

/-- Lexemes behind the opening of a comment: up to its end they are one piece. -/
lemma exists_groupFrom_block (buffer : String) (lexemes : List String) {pieces : List Piece}
    (h : groupFrom .block buffer [] lexemes = .ok pieces) :
    pieces = [.comment (buffer ++ String.join lexemes)] ∨
      ∃ front rest, pieces = .comment (buffer ++ (String.join front ++ "*/")) :: rest := by
  by_cases hmem : "*/" ∈ lexemes
  · obtain ⟨front, back, rfl, hfront⟩ := eq_append_cons_of_mem hmem
    rw [groupFrom_block hfront, groupFrom, if_pos (by simp), String.append_assoc] at h
    have hdone := groupFrom_done .plain "" [] [.comment (buffer ++ (String.join front ++ "*/"))] back
    rw [nil_append] at hdone
    cases hback : groupFrom .plain "" [] back with
    | ok rest =>
      have := h.symm.trans (hdone.1 rest hback)
      exact .inr ⟨front, rest, by simpa using this⟩
    | error e =>
      obtain ⟨e', he'⟩ := hdone.2 e hback
      cases h.symm.trans he'
  · rw [← append_nil lexemes, groupFrom_block hmem, groupFrom] at h
    exact .inl (by simpa using h.symm)

/-- A comment in a block ends at the first closing marker if an even number of slashes stands before
it, and only then, unless the script ends there. -/
theorem group_comment_iff {text after : String} {back : List Piece}
    (htext : ∀ l₁ l₂, (text ++ "*/").toList = l₁ ++ '*' :: '/' :: l₂ → l₂ = [])
    (hback : group (split after) = .ok back) :
    group (split ("/*" ++ text ++ "*/" ++ after)) = .ok (.comment ("/*" ++ text ++ "*/") :: back) ↔
      slashes text % 2 = 0 ∨ after = "" := by
  obtain ⟨front, hslashes, hlast⟩ := exists_eq_append_slashes text
  have hopening (t : String) : group (split ("/*" ++ t)) = groupFrom .block "/*" [] (split t) := by
    rw [split, String.toList_append, group]
    exact congrArg (groupFrom .plain "" []) (splitChars_pair [] (by decide) t.toList)
  have hopen (l₁ l₂ : List Char) : text.toList ≠ l₁ ++ '*' :: '/' :: l₂ := by
    intro h
    simpa using htext l₁ (l₂ ++ ['*', '/']) (by simp [h])
  have hclosing : "*/" ∉ split front := by
    intro h
    obtain ⟨l₁, l₂, h⟩ := infix_of_mem_splitChars h
    exact hopen l₁ (l₂ ++ replicate (slashes text) '/') (by rw [hslashes, ← h]; simp)
  have hslash (c : Char) (hc : c ∈ front.toList.getLast?) (hne : slashes text ≠ 0) :
      isPair c '/' = false := by
    refine isPair_slash (fun h => hlast (h ▸ hc)) fun h => ?_
    obtain ⟨init, hinit⟩ := getLast?_eq_some_iff.mp hc
    obtain ⟨n, hn⟩ := Nat.exists_eq_succ_of_ne_zero hne
    exact hopen init (replicate n '/') (by rw [hslashes, hinit, hn, h]; simp [replicate_succ])
  have hbody (n : Nat) : "*/" ∉ split front ++ replicate n "//" := by simp [hclosing]
  have hjoin (n : Nat) : String.join (split front ++ replicate n "//") =
      front ++ String.ofList (replicate (2 * n) '/') := by
    rw [← String.toList_inj, toList_join, chars_append, chars_slashes, chars_split]
    simp
  rw [String.append_assoc, String.append_assoc, hopening, ← String.append_assoc]
  obtain ⟨n, hn | hn⟩ : ∃ n, slashes text = 2 * n ∨ slashes text = 2 * n + 1 :=
    ⟨slashes text / 2, by omega⟩
  · have hsplit := split_slashes front n (s := "*/") (by decide) after fun c hc d hd => by
      cases n with
      | zero =>
        obtain rfl : '*' = d := by simpa using hd
        exact isPair_star fun h => hlast (h ▸ hc)
      | succ n =>
        obtain rfl : '/' = d := by simpa [Nat.mul_succ, replicate_succ] using hd
        exact hslash c hc (by omega)
    have htext : front ++ String.ofList (replicate (2 * n) '/') = text := by
      rw [← String.toList_inj, hslashes, hn]
      simp
    have hdone := (groupFrom_done .plain "" [] [.comment ("/*" ++ text ++ "*/")] _).1 _ hback
    rw [htext] at hsplit
    rw [hsplit, groupFrom_block (hbody n), groupFrom, if_pos (by simp), hjoin, htext]
    exact iff_of_true hdone (.inl (by omega))
  · have hsplit := split_slashes front n (s := "/*") (by decide) ("/" ++ after) fun c hc d hd => by
      obtain rfl : '/' = d := by cases n <;> simpa [Nat.mul_succ, replicate_succ] using hd
      exact hslash c hc (by omega)
    have htext : front ++ String.ofList (replicate (2 * n) '/') ++ "/" = text := by
      rw [← String.toList_inj, hslashes, hn, replicate_succ']
      simp
    generalize hstem : front ++ String.ofList (replicate (2 * n) '/') = stem at hsplit htext
    -- the marker is read as the start of a comment and a slash
    have hmarker (t : String) : text ++ "*/" ++ t = stem ++ "/*" ++ ("/" ++ t) := by
      rw [← htext, ← String.toList_inj]
      simp
    have hcomment : "/*" ++ text ++ "*/" = "/*" ++ stem ++ "/*" ++ "/" := by
      have := hmarker ""
      rw [String.append_assoc, ← String.append_empty (s := text ++ "*/"), this]
      simp [String.append_assoc]
    rw [hmarker, hsplit, groupFrom_block (hbody n), groupFrom, if_neg (by decide), hjoin, hstem,
      hcomment]
    constructor
    · intro h
      refine .inr ?_
      rcases exists_groupFrom_block _ _ h with hpieces | ⟨front', rest, hpieces⟩
      · have hends := Piece.comment.inj (cons.inj hpieces).1
        rw [join_split, String.append_right_inj] at hends
        simpa using congrArg String.toList hends
      · have hends := Piece.comment.inj (cons.inj hpieces).1
        rw [String.append_right_inj] at hends
        have := congrArg (length ∘ String.toList) hends
        simp at this
    · rintro (h | rfl)
      · omega
      · cases hback
        rfl

/-- Two slashes before the end are a lexeme of their own. -/
theorem group_comment_iff_two_slashes :
    slashes "'//" = 2 ∧ group (split "/*'//*/1") = .ok [.comment "/*'//*/", .word "1"] := by
  have htext : ∀ l₁ l₂, ("'//" ++ "*/").toList = l₁ ++ '*' :: '/' :: l₂ → l₂ = [] := by
    intro l₁ l₂ h
    rcases l₁ with _ | ⟨_, _ | ⟨_, _ | ⟨_, _ | ⟨_, _ | ⟨_, l₁⟩⟩⟩⟩⟩ <;> simp_all
  exact ⟨by decide, (@group_comment_iff _ "1" _ htext rfl).mpr (.inl (by decide))⟩

/-- A slash before the end makes `/*/` of the marker, and what follows is a part of the comment. -/
theorem group_comment_slash :
    (∀ l₁ l₂, ("/" ++ "*/").toList = l₁ ++ '*' :: '/' :: l₂ → l₂ = []) ∧
      group (split "1") = .ok [.word "1"] ∧ group (split "/*/*/1") = .ok [.comment "/*/*/1"] := by
  refine ⟨fun l₁ l₂ h => ?_, by decide, by decide⟩
  rcases l₁ with _ | ⟨_, _ | ⟨_, _ | ⟨_, l₁⟩⟩⟩ <;> simp_all

end ArmaScript.Lexeme
