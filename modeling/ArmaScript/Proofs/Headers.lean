import ArmaScript.Signature.Declaration
import Mathlib.Data.List.Basic

/-!
# Headers of commands

A header declares a command: its name, the kinds that each operand can be of, and the kinds of its
result. Reading a text of headers gives, header by header, a signature for every choice of kinds of the
operands. The underscores between kinds, between sections and inside the names of two kinds are told
apart.
-/

namespace ArmaScript.Declaration

open List

/-- The kinds by their names, word by word: two kinds have names of two words. -/
def named : List (List String × Kind) :=
  kinds.map (fun x => ([x.1], x.2)) ++
    [(["team", "member"], .teamMember), (["diary", "record"], .diaryReport)]

/-- Alternative kinds as a header lists them, none of them twice. -/
structure Alternatives where
  names : List (List String)
  ne_nil : names ≠ []
  known : ∀ n ∈ names, n ∈ named.map Prod.fst
  nodup : names.Nodup

namespace Alternatives

def text (x : Alternatives) : String :=
  "_".intercalate x.names.flatten

/-- The names that count: what is no number needs no kind of its own. -/
def counted (x : Alternatives) : List (List String) :=
  x.names.filter (· != ["nan"])

def kindOf (n : List String) : Kind :=
  (named.lookup n).getD .any

def operands (x : Alternatives) : List Kind :=
  x.counted.map kindOf

/-- The kind of a name as a result, of which `any` says nothing. -/
def resultOf (n : List String) : Kind :=
  if n = ["any"] then .anything else kindOf n

/-- The kind that is known of a result: of several kinds none is. -/
def sole : List (List String) → Kind
  | [n] => resultOf n
  | _ => .anything

/-- The kind of a result. Nothing counts only if it is the single kind. -/
def result (x : Alternatives) : Kind :=
  sole (if x.counted.length > 1 then x.counted.filter (· != ["nothing"]) else x.counted)

end Alternatives

/-- Whether every underscore of a text is followed by another character. -/
def isPart : List Char → Bool
  | [] => true
  | c :: rest => (c != '_' || rest.head?.any (· != '_')) && isPart rest

/-- A header of a command with at most two operands. -/
structure Header where
  lead : String
  name : String
  operands : List Alternatives
  tail : String
  returns : Alternatives
  parts : ∀ s ∈ [lead, name, tail], isPart s.toList = true
  arity : operands.length ≤ 2
  uncorrected : corrections.lookup name = none
  counted : returns.names ≠ [["nan"]]

def Header.line (h : Header) : String :=
  "static " ++ "__".intercalate
    (h.lead :: h.name :: (h.operands.map Alternatives.text ++ [h.tail, h.returns.text ++ ";"]))

def Header.signatures (h : Header) : List Signature :=
  match h.operands with
  | [l, r] => l.operands.flatMap fun a => r.operands.map fun b =>
      .binary a h.name b h.returns.result
  | [r] => r.operands.map fun b => .unary h.name b h.returns.result
  | _ => [.nullary h.name h.returns.result]

inductive Line where
  | header (h : Header)
  | other (text : String) (h : text.startsWith "static " = false)

namespace Line

def text : Line → String
  | .header h => h.line
  | .other text _ => text

def signatures : Line → List Signature
  | .header h => h.signatures
  | .other .. => []

end Line

/-! ### Names of kinds -/

/-- What is left of the words of a name when it is read. -/
def trimmed (n : List String) : List String :=
  ((n.erase "nan").erase "team").erase "record"

/-- A word that stands in one name only can be taken out of that name. -/
lemma erase_flatten {w : String} {ns : List (List String)}
    (h : ns.Pairwise fun a b => w ∈ a → w ∉ b) : ns.flatten.erase w = (ns.map (·.erase w)).flatten := by
  induction ns with
  | nil => rfl
  | cons a ns ih =>
    obtain ⟨ha, hns⟩ := pairwise_cons.mp h
    rw [flatten_cons, erase_append, map_cons, flatten_cons]
    split
    · next hw =>
      have hrest : ns.map (·.erase w) = ns :=
        (map_congr_left fun b hb => erase_of_not_mem (ha b hb hw)).trans (map_id ns)
      rw [hrest]
    · next hw => rw [ih hns, erase_of_not_mem hw]

/-- What is seen of the words of names, name by name. -/
lemma map_flatten_eq {ns : List (List String)} {φ : List String → List String}
    {view : String → Option Kind} {keep : List String → Bool} {kind : List String → Kind}
    (hns : ∀ n ∈ ns, n ∈ named.map Prod.fst)
    (h : ∀ n ∈ named.map Prod.fst, (φ n).map view = if keep n then [some (kind n)] else []) :
    (ns.map φ).flatten.map view = ((ns.filter keep).map kind).map some := by
  induction ns with
  | nil => rfl
  | cons n ns ih =>
    obtain ⟨hn, hns⟩ := forall_mem_cons.mp hns
    rw [map_cons, flatten_cons, map_append, ih hns, h n hn, filter_cons]
    split <;> rfl

lemma partsAt_intercalate {c : Char} {sep : String} {ws : List String} (hsep : sep.toList = [c])
    (hne : ws ≠ []) (h : ∀ w ∈ ws, c ∉ w.toList) : partsAt c (sep.intercalate ws) = ws := by
  rw [partsAt, String.toList_intercalate, hsep, splitOn_intercalate, map_map]
  · exact (map_congr_left fun w _ => String.ofList_toList).trans (map_id _)
  · exact forall_mem_map.mpr h
  · simpa using hne

lemma filter_bne_ne_nil {l : List (List String)} {a : List String} (hnodup : l.Nodup) (hne : l ≠ [])
    (ha : l ≠ [a]) : l.filter (· != a) ≠ [] := by
  rw [← hnodup.erase_eq_filter]
  simp [erase_eq_nil_iff, hne, ha]

namespace Alternatives

variable (x : Alternatives)

/-- The words that are taken out stand in one name only. -/
lemma erase_names {w : String} {φ : List String → List String}
    (hw : w ∈ ["nan", "team", "record", "nothing"]) (hφ : ∀ n, w ∈ φ n → w ∈ n) :
    (x.names.map φ).flatten.erase w = (x.names.map fun n => (φ n).erase w).flatten := by
  have hone : ∀ w ∈ ["nan", "team", "record", "nothing"], ∀ a ∈ named.map Prod.fst,
      ∀ b ∈ named.map Prod.fst, w ∈ a → w ∈ b → a = b := by decide +kernel
  rw [erase_flatten, map_map]
  · rfl
  · exact pairwise_map.mpr (x.nodup.imp_of_mem fun ha hb hne hwa hwb =>
      hne (hone w hw _ (x.known _ ha) _ (x.known _ hb) (hφ _ hwa) (hφ _ hwb)))

lemma words : ∀ w ∈ x.names.flatten, w.toList ≠ [] ∧ '_' ∉ w.toList := by
  have hword : ∀ n ∈ named.map Prod.fst, ∀ w ∈ n, w.toList ≠ [] ∧ '_' ∉ w.toList := by decide +kernel
  intro w hw
  obtain ⟨n, hn, hw⟩ := mem_flatten.mp hw
  exact hword n (x.known n hn) w hw

lemma flatten_ne_nil : x.names.flatten ≠ [] := by
  have hname : ∀ n ∈ named.map Prod.fst, n ≠ [] := by decide +kernel
  obtain ⟨n, hn⟩ := exists_mem_of_ne_nil _ x.ne_nil
  exact fun h => hname n (x.known n hn) (flatten_eq_nil_iff.mp h n hn)

lemma names_text : Declaration.names x.text = (x.names.map trimmed).flatten := by
  have hparts : partsAt '_' x.text = x.names.flatten :=
    partsAt_intercalate rfl x.flatten_ne_nil fun w hw => (x.words w hw).2
  have hnan := x.erase_names (w := "nan") (φ := id) (by simp) fun _ => id
  rw [map_id] at hnan
  rw [Declaration.names, hparts, hnan, x.erase_names, x.erase_names]
  · rfl
  · simp
  · exact fun _ h => mem_of_mem_erase (mem_of_mem_erase h)
  · simp
  · exact fun _ => mem_of_mem_erase

lemma lookup_names : (Declaration.names x.text).map (kinds.lookup ·) = x.operands.map some := by
  rw [names_text]
  exact map_flatten_eq x.known (by decide +kernel)

def seen (word : String) : Option Kind :=
  if word == "any" then some .anything else kinds.lookup word

lemma resultKind_of_seen {words : List String} {left : List (List String)} (hne : left ≠ [])
    (h : words.map seen = (left.map resultOf).map some) :
    (match words with
      | [] => .error .outOfRange
      | [word] => if word == "any" then .ok .anything else operandKind word
      | _ => .ok .anything) = Except.ok (sole left) := by
  rcases left with _ | ⟨n, _ | ⟨n', left⟩⟩
  · exact absurd rfl hne
  · obtain ⟨word, rest, rfl, hword, hrest⟩ := map_eq_cons_iff.mp h
    obtain rfl := map_eq_nil_iff.mp hrest
    simp only [seen] at hword
    simp only [sole, operandKind]
    grind
  · obtain ⟨word, rest, rfl, _, hrest⟩ := map_eq_cons_iff.mp h
    obtain ⟨word', rest, rfl, _, _⟩ := map_eq_cons_iff.mp hrest
    rfl

lemma resultKind_text (h : x.names ≠ [["nan"]]) : resultKind x.text = .ok x.result := by
  have hwords : ((x.names.map trimmed).flatten).map seen = (x.counted.map resultOf).map some :=
    map_flatten_eq x.known (by decide +kernel)
  have hothers : ((x.names.map trimmed).flatten.erase "nothing").map seen =
      ((x.counted.filter (· != ["nothing"])).map resultOf).map some := by
    rw [x.erase_names (by simp), counted, filter_filter]
    · exact map_flatten_eq x.known (by decide +kernel)
    · exact fun _ h => mem_of_mem_erase (mem_of_mem_erase (mem_of_mem_erase h))
  have hlength : (x.names.map trimmed).flatten.length = x.counted.length := by
    simpa only [length_map] using congrArg length hwords
  have hcounted : x.counted ≠ [] := filter_bne_ne_nil x.nodup x.ne_nil h
  unfold resultKind result
  simp only [names_text, hlength]
  by_cases hmore : x.counted.length > 1
  · have hothers_ne : x.counted ≠ [["nothing"]] := fun hone => by simp [hone] at hmore
    simp only [hmore, if_true]
    exact resultKind_of_seen (filter_bne_ne_nil (x.nodup.filter _) hcounted hothers_ne) hothers
  · simp only [hmore, if_false]
    exact resultKind_of_seen hcounted hwords

end Alternatives

/-! ### Signatures -/

lemma mapM_operandKind {β : Type} {words : List String} {ks : List Kind} {g : Kind → Except Fault β}
    (h : words.map (kinds.lookup ·) = ks.map some) :
    (words.mapM fun w => operandKind w >>= g) = ks.mapM g := by
  induction ks generalizing words with
  | nil => rw [map_eq_nil_iff.mp h, mapM_nil, mapM_nil]
  | cons k ks ih =>
    obtain ⟨w, words, rfl, hw, hrest⟩ := map_eq_cons_iff.mp h
    rw [mapM_cons, mapM_cons, ih hrest, operandKind, hw]
    rfl

lemma signatures_eq_ok (h : Header) :
    Declaration.signatures h.name (h.operands.map Alternatives.text) h.returns.result =
      .ok h.signatures := by
  obtain ⟨lead, name, operands, tail, returns, parts, arity, uncorrected, counted⟩ := h
  rcases operands with _ | ⟨l, _ | ⟨r, _ | ⟨x, xs⟩⟩⟩
  · rfl
  · simp only [signatures, Header.signatures, map_cons, map_nil]
    rw [mapM_operandKind l.lookup_names, mapM_pure]
    rfl
  · simp only [signatures, Header.signatures, map_cons, map_nil]
    simp only [mapM_operandKind r.lookup_names, mapM_pure]
    rw [mapM_operandKind l.lookup_names, mapM_pure, flatMap_def]
    rfl
  · simp at arity

/-! ### Sections of a line -/

lemma sectionsFrom_append {p b r : List Char} (h : isPart p = true) :
    sectionsFrom b (p ++ r) = sectionsFrom (p.reverse ++ b) r := by
  induction p generalizing b with
  | nil => rfl
  | cons c p ih =>
    simp only [isPart, Bool.and_eq_true, Bool.or_eq_true, bne_iff_ne] at h
    obtain ⟨hc, hp⟩ := h
    rw [cons_append, sectionsFrom, ih hp, reverse_cons, append_assoc]
    · rfl
    · intro rest' hunder hrest
      rcases p with _ | ⟨d, p⟩ <;> simp_all

lemma sectionsFrom_intercalate {p : List Char} {ps : List (List Char)}
    (h : ∀ q ∈ p :: ps, isPart q = true) :
    sectionsFrom [] (['_', '_'].intercalate (p :: ps)) = (p :: ps).map String.ofList := by
  induction ps generalizing p with
  | nil => simpa [sectionsFrom] using sectionsFrom_append (b := []) (r := []) (h p (by simp))
  | cons q ps ih =>
    obtain ⟨hp, hrest⟩ := forall_mem_cons.mp h
    rw [intercalate_cons_cons, append_assoc, sectionsFrom_append hp, append_nil, map_cons, ← ih hrest]
    simp [sectionsFrom]

lemma isPart_append {p q : List Char} (hp : isPart p = true) (hq : isPart q = true) :
    isPart (p ++ q) = true := by
  induction p with
  | nil => exact hq
  | cons c p ih =>
    simp only [isPart, Bool.and_eq_true] at hp
    rw [cons_append, isPart, ih hp.2, Bool.and_true]
    rcases p with _ | ⟨d, p⟩ <;> simp_all

lemma isPart_of_not_mem {p : List Char} (h : '_' ∉ p) : isPart p = true := by
  induction p with
  | nil => rfl
  | cons c p ih =>
    obtain ⟨hc, hp⟩ := not_or.mp (mem_cons.not.mp h)
    simp [isPart, ih hp, Ne.symm hc]

lemma isPart_intercalate {w : List Char} {ws : List (List Char)}
    (h : ∀ v ∈ w :: ws, v ≠ [] ∧ '_' ∉ v) : isPart ('_' :: ['_'].intercalate (w :: ws)) = true := by
  have hfirst : ∀ {v r}, v ≠ [] ∧ '_' ∉ v → isPart r = true →
      isPart ('_' :: (v ++ r)) = true := by
    rintro (_ | ⟨c, v⟩) r ⟨hne, hv⟩ hr
    · exact absurd rfl hne
    · rw [isPart, isPart_append (isPart_of_not_mem hv) hr]
      simp [Ne.symm (not_or.mp (mem_cons.not.mp hv)).1]
  obtain ⟨hw, hws⟩ := forall_mem_cons.mp h
  induction ws generalizing w with
  | nil => simpa using hfirst hw (r := []) rfl
  | cons v ws ih =>
    rw [intercalate_cons_cons, append_assoc]
    exact hfirst hw (ih hws (hws v mem_cons_self) fun u hu => hws u (mem_cons_of_mem v hu))

lemma Alternatives.isPart_text (x : Alternatives) : isPart x.text.toList = true := by
  have hwords : ∀ v ∈ x.names.flatten.map String.toList, v ≠ [] ∧ '_' ∉ v := forall_mem_map.mpr x.words
  obtain ⟨w, ws, hcons⟩ := exists_cons_of_ne_nil (mt map_eq_nil_iff.mp x.flatten_ne_nil)
  rw [hcons] at hwords
  have h := isPart_intercalate hwords
  rw [isPart, Bool.and_eq_true] at h
  rw [text, String.toList_intercalate, hcons]
  exact h.2

/-! ### Reading -/

lemma Header.toList_line (h : Header) : h.line.toList = ['_', '_'].intercalate
    (("static ".toList ++ h.lead.toList) :: ((h.name :: (h.operands.map Alternatives.text ++
      [h.tail, h.returns.text ++ ";"])).map String.toList)) := by
  rw [line, String.toList_append, String.toList_intercalate, map_cons, map_cons, intercalate_cons_cons,
    intercalate_cons_cons, append_assoc, append_assoc, append_assoc]
  rfl

lemma Header.sections_line (h : Header) : sectionsFrom [] h.line.toList =
    ("static " ++ h.lead) :: h.name :: (h.operands.map Alternatives.text ++
      [h.tail, h.returns.text ++ ";"]) := by
  have hparts := h.parts
  simp only [forall_mem_cons, not_mem_nil, false_implies, implies_true, and_true] at hparts
  rw [toList_line, sectionsFrom_intercalate, map_cons, map_map]
  · simp [-String.reduceToList, String.ofList_append]
  · simp only [forall_mem_cons, forall_mem_map, forall_mem_append, String.toList_append]
    exact ⟨isPart_append (by decide +kernel) hparts.1, hparts.2.1, fun x _ => x.isPart_text, hparts.2.2,
      isPart_append h.returns.isPart_text (by decide +kernel), by simp⟩

lemma ofLine_header (h : Header) : ofLine h.line = .ok (some h.signatures) := by
  have hstart : h.line.startsWith "static " = true := by
    rw [String.startsWith_string_iff, Header.line, String.toList_append]
    exact prefix_append _ _
  have harity := h.arity
  have hreturns : resultKind (dropLast (h.returns.text ++ ";")) = .ok h.returns.result := by
    rw [← h.returns.resultKind_text h.counted]
    simp [dropLast, String.toList_append]
  have hshort : ¬(h.operands.length + 2 < 2 ∨ h.operands.length + 2 > 4) := by omega
  have hlast : (h.operands.map Alternatives.text ++ [h.tail, h.returns.text ++ ";"]).getLast? =
      some (h.returns.text ++ ";") := by simp
  have htake : (h.operands.map Alternatives.text ++ [h.tail, h.returns.text ++ ";"]).take
      h.operands.length = h.operands.map Alternatives.text := take_left' (length_map _)
  simp only [ofLine, hstart, h.sections_line, h.uncorrected, length_append, length_map, length_cons,
    length_nil, Bool.or_eq_true, decide_eq_true_eq, hshort, Nat.add_sub_cancel, hlast, htake,
    Option.getD_some, hreturns, Bool.not_true, if_false]
  exact congrArg (· >>= fun x => pure (some x)) (signatures_eq_ok h)

lemma ofLine_text (l : Line) : ofLine l.text = .ok (some l.signatures) := by
  cases l with
  | header h => exact ofLine_header h
  | other text h =>
    simp only [ofLine, Line.text, h]
    rfl

lemma readLines_text (lines : List Line) (found : List Signature) (unread : List String) :
    readLines (lines.map Line.text) ⟨found, unread⟩ =
      .ok () ⟨found ++ lines.flatMap Line.signatures, unread⟩ := by
  induction lines generalizing found with
  | nil => rw [flatMap_nil, append_nil]; rfl
  | cons l lines ih =>
    rw [map_cons, readLines, ofLine_text]
    exact (ih _).trans (by rw [flatMap_cons, append_assoc])

/-- Reading a text of headers and other lines gives, line by line, the signatures of its headers, and
every line is read. -/
theorem read_lines (lines : List Line) (h : ∀ l ∈ lines, '\n' ∉ l.text.toList) :
    read ("\n".intercalate (lines.map Line.text)) = .ok () ⟨lines.flatMap Line.signatures, []⟩ := by
  by_cases hlines : lines = []
  · subst hlines
    rfl
  · rw [read, partsAt_intercalate rfl (mt map_eq_nil_iff.mp hlines) (forall_mem_map.mpr h),
      readLines_text]
    rfl

/-- A header of a command between two operands, after a line that declares nothing. -/
def joining : List Line := [
  .other "#pragma once" (by decide +kernel),
  .header {
    lead := "binary", name := "join", tail := "ret",
    operands := [⟨[["team", "member"], ["object"]], by decide, by decide +kernel, by decide⟩,
      ⟨[["group"], ["nan"]], by decide, by decide +kernel, by decide⟩],
    returns := ⟨[["nothing"], ["nan"], ["bool"]], by decide, by decide +kernel, by decide⟩,
    parts := by decide +kernel, arity := by decide, uncorrected := by decide +kernel,
    counted := by decide }]

theorem read_lines_joining :
    read ("\n".intercalate (joining.map Line.text)) = .ok () ⟨joining.flatMap Line.signatures, []⟩ ∧
      "\n".intercalate (joining.map Line.text) =
        "#pragma once\nstatic binary__join__team_member_object__group_nan__ret__nothing_nan_bool;" ∧
      joining.flatMap Line.signatures = [.binary .teamMember "join" .group (some .boolean),
        .binary .object "join" .group (some .boolean)] :=
  ⟨read_lines joining (by decide +kernel), by decide +kernel, by decide +kernel⟩

end ArmaScript.Declaration
