import ArmaScript.Proofs.Reading

/-!
# Nested brackets

Tokens are nested if every closing bracket closes the bracket that was opened last, is of its kind, and
none is left open. The reader refuses a bracket that is never closed and one that closes nothing. What it
lets through is a closing bracket of another kind than the innermost open one, as long as a bracket of
its own kind is open further out.
-/

namespace ArmaScript

/-- Tokens in which every bracket is closed by one of its own kind. -/
inductive Nested : List Atom → Prop where
  | nil : Nested []
  | token {a : Atom} {rest : List Atom} (ho : a.opens? = none) (hc : a.closes? = none)
      (hrest : Nested rest) : Nested (a :: rest)
  | group {o c : Atom} {k : Bracket} {inner rest : List Atom} (ho : o.opens? = some k)
      (hc : c.closes? = some k) (hinner : Nested inner) (hrest : Nested rest) :
      Nested (o :: inner ++ c :: rest)

/-- Somewhere a bracket is closed by one of another kind. -/
def Crosses (tokens : List Atom) : Prop :=
  ∃ before o inner c after k k', tokens = before ++ o :: inner ++ c :: after ∧
    Atom.opens? o = some k ∧ Atom.closes? c = some k' ∧ k ≠ k' ∧ Nested inner

lemma Nested.append {xs ys : List Atom} (hx : Nested xs) (hy : Nested ys) : Nested (xs ++ ys) := by
  induction hx with
  | nil => exact hy
  | token ho hc _ ih => exact .token ho hc ih
  | group ho hc hinner _ _ ih =>
    rw [List.append_assoc, List.cons_append]
    exact .group ho hc hinner ih

variable {tokens : List Atom}

lemma Crosses.append (h : Crosses tokens) (front back : List Atom) :
    Crosses (front ++ tokens ++ back) := by
  obtain ⟨before, o, inner, c, after, k, k', rfl, h⟩ := h
  exact ⟨front ++ before, o, inner, c, after ++ back, k, k', by simp, h⟩

/-- The open brackets behind some tokens, the innermost first, if each is closed by one of its kind. -/
def openAfter : List Bracket → List Atom → Option (List Bracket)
  | stack, [] => some stack
  | stack, a :: rest =>
    match a.opens?, a.closes?, stack with
    | some k, _, stack => openAfter (k :: stack) rest
    | none, none, stack => openAfter stack rest
    | none, some k, k' :: stack => if k = k' then openAfter stack rest else none
    | none, some _, [] => none

lemma openAfter_opening {a : Atom} {k : Bracket} (h : a.opens? = some k) (stack : List Bracket)
    (rest : List Atom) : openAfter stack (a :: rest) = openAfter (k :: stack) rest := by
  simp [openAfter, h]

lemma openAfter_append (stack : List Bracket) (xs ys : List Atom) :
    openAfter stack (xs ++ ys) = (openAfter stack xs).bind fun stack => openAfter stack ys := by
  fun_induction openAfter stack xs <;> simp_all [openAfter]

lemma openAfter_of_nested (h : Nested tokens) (stack : List Bracket) :
    openAfter stack tokens = some stack := by
  induction h generalizing stack with
  | nil => rfl
  | token ho hc _ ih => simp [openAfter, ho, hc, ih]
  | group ho hc _ _ ihinner ihrest =>
    rw [List.cons_append, openAfter_opening ho, openAfter_append, ihinner]
    simp [openAfter, Atom.opens?_of_closes? hc, hc, ihrest]

lemma openAfter_of_crosses (h : Crosses tokens) (stack : List Bracket) :
    openAfter stack tokens = none := by
  obtain ⟨before, o, inner, c, after, k, k', rfl, ho, hc, hne, hinner⟩ := h
  rw [List.append_assoc, openAfter_append]
  cases hbefore : openAfter stack before with
  | none => rfl
  | some stack' =>
    change openAfter stack' (o :: (inner ++ c :: after)) = none
    rw [openAfter_opening ho, openAfter_append, openAfter_of_nested hinner]
    simp [openAfter, Atom.opens?_of_closes? hc, hc, Ne.symm hne]

lemma not_crosses_of_nested (h : Nested tokens) : ¬ Crosses tokens := by
  intro hc
  have := openAfter_of_nested h []
  rw [openAfter_of_crosses hc] at this
  cases this

namespace Item

/-- The atoms among the tokens of several items. -/
def atoms (is : List Item) : List Atom :=
  (flatList is).filterMap Tree.atom?

lemma atoms_append (is js : List Item) : atoms (is ++ js) = atoms is ++ atoms js := by
  simp [atoms]

lemma atoms_group {o c : Tree} {k k' : Bracket} (ho : o.opens? = some k)
    (hc : c.closes? = some k') (content : List Item) : atoms [.group o c content] =
      .mark k.openingText :: atoms content ++ [.mark k'.closingText] := by
  obtain ⟨i, rfl⟩ := Build.eq_atom_of_opens? ho
  obtain ⟨j, rfl⟩ := Build.eq_atom_of_closes? hc
  simp [atoms, Tree.atom?]

mutual

/-- If an item is not nested, a closing bracket in it is of another kind than the one it closes. -/
theorem nested_or_crosses {around : List Bracket} :
    ∀ i : Item, i.Open around → Nested (atoms [i]) ∨ Crosses (atoms [i])
  | .token t, h => by
    obtain ⟨ho, hc⟩ := h
    cases t with
    | atom id a => exact .inl (.token ho hc .nil)
    | _ => exact .inl .nil
  | .group o c content, h => by
    obtain ⟨k, ho, ⟨k', hc, -⟩, hcontent⟩ := h
    rw [atoms_group ho hc]
    rcases nested_or_crosses_list content hcontent with hn | hx
    · by_cases hk : k = k'
      · subst hk
        exact .inl (.group (Atom.opens?_openingText k) (Atom.closes?_closingText k) hn .nil)
      · refine .inr ⟨[], _, atoms content, _, [], k, k', rfl, by simp, by simp, hk, hn⟩
    · exact .inr (hx.append [_] _)

theorem nested_or_crosses_list {around : List Bracket} :
    ∀ is : List Item, OpenList around is → Nested (atoms is) ∨ Crosses (atoms is)
  | [], _ => .inl .nil
  | i :: is, h => by
    rw [OpenList] at h
    rw [← List.singleton_append, atoms_append]
    rcases nested_or_crosses i h.1 with hi | hi
    · rcases nested_or_crosses_list is h.2 with his | his
      · exact .inl (hi.append his)
      · exact .inr (by simpa using his.append (atoms [i]) [])
    · exact .inr (by simpa using hi.append [] (atoms is))

end

end Item

namespace Script

lemma filterMap_leaves (firstId : NodeId) (tokens : List Atom) :
    (leaves firstId tokens).filterMap Tree.atom? = tokens := by
  induction tokens generalizing firstId with
  | nil => rfl
  | cons a as ih => simp [leaves, Tree.atom?, ih]

/-- The brackets of a script that is read are nested, unless a closing bracket is of another kind than
the one it closes. -/
theorem nested_iff_not_crosses {text : String} {firstId : NodeId} {script : Script}
    {tokens : List Atom} (hlex : Atom.lex text = .ok tokens)
    (hplain : ∀ a ∈ tokens, a.isReplacing = false) (hread : read text firstId = .ok script) :
    Nested tokens ↔ ¬ Crosses tokens := by
  obtain ⟨content, hcontent⟩ := exists_outlined hlex hplain hread
  have hatoms : Item.atoms content = tokens := by
    rw [Item.atoms, hcontent.tokens, filterMap_leaves]
  constructor
  · exact not_crosses_of_nested
  · intro hx
    rcases Item.nested_or_crosses_list content hcontent.fits with hn | hc
    · rwa [hatoms] at hn
    · rw [hatoms] at hc
      exact absurd hc hx

theorem nested_iff_not_crosses_array :
    ∃ script tokens, read "[(\"a\"),\x7b\x7d]" 0 = .ok script ∧
      Atom.lex "[(\"a\"),\x7b\x7d]" = .ok tokens ∧ (∀ a ∈ tokens, a.isReplacing = false) ∧
      (Nested tokens ↔ ¬ Crosses tokens) := by
  obtain ⟨script, hread, -⟩ := exists_eq_ok_of_any
    (x := read "[(\"a\"),\x7b\x7d]" 0) (p := fun _ => true) (by decide +kernel)
  obtain ⟨tokens, hlex, hall⟩ := exists_eq_ok_of_any
    (x := Atom.lex "[(\"a\"),\x7b\x7d]") (p := (·.all fun a => !a.isReplacing)) (by decide +kernel)
  have hplain : ∀ a ∈ tokens, a.isReplacing = false := by simpa using hall
  exact ⟨script, tokens, hread, hlex, hplain, nested_iff_not_crosses hlex hplain hread⟩

/-- A parenthesis that is closed by the bracket of the array around it is read. -/
theorem read_crossed_parenthesis :
    ∃ script tokens, read "[(\"a\"]]" 0 = .ok script ∧ Atom.lex "[(\"a\"]]" = .ok tokens ∧
      (∀ a ∈ tokens, a.isReplacing = false) ∧ ¬ Nested tokens := by
  obtain ⟨script, hread, -⟩ := exists_eq_ok_of_any
    (x := read "[(\"a\"]]" 0) (p := fun _ => true) (by decide +kernel)
  obtain ⟨tokens, hlex, htokens⟩ := exists_eq_ok_of_any (x := Atom.lex "[(\"a\"]]")
    (p := fun tokens => (tokens.all fun a => !a.isReplacing) && (openAfter [] tokens).isNone)
    (by decide +kernel)
  obtain ⟨hall, hnone⟩ : (∀ a ∈ tokens, a.isReplacing = false) ∧ openAfter [] tokens = none := by
    simpa using htokens
  refine ⟨script, tokens, hread, hlex, hall, fun hn => ?_⟩
  rw [openAfter_of_nested hn] at hnone
  cases hnone

end Script

end ArmaScript
