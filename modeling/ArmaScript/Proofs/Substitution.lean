import ArmaScript.Proofs.Tokens

/-!
# Substitution

Arguments take the place of the parameters in the body of a definition. The body may have parentheses,
code and arrays in it. Substitution goes into parentheses, at any depth, and puts each argument there,
but it takes code and arrays as they are. The tokens of the result are therefore those of the body with
every parameter replaced exactly if no code and no array holds a parameter.
-/

namespace ArmaScript

open List

namespace Tree

/-- What stands in the place of a token: the argument for it if it is a parameter, else the token. -/
def argumentAtom (parameters : List String) (arguments : List Tree) (a : Atom) : Atom :=
  if a.text ∈ parameters then ((arguments[parameters.idxOf a.text]?).bind atom?).getD a else a

/-- The tokens before the content of a statement. -/
def openingAtoms (bracketed : Bool) : List Atom :=
  if bracketed then [.mark "("] else []

/-- The tokens behind the content of a statement. -/
def closingAtoms (bracketed : Bool) (ending : Option Ending) : List Atom :=
  (if bracketed then [.mark ")"] else []) ++ Build.endingAtoms ending

mutual

/-- A node as it is written in the body of a definition: a token, a statement with the brackets and the
ending that it says it has, code or an array. -/
def Framed : Tree → Prop
  | .atom .. => True
  | .statement _ bracketed ending cs => FramedList cs ∧ ∃ front content back,
      cs = front ++ content ++ back ∧ front.map atom? = (openingAtoms bracketed).map some ∧
      back.map atom? = (closingAtoms bracketed ending).map some
  | .code _ cs => ∃ opening rest, cs = opening :: rest ∧ opening.text = "\x7b"
  | .array _ cs => ∃ opening rest, cs = opening :: rest ∧ opening.text = "["
  | _ => False

/-- Nodes as they are written in the body of a definition. -/
def FramedList : List Tree → Prop
  | [] => True
  | t :: ts => t.Framed ∧ FramedList ts

end

mutual

/-- The code and the arrays of a node, those inside others not counted. -/
def enclosed : Tree → List Tree
  | .atom .. => []
  | .statement _ _ _ cs => enclosedList cs
  | t => [t]

/-- The code and the arrays of several nodes, those inside others not counted. -/
def enclosedList : List Tree → List Tree
  | [] => []
  | t :: ts => t.enclosed ++ enclosedList ts

end

mutual

/-- The tokens of a node, with arguments in the place of the parameters outside code and arrays. -/
def substituted (parameters : List String) (arguments : List Tree) : Tree → List Atom
  | .atom _ a => [argumentAtom parameters arguments a]
  | .statement _ _ _ cs => substitutedList parameters arguments cs
  | t => t.atoms

/-- The tokens of several nodes, with arguments in the place of the parameters outside code and
arrays. -/
def substitutedList (parameters : List String) (arguments : List Tree) : List Tree → List Atom
  | [] => []
  | t :: ts => t.substituted parameters arguments ++ substitutedList parameters arguments ts

end

section

variable {parameters : List String} {arguments : List Tree}

lemma substitutedList_append (ts us : List Tree) : substitutedList parameters arguments (ts ++ us) =
      substitutedList parameters arguments ts ++ substitutedList parameters arguments us := by
  induction ts with
  | nil => rfl
  | cons t ts ih => simp [substitutedList, ih]

mutual

theorem length_substituted : ∀ t : Tree, (t.substituted parameters arguments).length = t.atoms.length
  | .atom .. => rfl
  | .statement _ _ _ cs => length_substitutedList cs
  | .code .. | .array .. | .define .. | .conditional .. | .expansion .. | .resolution .. => rfl

theorem length_substitutedList :
    ∀ ts : List Tree, (substitutedList parameters arguments ts).length = (atomsList ts).length
  | [] => rfl
  | t :: ts => by
    rw [substitutedList, atomsList_cons, length_append, length_append, length_substituted t,
      length_substitutedList ts]

end

mutual

/-- Every parameter of a node is replaced exactly if its code and its arrays have none. -/
theorem substituted_eq_map_iff : ∀ t : Tree,
    t.substituted parameters arguments = t.atoms.map (argumentAtom parameters arguments) ↔
      ∀ c ∈ t.enclosed, c.atoms = c.atoms.map (argumentAtom parameters arguments)
  | .atom .. => by simp [substituted, enclosed]
  | .statement _ _ _ cs => substitutedList_eq_map_iff cs
  | .code .. | .array .. | .define .. | .conditional .. | .expansion .. | .resolution .. => by
    simp [substituted, enclosed]

theorem substitutedList_eq_map_iff : ∀ ts : List Tree,
    substitutedList parameters arguments ts =
        (atomsList ts).map (argumentAtom parameters arguments) ↔
      ∀ c ∈ enclosedList ts, c.atoms = c.atoms.map (argumentAtom parameters arguments)
  | [] => by simp [substitutedList, enclosedList]
  | t :: ts => by
    have hlength : (t.substituted parameters arguments).length =
        (t.atoms.map (argumentAtom parameters arguments)).length := by
      rw [length_map, length_substituted]
    rw [substitutedList, atomsList_cons, map_append, enclosedList, forall_mem_append,
      ← substituted_eq_map_iff t, ← substitutedList_eq_map_iff ts]
    constructor
    · exact fun h => append_inj h hlength
    · exact fun h => by rw [h.1, h.2]

end

lemma of_map_atom? {ts : List Tree} {as : List Atom} (h : ts.map atom? = as.map some) :
    ts.length = as.length ∧ atomsList ts = as ∧
      substitutedList parameters arguments ts = as.map (argumentAtom parameters arguments) := by
  induction ts generalizing as with
  | nil =>
    obtain rfl : as = [] := by simpa using h.symm
    exact ⟨rfl, rfl, rfl⟩
  | cons t ts ih =>
    cases as with
    | nil => cases h
    | cons a as =>
      obtain ⟨ht, hts⟩ := List.cons.inj h
      obtain ⟨hlength, hatoms, hsubstituted⟩ := ih hts
      cases t with
      | atom id b =>
        cases ht
        exact ⟨by simp [hlength], by simp [hatoms], by simp [substitutedList, substituted, hsubstituted]⟩
      | _ => cases ht

end

/-- The content of a statement is what stands between its brackets and before its ending. -/
lemma content_eq {front content back : List Tree} {b : Bool} {ending : Option Ending}
    (hfront : front.length = (openingAtoms b).length)
    (hback : back.length = (closingAtoms b ending).length) (id : NodeId) :
    (Tree.statement id b ending (front ++ content ++ back)).content = content := by
  cases b with
  | false =>
    obtain rfl := length_eq_zero_iff.mp hfront
    cases ending with
    | none =>
      obtain rfl := length_eq_zero_iff.mp hback
      simp [Tree.content]
    | some e =>
      obtain ⟨x, rfl⟩ := length_eq_one_iff.mp hback
      simp [Tree.content]
  | true =>
    obtain ⟨x, rfl⟩ := length_eq_one_iff.mp hfront
    cases ending with
    | none =>
      obtain ⟨y, rfl⟩ := length_eq_one_iff.mp hback
      simp [Tree.content]
    | some e =>
      obtain ⟨y, z, rfl⟩ := length_eq_two.mp hback
      have hsplit : [x] ++ content ++ [y, z] = [x] ++ content ++ [y] ++ [z] := by simp
      change ([x] ++ content ++ [y, z]).dropLast.tail.dropLast = content
      rw [hsplit, dropLast_concat]
      simp

end Tree

open Tree (argumentAtom atomsList closingAtoms openingAtoms substituted substitutedList)

namespace Build

/-- A name has no brackets, commas and semicolons in it. -/
def IsName (name : String) : Prop :=
  ∀ c ∈ name.toList, c ∉ ['(', ')', '[', ']', '\x7b', '\x7d', ';', ',']

lemma argumentOf?_eq (text : String) (parameters : List String) (arguments : List Tree) :
    argumentOf? text parameters arguments =
      if text ∈ parameters then arguments[parameters.idxOf text]? else none := by
  unfold argumentOf?
  induction parameters generalizing arguments with
  | nil => simp
  | cons p ps ih =>
    cases arguments with
    | nil => simp
    | cons t ts =>
      by_cases hp : p = text
      · simp [hp]
      · simp [hp, ih ts, Ne.symm hp, idxOf_cons_ne _ hp]

section

variable {parameters : List String} {arguments : List Tree}

lemma argumentOf?_of_not_isName (hnames : ∀ p ∈ parameters, IsName p) {text : String}
    (htext : ¬ IsName text) : argumentOf? text parameters arguments = none := by
  rw [argumentOf?_eq, if_neg fun h => htext (hnames text h)]

lemma argumentAtom_of_not_isName (hnames : ∀ p ∈ parameters, IsName p) {a : Atom}
    (ha : ¬ IsName a.text) : argumentAtom parameters arguments a = a :=
  if_neg fun h => ha (hnames _ h)

/-- What is put in the place of a token is the leaf that belongs there. -/
lemma atoms_argumentOf? (harguments : ∀ t ∈ arguments, ∃ id a, t = .atom id a) (id : NodeId)
    (a : Atom) : ((argumentOf? a.text parameters arguments).getD (.atom id a)).atoms =
      [argumentAtom parameters arguments a] := by
  rw [argumentOf?_eq, argumentAtom]
  split_ifs
  · cases harg : arguments[parameters.idxOf a.text]? with
    | none => simp
    | some t =>
      obtain ⟨id', b, rfl⟩ := harguments t (mem_of_getElem? harg)
      simp [Tree.atom?]
  · simp

lemma openingAtoms_map (hnames : ∀ p ∈ parameters, IsName p) (b : Bool) :
    (openingAtoms b).map (argumentAtom parameters arguments) = openingAtoms b := by
  have hopening : ¬ IsName (Atom.mark "(").text := fun h => h '(' (by decide) (by decide)
  cases b with
  | false => rfl
  | true => simp [openingAtoms, argumentAtom_of_not_isName hnames hopening]

lemma closingAtoms_map (hnames : ∀ p ∈ parameters, IsName p) (b : Bool) (ending : Option Ending) :
    (closingAtoms b ending).map (argumentAtom parameters arguments) = closingAtoms b ending := by
  have hclosing : ¬ IsName (Atom.mark ")").text := fun h => h ')' (by decide) (by decide)
  have hending : (endingAtoms ending).map (argumentAtom parameters arguments) =
      endingAtoms ending := by
    cases ending with
    | none => rfl
    | some e =>
      have he : ¬ IsName (Atom.mark e.text).text := by
        cases e with
        | semicolon => exact fun h => h ';' (by decide) (by decide)
        | comma => exact fun h => h ',' (by decide) (by decide)
      simp [endingAtoms, argumentAtom_of_not_isName hnames he]
  rw [closingAtoms, map_append, hending]
  cases b with
  | false => rfl
  | true => simp [argumentAtom_of_not_isName hnames hclosing]

lemma not_isName_of_opening {opening : Tree} {rest : List Tree} {c : Char}
    (hopening : opening.text = c.toString) (hc : c ∈ ['(', ')', '[', ']', '\x7b', '\x7d', ';', ',']) :
    ¬ IsName (Tree.textList (opening :: rest)) := by
  intro h
  refine h c ?_ hc
  rw [Tree.textList_cons, hopening]
  simp

lemma exists_rebuilt (b : Bool) (ending : Option Ending) (content : List Tree) (σ : BuildState) :
    ∃ u σ', (do setEnding (← if b then bracketed content else statement content) ending) σ = .ok u σ' ∧
      u.atoms = openingAtoms b ++ atomsList content ++ closingAtoms b ending := by
  cases b with
  | false =>
    obtain ⟨u, σ', hu⟩ := exists_setEnding (.statement σ.nextId false none content) ending
      ⟨σ.nextId + 1, σ.definitions⟩
    refine ⟨u, σ', bind_eq rfl hu, ?_⟩
    rw [atoms_setEnding hu]
    rfl
  | true =>
    obtain ⟨u, σ', hu⟩ := exists_setEnding (.statement (σ.nextId + 2) true none
      (.atom σ.nextId (.mark "(") :: content ++ [.atom (σ.nextId + 1) (.mark ")")])) ending
      ⟨σ.nextId + 3, σ.definitions⟩
    refine ⟨u, σ', bind_eq rfl hu, ?_⟩
    rw [atoms_setEnding hu]
    simp [openingAtoms, closingAtoms]

lemma atomsList_of_forall₂ {us ts : List Tree}
    (h : Forall₂ (fun u t => u.atoms = substituted parameters arguments t) us ts) :
    atomsList us = substitutedList parameters arguments ts := by
  induction h with
  | nil => rfl
  | cons hu _ ih => rw [Tree.atomsList_cons, hu, ih, substitutedList]

mutual

/-- A node has its parameters replaced, outside code and arrays. -/
theorem exists_substitute (harguments : ∀ t ∈ arguments, ∃ id a, t = .atom id a)
    (hnames : ∀ p ∈ parameters, IsName p) : ∀ t : Tree, t.Framed → ∀ σ : BuildState,
    ∃ u σ', substitute parameters arguments t σ = .ok u σ' ∧
      u.atoms = t.substituted parameters arguments
  | .atom id a, _, σ => by
    rw [substitute]
    · exact ⟨_, σ, rfl, by rw [Tree.text_atom]; exact atoms_argumentOf? harguments id a⟩
    · simp
  | .statement id b ending cs, hframed, σ => by
    obtain ⟨hcs, front, content, back, rfl, hfront, hback⟩ := hframed
    obtain ⟨us, σ1, hus, hforall⟩ := exists_substituteList harguments hnames _ hcs σ
    obtain ⟨hfrontLength, -, hfrontAtoms⟩ := Tree.of_map_atom? hfront
    obtain ⟨hbackLength, -, hbackAtoms⟩ := Tree.of_map_atom? hback
    -- the brackets and the ending are taken off and made anew, so only what is between them counts
    rw [append_assoc] at hforall
    have hfirst := forall₂_take_append us front _ hforall
    have hothers := forall₂_drop_append us front _ hforall
    have hmiddle := forall₂_take_append _ content back hothers
    have hlast := forall₂_drop_append _ content back hothers
    have hcontent : (Tree.statement id b ending us).content =
        (us.drop front.length).take content.length := by
      have hsplit : us = us.take front.length ++ (us.drop front.length).take content.length ++
          (us.drop front.length).drop content.length := by
        rw [append_assoc, take_append_drop, take_append_drop]
      conv_lhs => rw [hsplit]
      exact Tree.content_eq (hfirst.length_eq.trans hfrontLength) (hlast.length_eq.trans hbackLength) id
    obtain ⟨u, σ2, hu, hatoms⟩ :=
      exists_rebuilt b ending ((us.drop front.length).take content.length) σ1
    refine ⟨u, σ2, ?_, ?_⟩
    · rw [substitute, bind_of_eq_ok hus, hcontent]
      exact hu
    · rw [hatoms, atomsList_of_forall₂ hmiddle, substituted, Tree.substitutedList_append,
        Tree.substitutedList_append, hfrontAtoms, hbackAtoms, openingAtoms_map hnames,
        closingAtoms_map hnames]
  | .code id cs, hframed, σ => by
    obtain ⟨opening, rest, rfl, hopening⟩ := hframed
    rw [substitute]
    · rw [Tree.text_code, argumentOf?_of_not_isName hnames
        (not_isName_of_opening (c := '\x7b') hopening (by decide))]
      exact ⟨_, σ, rfl, rfl⟩
    · simp
  | .array id cs, hframed, σ => by
    obtain ⟨opening, rest, rfl, hopening⟩ := hframed
    rw [substitute]
    · rw [Tree.text_array, argumentOf?_of_not_isName hnames
        (not_isName_of_opening (c := '[') hopening (by decide))]
      exact ⟨_, σ, rfl, rfl⟩
    · simp

theorem exists_substituteList (harguments : ∀ t ∈ arguments, ∃ id a, t = .atom id a)
    (hnames : ∀ p ∈ parameters, IsName p) : ∀ ts : List Tree, Tree.FramedList ts → ∀ σ : BuildState,
    ∃ us σ', substituteList parameters arguments ts σ = .ok us σ' ∧
      Forall₂ (fun u t => u.atoms = substituted parameters arguments t) us ts
  | [], _, σ => ⟨[], σ, by rw [substituteList]; rfl, .nil⟩
  | t :: ts, hframed, σ => by
    rw [Tree.FramedList] at hframed
    obtain ⟨u, σ1, hu, hatoms⟩ := exists_substitute harguments hnames t hframed.1 σ
    obtain ⟨us, σ2, hus, hforall⟩ := exists_substituteList harguments hnames ts hframed.2 σ1
    refine ⟨u :: us, σ2, ?_, .cons hatoms hforall⟩
    rw [substituteList, bind_of_eq_ok hu, bind_of_eq_ok hus]
    rfl

end

end

/-- Substitution in the body of a definition returns. The tokens of the result are those of the body,
with arguments in the place of parameters outside code and arrays. So all parameters are replaced
exactly if there are none in code and arrays, or their arguments are the same tokens. -/
theorem substitution_reaches_iff {parameters : List String} {arguments body : List Tree}
    (harguments : ∀ t ∈ arguments, ∃ id a, t = .atom id a) (hnames : ∀ p ∈ parameters, IsName p)
    (hbody : Tree.FramedList body) (σ : BuildState) :
    ∃ out σ', substituteList parameters arguments body σ = .ok out σ' ∧
      Tree.atomsList out = Tree.substitutedList parameters arguments body ∧
      (Tree.atomsList out = (Tree.atomsList body).map (Tree.argumentAtom parameters arguments) ↔
        ∀ c ∈ Tree.enclosedList body,
          c.atoms = c.atoms.map (Tree.argumentAtom parameters arguments)) := by
  obtain ⟨out, σ', hout, hforall⟩ := exists_substituteList harguments hnames body hbody σ
  have hatoms := atomsList_of_forall₂ hforall
  refine ⟨out, σ', hout, hatoms, ?_⟩
  rw [hatoms, Tree.substitutedList_eq_map_iff]

/-- The body `(x;y)+[y]`. -/
def sumBody : List Tree :=
  [.statement 1 true none [.atom 2 (.mark "("),
    .statement 3 false (some .semicolon) [.atom 4 (.var "x"), .atom 5 (.mark ";")],
    .atom 6 (.var "y"), .atom 7 (.mark ")")], .atom 8 (.keyword "+"),
    .array 9 [.atom 10 (.mark "["), .atom 11 (.var "y"), .atom 12 (.mark "]")]]

lemma framedList_sumBody : Tree.FramedList sumBody := by
  have hstatement : Tree.Framed (.statement 3 false (some .semicolon)
      [.atom 4 (.var "x"), .atom 5 (.mark ";")]) :=
    ⟨⟨trivial, trivial, trivial⟩, [], [.atom 4 (.var "x")], [.atom 5 (.mark ";")], rfl, rfl, rfl⟩
  exact ⟨⟨⟨trivial, hstatement, trivial, trivial, trivial⟩,
    [.atom 2 (.mark "(")], [_, _], [.atom 7 (.mark ")")], rfl, rfl, rfl⟩, trivial,
    ⟨.atom 10 (.mark "["), _, rfl, rfl⟩, trivial⟩

theorem substitution_reaches_iff_sumBody :
    ∃ out σ', substituteList ["x"] [.atom 0 (.number (some (.int 1)))] sumBody ⟨13, []⟩ = .ok out σ' ∧
      Tree.atomsList out = [.mark "(", .number (some (.int 1)), .mark ";", .var "y", .mark ")",
        .keyword "+", .mark "[", .var "y", .mark "]"] := by
  have harguments : ∀ t ∈ [Tree.atom 0 (.number (some (.int 1)))], ∃ id a, t = .atom id a := by simp
  have hnames : ∀ p ∈ ["x"], IsName p := by simp [IsName]
  obtain ⟨out, σ', hout, hatoms, -⟩ :=
    substitution_reaches_iff harguments hnames framedList_sumBody ⟨13, []⟩
  exact ⟨out, σ', hout, hatoms⟩

/-- In the body `{x}` the x is not replaced, though 1 is its argument. -/
theorem substitution_spares_code :
    ∃ out σ', substituteList ["x"] [.atom 0 (.number (some (.int 1)))]
        [.code 1 [.atom 2 (.mark "\x7b"), .atom 3 (.var "x"), .atom 4 (.mark "\x7d")]] ⟨5, []⟩ =
        .ok out σ' ∧
      Tree.atomsList out = [.mark "\x7b", .var "x", .mark "\x7d"] ∧
      [Atom.mark "\x7b", .var "x", .mark "\x7d"].map
          (Tree.argumentAtom ["x"] [.atom 0 (.number (some (.int 1)))]) =
        [.mark "\x7b", .number (some (.int 1)), .mark "\x7d"] :=
  ⟨_, _, rfl, rfl, rfl⟩

end Build

end ArmaScript
