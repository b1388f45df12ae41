import ArmaScript.Proofs.Lossless
import ArmaScript.Proofs.Respacing

/-!
# Scripts that differ in the size of their gaps

A gap between two tokens can be made longer or shorter, as long as it does not go away, and its spaces,
tabs and ends of lines can be replaced by others. Outside of braces the outlines of the script have gaps
in the same places then, and the trees that are built of them correspond. Inside of braces a gap belongs
to the code, which can be compared and shown, so the tokens there have to be the same.
-/

namespace ArmaScript

open List

/-! ### Tokens -/

/-- The open brackets behind an atom, `around` being those before it. A closing bracket closes the
innermost open one, of whatever kind it is. -/
def Atom.behind (a : Atom) (around : List Bracket) : List Bracket :=
  match a.opens? with
  | some k => k :: around
  | none => if a.closes?.isSome then around.tail else around

/-- Tokens inside the open brackets `around` that only differ in the size of the gaps outside of
braces. -/
inductive Reflowed : List Bracket → List Atom → List Atom → Prop
  | nil {around : List Bracket} : Reflowed around [] []
  | keep {around : List Bracket} {as bs : List Atom} (a : Atom)
      (h : Reflowed (a.behind around) as bs) : Reflowed around (a :: as) (a :: bs)
  | gap {around : List Bracket} {cs ds as bs : List Atom} (hbraces : .curly ∉ around)
      (hcs : Gap (fun a : Atom => a.isBlank = true) cs)
      (hds : Gap (fun a : Atom => a.isBlank = true) ds) (h : Reflowed around as bs) :
      Reflowed around (cs ++ as) (ds ++ bs)

namespace Reflowed

variable {around : List Bracket} {as bs : List Atom}

lemma symm (h : Reflowed around as bs) : Reflowed around bs as := by
  induction h with
  | nil => exact .nil
  | keep a _ ih => exact .keep a ih
  | gap hbraces hcs hds _ ih => exact .gap hbraces hds hcs ih

lemma prepend (l : List Atom)
    (h : Reflowed (l.foldl (fun around a => a.behind around) around) as bs) :
    Reflowed around (l ++ as) (l ++ bs) := by
  induction l generalizing around with
  | nil => exact h
  | cons a l ih => exact .keep a (ih h)

/-- What is true of the blanks and of the tokens of one row is true of those of the other. -/
lemma forall_mem {P : Atom → Prop} (hblank : ∀ a : Atom, a.isBlank = true → P a)
    (h : Reflowed around as bs) (has : ∀ a ∈ as, P a) : ∀ b ∈ bs, P b := by
  induction h with
  | nil => exact has
  | keep a _ ih =>
    obtain ⟨ha, has⟩ := forall_mem_cons.mp has
    exact forall_mem_cons.mpr ⟨ha, ih has⟩
  | gap _ _ hds _ ih =>
    exact forall_mem_append.mpr ⟨fun d hd => hblank d (hds.2 d hd), ih (forall_mem_append.mp has).2⟩

end Reflowed

lemma Atom.plain_of_isBlank {a : Atom} (h : a.isBlank = true) :
    a.isReplacing = false ∧ a.opens? = none ∧ a.closes? = none := by
  cases a with
  | space | tab | lineEnd => exact ⟨rfl, rfl, rfl⟩
  | _ => cases h

/-! ### Outlines -/

namespace Item

def IsBlank (i : Item) : Prop :=
  ∃ t : Tree, i = .token t ∧ t.IsBlank

/-- Items that are built into nodes that correspond. A group in braces has the same tokens, any other
group has gaps in the same places. -/
inductive Respaced (R : NodeId → NodeId → Prop) : Item → Item → Prop
  | token {t u : Tree} (h : Tree.Alike R t u) (ht : t.ending? = none) :
      Respaced R (.token t) (.token u)
  | same {o o' c c' : Tree} {is js : List Item} (h : Alike R (.group o c is) (.group o' c' js)) :
      Respaced R (.group o c is) (.group o' c' js)
  | group {o o' c c' : Tree} {is js : List Item} (ho : Tree.Alike R o o') (hc : Tree.Alike R c c')
      (hcurly : o.opens? ≠ some .curly) (h : Spaced IsBlank (Respaced R) is js) :
      Respaced R (.group o c is) (.group o' c' js)

variable {R : NodeId → NodeId → Prop} {around : List Bracket}

mutual

theorem Alike.open : ∀ {around : List Bracket} {i j : Item}, Alike R i j → i.Open around →
    j.Open around
  | _, _, _, .token h, hopen => by
    rw [Open, ← opens?_eq h, ← closes?_eq h]
    exact hopen
  | _, _, _, .group ho hc h, hopen => by
    obtain ⟨k, hk, ⟨k', hk', hmem⟩, hcontent⟩ := hopen
    rw [opens?_eq ho] at hk
    rw [closes?_eq hc] at hk'
    exact ⟨k, hk, ⟨k', hk', hmem⟩, openList_of_alike h hcontent⟩

theorem openList_of_alike : ∀ {around : List Bracket} {is js : List Item},
    Forall₂ (Alike R) is js → OpenList around is → OpenList around js
  | _, _, _, .nil, _ => trivial
  | _, _, _, .cons h hs, hopen => by
    rw [OpenList] at hopen ⊢
    exact ⟨h.open hopen.1, openList_of_alike hs hopen.2⟩

end

variable {is js : List Item} {ts us : List Tree}

lemma openList_of_gap (h : ∀ i ∈ is, i.IsBlank) : OpenList around is := by
  induction is with
  | nil => trivial
  | cons i is ih =>
    obtain ⟨⟨t, rfl, id, a, rfl, ha⟩, his⟩ := forall_mem_cons.mp h
    rw [OpenList]
    exact ⟨(Atom.plain_of_isBlank ha).2, ih his⟩

mutual

theorem Respaced.open : ∀ {around : List Bracket} {i j : Item}, Respaced R i j → i.Open around →
    j.Open around
  | _, _, _, .token h _, hopen => Alike.open (.token h) hopen
  | _, _, _, .same h, hopen => h.open hopen
  | _, _, _, .group ho hc _ h, hopen => by
    obtain ⟨k, hk, ⟨k', hk', hmem⟩, hcontent⟩ := hopen
    rw [opens?_eq ho] at hk
    rw [closes?_eq hc] at hk'
    exact ⟨k, hk, ⟨k', hk', hmem⟩, openList_of_spaced h hcontent⟩

theorem openList_of_spaced : ∀ {around : List Bracket} {is js : List Item},
    Spaced IsBlank (Respaced R) is js → OpenList around is → OpenList around js
  | _, _, _, .nil, _ => trivial
  | _, _, _, .cons h hs, hopen => by
    rw [OpenList] at hopen ⊢
    exact ⟨h.open hopen.1, openList_of_spaced hs hopen.2⟩
  | _, _, _, .gap _ hds hs, hopen =>
    openList_append.mpr ⟨openList_of_gap hds.2, openList_of_spaced hs (openList_append.mp hopen).2⟩

end

/-- What stands between two brackets, with `around` the open brackets there. -/
inductive Contents (R : NodeId → NodeId → Prop) (around : List Bracket) :
    List Item → List Item → Prop
  | inside {is js : List Item} (hbraces : .curly ∈ around) (h : Forall₂ (Alike R) is js) :
      Contents R around is js
  | outside {is js : List Item} (hbraces : .curly ∉ around) (h : Spaced IsBlank (Respaced R) is js) :
      Contents R around is js

lemma Contents.nil : Contents R around [] [] := by
  by_cases hbraces : .curly ∈ around
  · exact .inside hbraces .nil
  · exact .outside hbraces .nil

lemma Contents.token (h : Contents R around is js) {t u : Tree} (htu : Tree.Alike R t u)
    (ht : t.ending? = none) : Contents R around (is ++ [.token t]) (js ++ [.token u]) := by
  cases h with
  | inside hbraces h => exact .inside hbraces (rel_append h (.cons (.token htu) .nil))
  | outside hbraces h => exact .outside hbraces (h.append (.cons (.token htu ht) .nil))

lemma Contents.group {inner inner' : List Item} (h : Contents R around is js) {o o' c c' : Tree}
    {k : Bracket} (ho : Tree.Alike R o o') (hk : o.opens? = some k) (hc : Tree.Alike R c c')
    (hinner : Contents R (k :: around) inner inner') :
    Contents R around (is ++ [.group o c inner]) (js ++ [.group o' c' inner']) := by
  cases h with
  | inside hbraces h =>
    cases hinner with
    | inside _ hinner =>
      exact .inside hbraces (rel_append h (.cons (.group ho hc hinner) .nil))
    | outside hbraces' => exact absurd (mem_cons_of_mem _ hbraces) hbraces'
  | outside hbraces h =>
    refine .outside hbraces (h.append (.cons ?_ .nil))
    cases hinner with
    | inside _ hinner => exact .same (.group ho hc hinner)
    | outside hbraces' hinner =>
      refine .group ho hc ?_ hinner
      rw [hk]
      rintro ⟨⟩
      exact hbraces' mem_cons_self

/-- Open brackets, the innermost first, each with the items before it in reverse. -/
inductive Stacks (R : NodeId → NodeId → Prop) :
    List Bracket → List (Tree × List Item) → List (Tree × List Item) → Prop
  | nil : Stacks R [] [] []
  | cons {around : List Bracket} {stack stack' : List (Tree × List Item)} {o o' : Tree} {k : Bracket}
      {before before' : List Item} (ho : Tree.Alike R o o') (hk : o.opens? = some k)
      (h : Contents R around before.reverse before'.reverse) (hs : Stacks R around stack stack') :
      Stacks R (k :: around) ((o, before) :: stack) ((o', before') :: stack')

/-- Outlines of tokens behind open brackets that have gaps in the same places. -/
def Outlines (R : NodeId → NodeId → Prop) (around : List Bracket) (ts us : List Tree) : Prop :=
  ∀ {stack stack' : List (Tree × List Item)} {done done' : List Item}, Stacks R around stack stack' →
    Contents R around done.reverse done'.reverse →
    Option.Rel (Spaced IsBlank (Respaced R)) (outlineFrom stack done ts) (outlineFrom stack' done' us)

lemma outlines_nil : Outlines R around [] [] := by
  intro stack stack' done done' hstacks hdone
  cases hstacks with
  | nil =>
    cases hdone with
    | inside hbraces => cases hbraces
    | outside _ h => exact .some h
  | cons => exact .none

lemma outlines_cons {i j : NodeId} (hij : R i j) {a : Atom}
    (ha : a.kind ≠ .nothing ∧ a.isDirective "#define" = false)
    (h : Outlines R (a.behind around) ts us) :
    Outlines R around (.atom i a :: ts) (.atom j a :: us) := by
  intro stack stack' done done' hstacks hdone
  have halike : Tree.Alike R (.atom i a) (.atom j a) := .atom hij ha
  unfold Atom.behind at h
  cases hopens : a.opens? with
  | some k =>
    rw [hopens] at h
    rw [@outlineFrom_opening (.atom i a) k hopens, @outlineFrom_opening (.atom j a) k hopens]
    exact h (.cons halike hopens hdone hstacks) .nil
  | none =>
    rw [hopens] at h
    cases hcloses : a.closes? with
    | some k =>
      rw [hcloses] at h
      cases hstacks with
      | nil =>
        unfold outlineFrom
        have hopens (id : NodeId) : (Tree.atom id a).opens? = none := hopens
        have hcloses (id : NodeId) : (Tree.atom id a).closes? = some k := hcloses
        rw [hopens, hopens, hcloses, hcloses]
        exact .none
      | @cons around stack stack' o o' k' before before' ho hk hbefore hs =>
        rw [@outlineFrom_closing (.atom i a) k hcloses, @outlineFrom_closing (.atom j a) k hcloses]
        refine h hs ?_
        rw [reverse_cons, reverse_cons]
        exact hbefore.group ho hk halike hdone
    | none =>
      rw [hcloses] at h
      rw [@outlineFrom_token (.atom i a) hopens hcloses, @outlineFrom_token (.atom j a) hopens hcloses]
      refine h hstacks ?_
      rw [reverse_cons, reverse_cons]
      exact hdone.token halike rfl

lemma flatList_tokens (ts : List Tree) : flatList (ts.map .token) = ts := by
  induction ts with
  | nil => exact flatList_nil
  | cons t ts ih => rw [map_cons, flatList_cons, flat_token, ih, singleton_append]

lemma gap_tokens (h : Gap Tree.IsBlank ts) : Gap IsBlank (ts.map Item.token) := by
  refine ⟨fun hnil => h.1 (map_eq_nil_iff.mp hnil), forall_mem_map.mpr fun t ht => ?_⟩
  exact ⟨t, rfl, h.2 t ht⟩

lemma outlines_gap (hbraces : .curly ∉ around) {gap gap' : List Tree}
    (hgap : Gap Tree.IsBlank gap) (hgap' : Gap Tree.IsBlank gap') (h : Outlines R around ts us) :
    Outlines R around (gap ++ ts) (gap' ++ us) := by
  intro stack stack' done done' hstacks hdone
  have houtline {l : List Tree} (hl : Gap Tree.IsBlank l) (stack : List (Tree × List Item))
      (done : List Item) (rest : List Tree) : outlineFrom stack done (l ++ rest) =
        outlineFrom stack ((l.map Item.token).reverse ++ done) rest := by
    have hopen : OpenList around (l.map Item.token) := openList_of_gap (gap_tokens hl).2
    have := outlineFrom_flatList stack done rest _ hopen
    rwa [flatList_tokens] at this
  rw [houtline hgap, houtline hgap']
  refine h hstacks ?_
  rw [reverse_append, reverse_append, reverse_reverse, reverse_reverse]
  cases hdone with
  | inside hbraces' => exact absurd hbraces' hbraces
  | outside _ hdone =>
    exact .outside hbraces (hdone.append (.of_gap (gap_tokens hgap) (gap_tokens hgap')))

end Item

lemma Script.gap_leaves {cs : List Atom} (h : Gap (fun a : Atom => a.isBlank = true) cs)
    (n : NodeId) : Gap Tree.IsBlank (leaves n cs) := by
  constructor
  · intro hnil
    have hlength := length_leaves n cs
    rw [hnil] at hlength
    exact h.1 (length_eq_zero_iff.mp hlength.symm)
  · intro t ht
    obtain ⟨id, a, ha, rfl⟩ := exists_of_mem_leaves ht
    exact ⟨id, a, rfl, h.2 a ha⟩

/-- The tokens that two scripts share are linked, and then their outlines have gaps in the same places.
-/
lemma Reflowed.exists_link {around : List Bracket} {as bs : List Atom} (h : Reflowed around as bs)
    (has : ∀ a ∈ as, a.kind ≠ .nothing ∧ a.isDirective "#define" = false) {κ : Link} {n m : NodeId}
    (hfits : κ.Fits n m) : ∃ κ', κ ≤ κ' ∧ κ'.Fits (n + as.length) (m + bs.length) ∧
      Item.Outlines κ'.ids around (Script.leaves n as) (Script.leaves m bs) := by
  induction h generalizing κ n m with
  | nil => exact ⟨κ, κ.le_refl, hfits, Item.outlines_nil⟩
  | @keep around as bs a _ ih =>
    obtain ⟨ha, has⟩ := forall_mem_cons.mp has
    obtain ⟨κ', hκ, hfits', h⟩ := ih has hfits.add
    refine ⟨κ', Link.le_trans (κ.le_add n m) hκ, ?_, ?_⟩
    · rw [length_cons, length_cons, Nat.add_comm as.length, Nat.add_comm bs.length,
        ← Nat.add_assoc, ← Nat.add_assoc]
      exact hfits'
    · exact Item.outlines_cons (hκ.1 _ _ (κ.add_self n m)) ha h
  | @gap around cs ds as bs hbraces hcs hds _ ih =>
    have hfits1 := hfits.mono (Nat.le_add_right n cs.length) (Nat.le_add_right m ds.length)
    obtain ⟨κ', hκ, hfits', h⟩ := ih (forall_mem_append.mp has).2 hfits1
    refine ⟨κ', hκ, ?_, ?_⟩
    · rw [length_append, length_append, ← Nat.add_assoc, ← Nat.add_assoc]
      exact hfits'
    · rw [Script.leaves_append, Script.leaves_append]
      exact Item.outlines_gap hbraces (Script.gap_leaves hcs n) (Script.gap_leaves hds m) h

/-! ### Building -/

/-- The tokens before those that are still to be outlined. -/
def outlined : List (Tree × List Item) → List Item → List Tree
  | [], done => Item.flatList done.reverse
  | (o, before) :: stack, done => outlined stack before ++ o :: Item.flatList done.reverse

lemma outlined_cons (stack : List (Tree × List Item)) (i : Item) (done : List Item) :
    outlined stack (i :: done) = outlined stack done ++ i.flat := by
  cases stack with
  | nil | cons p stack => simp [outlined]

lemma flatList_of_outlineFrom {stack : List (Tree × List Item)} {done content : List Item}
    {row : List Tree} (h : outlineFrom stack done row = some content) :
    Item.flatList content = outlined stack done ++ row := by
  induction row generalizing stack done with
  | nil =>
    cases stack with
    | nil =>
      cases h
      rw [append_nil, outlined]
    | cons => cases h
  | cons t row ih =>
    cases hopens : t.opens? with
    | some k =>
      rw [outlineFrom_opening hopens] at h
      rw [ih h, outlined, reverse_nil, Item.flatList_nil, append_assoc, singleton_append]
    | none =>
      cases hcloses : t.closes? with
      | some k =>
        rcases stack with _ | ⟨⟨o, before⟩, stack⟩
        · simp [outlineFrom, hopens, hcloses] at h
        · rw [outlineFrom_closing hcloses] at h
          rw [ih h, outlined_cons, outlined]
          simp
      | none =>
        rw [outlineFrom_token hopens hcloses] at h
        rw [ih h, outlined_cons, Item.flat_token, append_assoc, singleton_append]

namespace Item

open Build

variable {lax : Prop} {κ : Link} {row row' ss ss' : List Tree}

lemma isEnd_trim (stop : Stop) (t : Tree) : stop.isEnd t.trim = stop.isEnd t := by
  cases t <;> simp [Tree.trim, Stop.isEnd]

variable {t u : Tree}

lemma isEnd_eq (h : Tree.Respaced κ.ids t u) (stop : Stop) : stop.isEnd t = stop.isEnd u := by
  rw [← isEnd_trim stop t, ← isEnd_trim stop u, Nodes.isEnd h.alike]

lemma spacedRow_rowWith (hrow : SpacedRow κ row row') (h : Tree.RowNode κ.ids t u) :
    SpacedRow κ (rowWith row t) (rowWith row' u) := by
  unfold rowWith
  rw [h.kind]
  split
  · exact hrow
  · exact hrow.append (.cons h .nil)

lemma buildList_gap (stop : Stop) {gap : List Item} (hgap : Gap IsBlank gap) :
    ∃ ts, Gap Tree.IsBlank ts ∧ ∀ is row ss,
      buildList stop (gap ++ is) row ss = buildList stop is (row ++ ts) ss := by
  obtain ⟨hne, hblank⟩ := hgap
  have hstep {t : Tree} (ht : t.IsBlank) (is : List Item) (row ss : List Tree) :
      buildList stop (.token t :: is) row ss = buildList stop is (row ++ [t]) ss := by
    obtain ⟨id, a, rfl, ha⟩ := ht
    rw [buildList_cons, build_token, pure_bind]
    cases a with
    | space | tab | lineEnd => rfl
    | _ => cases ha
  induction gap with
  | nil => exact absurd rfl hne
  | cons i gap ih =>
    obtain ⟨⟨t, rfl, ht⟩, hrest⟩ := forall_mem_cons.mp hblank
    by_cases hnil : gap = []
    · subst hnil
      exact ⟨[t], gap_singleton ht, fun is row ss => hstep ht is row ss⟩
    · obtain ⟨ts, hts, hbuild⟩ := ih hnil hrest
      refine ⟨t :: ts, (gap_singleton ht).append hts, fun is row ss => ?_⟩
      rw [cons_append, hstep ht, hbuild, append_assoc, singleton_append]

lemma alike_closes {P : Link → Tree → Tree → Prop} {x y : Build Tree}
    (h : Build.Alike lax κ x y P) (hx : ∀ σ t σ', x σ = .ok t σ' → t.ending? = none) :
    Build.Alike lax κ x y fun κ' t u => P κ' t u ∧ t.ending? = none := by
  intro σ τ hστ
  have houtcomes := h σ τ hστ
  have hx := hx σ
  revert houtcomes hx
  generalize x σ = r
  generalize y τ = r'
  rintro (⟨hκ, hheld, hrel, hpost⟩ | - | hlax | hlax) hx
  · exact .ok hκ hheld hrel ⟨hpost, hx _ _ rfl⟩
  · exact .error
  · exact .left hlax
  · exact .right hlax

mutual

/-- Corresponding items outside of braces become nodes that correspond. -/
theorem alike_build_respaced (stop : Stop) : ∀ {κ' : Link} (_ : κ ≤ κ') {around : List Bracket}
    {i j : Item}, .curly ∉ around → i.Open around → Respaced κ.ids i j →
      Build.Alike lax κ' (i.build stop) (j.build stop) fun κ'' => Tree.RowNode κ''.ids
  | _, hκ, _, _, _, _, _, .token h ht => by
    rw [build_token, build_token]
    exact .pure (.of_alike (h.mono hκ.1) ht)
  | _, hκ, _, .group o c is, .group o' c' js, _, _, .same h => by
    refine .mono_post (alike_closes (alike_build stop (h.mono hκ.1)) fun σ t σ' hbuild => ?_)
      fun _ _ _ hpost => .of_alike hpost.1 hpost.2
    rw [build] at hbuild
    obtain ⟨left, σ1, -, hclose⟩ := bind_eq_ok.mp hbuild
    exact (closeBlock_whole hclose).2
  | _, hκ, around, .group o c is, .group o' c' js, hbraces, hopen, .group ho hc hcurly h => by
    obtain ⟨k, hk, ⟨k', hk', hmem⟩, hcontent⟩ := hopen
    -- a closing brace would need a brace that is open around it
    have hbraces : .curly ∉ k :: around := by
      rw [mem_cons, not_or]
      refine ⟨?_, hbraces⟩
      rintro rfl
      exact hcurly hk
    have hclosing : k' ≠ .curly := by
      rintro rfl
      exact hbraces hmem
    rw [build, build, ← opens?_eq ho, ← closes?_eq hc, hk, hk']
    exact (alike_buildList_respaced _ hκ hbraces hcontent h .nil .nil).bind fun _ _ _ _ h =>
      alike_closeBlock_spaced h.1 h.2 hclosing

theorem alike_buildList_respaced (stop : Stop) : ∀ {κ' : Link} (_ : κ ≤ κ') {around : List Bracket}
    {is js : List Item} {row row' ss ss' : List Tree}, .curly ∉ around → OpenList around is →
      Spaced IsBlank (Respaced κ.ids) is js → SpacedRow κ' row row' → RespacedList κ' ss ss' →
      Build.Alike lax κ' (buildList stop is row ss) (buildList stop js row' ss')
        fun κ'' p q => SpacedRow κ'' p.1 q.1 ∧ RespacedList κ'' p.2 q.2
  | _, _, _, _, _, _, _, _, _, _, _, .nil, hrow, hss => by
    rw [buildList_nil, buildList_nil]
    exact .pure ⟨hrow, hss⟩
  | _, hκ, _, _, _, _, _, _, _, hbraces, hopen, .cons h hs, hrow, hss => by
    rw [OpenList] at hopen
    rw [buildList_cons, buildList_cons]
    refine (alike_build_respaced stop hκ hbraces hopen.1 h).bind fun κ1 h1 t u htu => ?_
    have hrow := spacedRow_rowWith (hrow.mono h1) htu
    refine .ite (by rw [isEnd_eq htu.toRespaced]) ?_ ?_
    · refine (alike_closeRow_spaced hrow (hss.mono h1)).bind fun κ2 h2 ss ss' hss => ?_
      exact alike_buildList_respaced stop (Link.le_trans hκ (Link.le_trans h1 h2)) hbraces hopen.2 hs
        .nil hss
    · exact alike_buildList_respaced stop (Link.le_trans hκ h1) hbraces hopen.2 hs hrow (hss.mono h1)
  | _, hκ, _, _, _, _, _, _, _, hbraces, hopen, .gap hcs hds hs, hrow, hss => by
    obtain ⟨ts, hts, hbuild⟩ := buildList_gap stop hcs
    obtain ⟨us, hus, hbuild'⟩ := buildList_gap stop hds
    rw [hbuild, hbuild']
    exact alike_buildList_respaced stop hκ hbraces (openList_append.mp hopen).2 hs
      (hrow.append (.of_gap hts hus)) hss

end

/-- Scripts whose outlines have gaps in the same places have statements that correspond. -/
lemma alike_buildScript {content content' : List Item} (hopen : OpenList [] content)
    (h : Spaced IsBlank (Respaced κ.ids) content content') :
    Build.Alike lax κ (buildScript content) (buildScript content')
      fun κ' t u => RespacedList κ' t.children u.children := by
  refine (alike_buildList_respaced .both κ.le_refl not_mem_nil hopen h .nil .nil).bind
    fun κ1 h1 p q hpq => ?_
  refine (alike_closeRow_spaced hpq.1 hpq.2).bind fun κ2 h2 ss ss' hss => ?_
  exact alike_fresh.bind fun κ3 h3 i j hij => .pure (hss.mono h3)

end Item

/-! ### Reading -/

namespace Script

/-- A script with gaps in the same places as one that can be read can be read, and its statements
correspond to those of the other one. -/
lemma exists_read_reflowed {s s' : String} {n m : NodeId} {script : Script} {as bs : List Atom}
    (hlex : Atom.lex s = .ok as) (hlex' : Atom.lex s' = .ok bs)
    (hplain : ∀ a ∈ as, a.isReplacing = false) (h : Reflowed [] as bs)
    (hread : read s n = .ok script) :
    ∃ script' κ, read s' m = .ok script' ∧ κ.Fits script.nextId script'.nextId ∧
      Build.RespacedList κ script.tree.children script'.tree.children := by
  have hplain' : ∀ b ∈ bs, b.isReplacing = false :=
    h.forall_mem (fun a ha => (Atom.plain_of_isBlank ha).1) hplain
  obtain ⟨content, hflat, hopen, hbuild⟩ := (read_eq_ok_iff hlex hplain).mp hread
  have has (a : Atom) (ha : a ∈ as) : a.kind ≠ .nothing ∧ a.isDirective "#define" = false :=
    ⟨Atom.kind_ne_nothing_of_lex hlex a ha, isDirective_define_of_isReplacing (hplain a ha)⟩
  have hfits : (Link.range n m 0 fun _ => False).Fits n m :=
    Link.fits_range (Nat.le_refl _) (Nat.le_refl _) nofun
  obtain ⟨κ, -, hfits, houtlines⟩ := h.exists_link has hfits
  -- the first outline is there, so is the second one
  have houtline : Option.Rel (Spaced Item.IsBlank (Item.Respaced κ.ids))
      (outlineFrom [] [] (leaves n as)) (outlineFrom [] [] (leaves m bs)) := houtlines .nil .nil
  have hcontent : outlineFrom [] [] (leaves n as) = some content := by
    rw [← hflat]
    exact outline_flatList hopen
  rw [hcontent] at houtline
  obtain ⟨hnone, -⟩ | ⟨_, content', hsome, hcontent', hspaced⟩ := houtline.eq_or_exists
  · cases hnone
  cases hsome
  have hflat' := flatList_of_outlineFrom hcontent'
  have hstates : BuildState.Alike κ ⟨n + (as.length + 1), []⟩ ⟨m + (bs.length + 1), []⟩ :=
    ⟨hfits.mono (Nat.le_succ _) (Nat.le_succ _), rfl, rfl⟩
  have hbuilt : Build.Alike False κ (Item.buildScript content) (Item.buildScript content')
      fun κ' t u => Build.RespacedList κ' t.children u.children := Item.alike_buildScript hopen hspaced
  obtain ⟨κ', tree', ⟨nextId', definitions'⟩, hbuild', -, -, hstates', hchildren⟩ :=
    AlikeTo.exists_ok hbuilt hstates hbuild
  cases hstates'.right
  exact ⟨⟨tree', nextId'⟩, κ', (read_eq_ok_iff hlex' hplain').mpr
    ⟨content', hflat', Item.openList_of_spaced hspaced hopen, hbuild'⟩, hstates'.fits, hchildren⟩

end Script

end ArmaScript
