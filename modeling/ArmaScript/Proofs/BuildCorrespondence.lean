import ArmaScript.Proofs.Correspondence
import ArmaScript.Proofs.Spacing
import ArmaScript.Proofs.Tokens

/-!
# Trees that are built alike

Nodes are arranged by their texts alone, so renaming the identities of a row renames those of the tree
that is built of it. Each function that builds nodes does so alike from rows that are alike, and the
new nodes are linked. A conditional of linked nodes is resolved alike, whatever it says of the
definitions.
-/

namespace ArmaScript

open List

variable {α : Type}

/-! ### Building -/

/-- States of reading that correspond. There are no definitions. -/
structure BuildState.Alike (κ : Link) (σ τ : BuildState) : Prop where
  fits : κ.Fits σ.nextId τ.nextId
  left : σ.definitions = []
  right : τ.definitions = []

lemma Alike.ite_same {σ : Type} {lax : Prop} {rel : Link → σ → σ → Prop} {κ : Link}
    {x y x' y' : EStateM Fault σ α} {P : Link → α → α → Prop} {c : Prop} [Decidable c]
    (h : c → Alike lax rel κ x y P) (h' : ¬c → Alike lax rel κ x' y' P) :
    Alike lax rel κ (if c then x else x') (if c then y else y') P := by
  split
  · exact h ‹_›
  · exact h' ‹_›

namespace Build

/-- Computations of reading that end alike. If it is lax, one of them may come to a limit. -/
abbrev Alike {α : Type} (lax : Prop) (κ : Link) (x y : Build α) (post : Link → α → α → Prop) :
    Prop :=
  ArmaScript.Alike lax BuildState.Alike κ x y post

abbrev Nodes (κ : Link) (t u : Tree) : Prop :=
  Tree.Alike κ.ids t u

/-- Rows of nodes whose identities are linked. -/
abbrev Rows (κ : Link) (ts us : List Tree) : Prop :=
  Tree.AlikeList κ.ids ts us

variable {lax : Prop} {κ κ' : Link} {t u : Tree} {ts us : List Tree}

lemma alike_fresh : Alike lax κ fresh fresh fun κ' => κ'.ids :=
  fun _ _ h => .ok (κ.le_add _ _) rfl ⟨h.fits.add, h.left, h.right⟩ (κ.add_self _ _)

lemma alike_lift {x y : Except Fault α} {P : Link → α → α → Prop}
    (h : (∃ a b, x = .ok a ∧ y = .ok b ∧ P κ a b) ∨ ∃ e f, x = .error e ∧ y = .error f) :
    Alike lax κ (lift x) (lift y) P := by
  rcases h with ⟨a, b, rfl, rfl, hab⟩ | ⟨e, f, rfl, rfl⟩
  · exact .pure hab
  · exact .throw

lemma alike_mark (text : String) : Alike lax κ (mark text) (mark text) Nodes :=
  alike_fresh.bind fun _ _ _ _ hij => .pure (.atom hij ⟨nofun, rfl⟩)

lemma alike_statement (h : Rows κ ts us) : Alike lax κ (statement ts) (statement us) Nodes :=
  alike_fresh.bind fun _ hκ _ _ hij => .pure (.statement hij (h.mono hκ.1))

lemma rows_surround {o c o' c' : Tree} (ho : Nodes κ o o') (hc : Nodes κ c c')
    (h : Rows κ ts us) : Rows κ (o :: ts ++ [c]) (o' :: us ++ [c']) :=
  .cons ho (rel_append h (.cons hc .nil))

lemma alike_bracketed (h : Rows κ ts us) : Alike lax κ (bracketed ts) (bracketed us) Nodes := by
  refine (alike_mark _).bind fun κ1 h1 o o' ho => (alike_mark _).bind fun κ2 h2 c c' hc => ?_
  refine alike_fresh.bind fun κ3 h3 i j hij => .pure (.statement hij ?_)
  have h₁3 := Link.le_trans h2 h3
  exact rows_surround (ho.mono h₁3.1) (hc.mono h3.1) (h.mono (Link.le_trans h1 h₁3).1)

lemma alike_code (h : Rows κ ts us) : Alike lax κ (code ts) (code us) Nodes := by
  refine (alike_mark _).bind fun κ1 h1 o o' ho => (alike_mark _).bind fun κ2 h2 c c' hc => ?_
  refine alike_fresh.bind fun κ3 h3 i j hij => .pure (.code hij ?_)
  have h₁3 := Link.le_trans h2 h3
  exact rows_surround (ho.mono h₁3.1) (hc.mono h3.1) (h.mono (Link.le_trans h1 h₁3).1)

/-- Commas are put between corresponding nodes, in whatever way they correspond. -/
lemma alike_withCommas_of {R : Link → Tree → Tree → Prop}
    (hmono : ∀ {κ κ'} {t u : Tree}, κ ≤ κ' → R κ t u → R κ' t u)
    (hnode : ∀ {κ} {t u : Tree}, Nodes κ t u → R κ t u) (h : Forall₂ (R κ) ts us) :
    Alike lax κ (withCommas ts) (withCommas us) fun κ' => Forall₂ (R κ') := by
  induction ts generalizing κ us with
  | nil =>
    cases h
    exact .pure .nil
  | cons t ts ih =>
    cases h with
    | cons htu hts =>
      cases hts with
      | nil => exact .pure (.cons htu .nil)
      | cons ht hts =>
        refine (alike_mark _).bind fun κ1 h1 c c' hc => ?_
        have hrest := Forall₂.cons (hmono h1 ht) (hts.imp fun _ _ => hmono h1)
        refine (ih hrest).bind fun κ2 h2 rest rest' hrest => ?_
        exact .pure (.cons (hmono (Link.le_trans h1 h2) htu) (.cons (hnode (hc.mono h2.1)) hrest))

lemma alike_withCommas (h : Rows κ ts us) : Alike lax κ (withCommas ts) (withCommas us) Rows :=
  alike_withCommas_of (R := Nodes) (fun hκ h => h.mono hκ.1) id h

lemma alike_array (h : Rows κ ts us) : Alike lax κ (array ts) (array us) Nodes := by
  refine .ite (by rw [h.isEmpty]) .bind_of_throw ((alike_mark _).bind fun κ1 h1 o o' ho => ?_)
  refine (alike_withCommas (h.mono h1.1)).bind fun κ2 h2 inner inner' hinner => ?_
  refine (alike_mark _).bind fun κ3 h3 c c' hc => alike_fresh.bind fun κ4 h4 i j hij => ?_
  have h₂4 := Link.le_trans h3 h4
  exact .pure (.array hij (rows_surround (ho.mono (Link.le_trans h2 h₂4).1) (hc.mono h4.1)
    (hinner.mono h₂4.1)))

lemma rows_dropLast (h : Rows κ ts us) : Rows κ ts.dropLast us.dropLast := by
  rw [dropLast_eq_take, dropLast_eq_take, h.length_eq]
  exact forall₂_take _ h

lemma alike_setEnding (h : Nodes κ t u) (ending : Option Ending) :
    Alike lax κ (setEnding t ending) (setEnding u ending) Nodes := by
  have hsame : Alike lax κ (pure t) (pure u) Nodes := .pure h
  cases h with
  | @statement i j b old cs ds hij hcs =>
    have hcs : Rows κ (if old.isSome then cs.dropLast else cs)
        (if old.isSome then ds.dropLast else ds) := by
      split
      · exact rows_dropLast hcs
      · exact hcs
    cases ending with
    | none => exact .pure (.statement hij hcs)
    | some e =>
      refine (alike_mark _).bind fun κ1 h1 c c' hc => .pure (.statement (h1.1 _ _ hij) ?_)
      exact rel_append (hcs.mono h1.1) (.cons hc .nil)
  | _ => exact hsame

/-- Nodes with linked identities look the same when a row is arranged. -/
lemma sameLook_of_nodes (h : Nodes κ t u) : Precedence.SameLook items t u := by
  have htext : items.text t = items.text u := h.text
  refine ⟨congrArg Kind.isLayout h.kind, ?_, ?_, ?_, ?_, ?_⟩ <;> rw [htext]

/-- Arranged rows of linked nodes. There are no gaps between them. -/
abbrev Expressions (κ : Link) : Exp Tree → Exp Tree → Prop :=
  Exp.Spaced (fun _ => False) (Nodes κ)

lemma not_isGap {e : Exp Tree} : ¬e.IsGap fun _ => False := by
  rintro ⟨l, ⟨hne, hl⟩, -⟩
  exact hl _ (head_mem hne)

mutual

theorem alike_ofExp : ∀ {κ' : Link} (_ : κ ≤ κ') {e f : Exp Tree}, Expressions κ e f →
    Alike lax κ' (ofExp e) (ofExp f) Nodes
  | _, hκ, _, _, .leaf h => by
    rw [ofExp, ofExp]
    exact .pure (h.mono hκ.1)
  | _, _, _, _, .blank he _ => absurd he not_isGap
  | _, hκ, _, _, .group h => by
    rw [ofExp, ofExp]
    exact (alike_ofExpList hκ h).bind fun _ _ _ _ h => alike_statement h

theorem alike_ofExpList : ∀ {κ' : Link} (_ : κ ≤ κ') {es fs : List (Exp Tree)},
    Spaced (Exp.IsGap fun _ => False) (Expressions κ) es fs →
      Alike lax κ' (ofExpList es) (ofExpList fs) Rows
  | _, _, _, _, .nil => by
    rw [ofExpList]
    exact .pure .nil
  | _, hκ, _, _, .cons h hs => by
    rw [ofExpList, ofExpList]
    refine (alike_ofExp hκ h).bind fun κ1 h1 t u h => ?_
    refine (alike_ofExpList (Link.le_trans hκ h1) hs).bind fun κ2 h2 ts us hs => ?_
    exact .pure (.cons (h.mono h2.1) hs)
  | _, _, _, _, .gap hcs _ _ => absurd (hcs.2 _ (head_mem hcs.1)) not_isGap

end

lemma rows_getLast? (h : Rows κ ts us) : Option.Rel (Nodes κ) ts.getLast? us.getLast? := by
  rw [List.getLast?_eq_getElem?, List.getLast?_eq_getElem?, h.length_eq]
  exact h.getElem? _

lemma endingOf?_eq (h : Rows κ ts us) : endingOf? ts = endingOf? us := by
  unfold endingOf?
  obtain ⟨hs, ht⟩ | ⟨t, u, hs, ht, htu⟩ := (rows_getLast? h).eq_or_exists
  · rw [hs, ht]
  · rw [hs, ht]
    cases htu with
    | @atom i j a hij ha => cases a <;> rfl
    | _ => rfl

lemma alike_arrange (h : Rows κ ts us) : Alike lax κ (arrange ts) (arrange us) Nodes := by
  have hrow : Rows κ (if (endingOf? us).isSome then ts.dropLast else ts)
      (if (endingOf? us).isSome then us.dropLast else us) := by
    split
    · exact rows_dropLast h
    · exact h
  unfold arrange
  rw [endingOf?_eq h]
  refine (alike_lift (P := Expressions) ?_).bind fun κ1 h1 e e' he => ?_
  · obtain ⟨e, e', he, he', hee'⟩ | ⟨fault, hts, hus⟩ := Precedence.arrange_spaced
      (fun _ => False.elim) (fun _ _ => sameLook_of_nodes) (.of_forall₂ hrow)
    · exact .inl ⟨e, e', he, he', hee'⟩
    · exact .inr ⟨fault, fault, hts, hus⟩
  · refine (alike_ofExp κ1.le_refl he).bind fun κ2 h2 t u htu => ?_
    have hother : Alike lax κ2 (do setEnding (← statement [t]) (endingOf? us))
        (do setEnding (← statement [u]) (endingOf? us)) Nodes :=
      (alike_statement (.cons htu .nil)).bind fun _ _ _ _ h => alike_setEnding h _
    cases htu with
    | statement hij hcs => exact alike_setEnding (.statement hij hcs) _
    | _ => exact hother

lemma rows_splitCommas (h : Rows κ ts us) : Forall₂ (Rows κ) (splitCommas ts) (splitCommas us) := by
  induction h with
  | nil => exact .cons .nil .nil
  | @cons t u ts us htu hts ih =>
    rw [splitCommas, splitCommas, htu.isMark]
    cases hparts : splitCommas ts with
    | nil => exact absurd hparts (splitCommas_ne_nil ts)
    | cons part parts =>
      rw [hparts] at ih
      generalize splitCommas us = parts' at ih ⊢
      cases ih with
      | cons hpart hparts =>
        cases u.isMark "," with
        | true => exact .cons .nil (.cons hpart hparts)
        | false => exact .cons (.cons htu hpart) hparts

lemma alike_arrayElements (h : Rows κ ts us) (place place' : Position) :
    Alike lax κ (arrayElements ts place) (arrayElements us place') Rows := by
  refine .ite (by rw [h.isEmpty]) (.pure .nil) ?_
  refine Alike.mapM (R := fun κ => Rows κ) (fun hκ h => h.mono hκ.1) (fun hκ h => h.mono hκ.1)
    (fun κ' _ part part' hpart => ?_) (rows_splitCommas h)
  exact .ite (by rw [hpart.isEmpty]) .throw (alike_arrange hpart)

/-! ### Conditionals -/

namespace Nodes

lemma isDirective (h : Nodes κ t u) (word : String) : t.isDirective word = u.isDirective word := by
  cases h <;> rfl

lemma not_define (h : Nodes κ t u) : u.isDirective "#define" = false := by
  cases h with
  | atom _ ha => exact ha.2
  | _ => rfl

lemma startsConditional (h : Nodes κ t u) : startsConditional t = startsConditional u := by
  rw [Build.startsConditional, Build.startsConditional, h.isDirective, h.isDirective]

lemma isOpening (h : Nodes κ t u) : isOpening t = isOpening u := by
  rw [Build.isOpening, Build.isOpening, h.isMark, h.isMark, h.isMark]

lemma isClosing (h : Nodes κ t u) : isClosing t = isClosing u := by
  rw [Build.isClosing, Build.isClosing, h.isMark, h.isMark, h.isMark]

lemma closesOuter (h : Nodes κ t u) (levels : Levels) :
    closesOuter levels t = closesOuter levels u := by
  rw [Build.closesOuter, Build.closesOuter, h.isMark, h.isMark, h.isMark]

lemma isEnd (h : Nodes κ t u) (stop : Stop) : stop.isEnd t = stop.isEnd u := by
  cases h with
  | @atom i j a hij ha => cases a <;> rfl
  | _ => rfl

end Nodes

lemma rows_findIdx? {p : Tree → Bool} (hp : ∀ {t u}, Nodes κ t u → p t = p u)
    (h : Rows κ ts us) : ts.findIdx? p = us.findIdx? p := by
  induction h with
  | nil => rfl
  | cons htu _ ih => rw [findIdx?_cons, findIdx?_cons, hp htu, ih]

lemma rows_lastIndex? {p : Tree → Bool} (hp : ∀ {t u}, Nodes κ t u → p t = p u)
    (h : Rows κ ts us) : lastIndex? p ts = lastIndex? p us := by
  rw [lastIndex?, lastIndex?, rows_findIdx? hp (rel_reverse h), h.length_eq]

lemma rows_conditionName? (h : Rows κ ts us) (i : Nat) (name : Option String) :
    conditionName? ts i name = conditionName? us i name := by
  induction h generalizing i name with
  | nil => rfl
  | cons htu _ ih =>
    cases htu with
    | @atom _ _ a hij ha => cases a <;> simp only [conditionName?, ih]
    | _ => simp only [conditionName?, ih]

lemma isConditional_eq (h : Nodes κ t u) : isConditional t = isConditional u := by
  rw [isConditional, isConditional, h.kind]

lemma rows_between (h : Rows κ ts us) (i j : Nat) : Rows κ (between ts i j) (between us i j) :=
  forall₂_take _ (forall₂_drop _ h)

lemma rows_branch (h : Rows κ ts us) (positive defined : Bool) (line : Nat) (elseAt : Option Nat)
    (endif : Nat) : Rows κ (branch ts positive defined line elseAt endif)
      (branch us positive defined line elseAt endif) := by
  unfold branch
  rw [rows_findIdx? isConditional_eq (forall₂_take endif h)]
  dsimp only
  split
  · exact rows_between h _ _
  · cases elseAt with
    | none => exact .nil
    | some i => exact rows_between h _ _

lemma resolve_alike (h : Rows κ ts us) (definitions : Definitions) (before before' : Position) :
    (∃ p q, resolve ts definitions before = .ok p ∧ resolve us definitions before' = .ok q ∧
      Rows κ p.1 q.1 ∧ Rows κ p.2 q.2) ∨ ∃ e f, resolve ts definitions before = .error e ∧
      resolve us definitions before' = .error f := by
  have hlast (word : String) :
      lastIndex? (·.isDirective word) ts = lastIndex? (·.isDirective word) us :=
    rows_lastIndex? (fun h => h.isDirective word) h
  unfold resolve
  simp only [hlast]
  cases lastIndex? (·.isDirective
      (if (lastIndex? (·.isDirective "#ifdef") us).isSome then "#ifdef" else "#ifndef")) us with
  | none => exact .inr ⟨_, _, rfl, rfl⟩
  | some first =>
    cases lastIndex? (·.isDirective "#endif") us with
    | none => exact .inr ⟨_, _, rfl, rfl⟩
    | some endif =>
      simp only [rows_conditionName? (forall₂_drop first h)]
      cases conditionName? (us.drop first) first none with
      | none => exact .inr ⟨_, _, rfl, rfl⟩
      | some found =>
        simp only [rows_findIdx? isConditional_eq (forall₂_drop (endif + 1) h)]
        cases (us.drop (endif + 1)).findIdx? isConditional with
        | none =>
          exact .inl ⟨_, _, rfl, rfl, rel_append (rows_branch h _ _ _ _ _) (forall₂_drop _ h), h⟩
        | some k =>
          dsimp only
          obtain ⟨hs, ht⟩ | ⟨t, u, hs, ht, htu⟩ := (h.getElem? (endif + 1 + k)).eq_or_exists
          · rw [hs, ht]
            exact .inl ⟨_, _, rfl, rfl, rows_branch h _ _ _ _ _, h⟩
          · rw [hs, ht]
            cases htu with
            | conditional hij hcs =>
              have hnext := Tree.Alike.conditional hij
                (rel_append hcs (forall₂_drop (endif + 1 + k + 1) h))
              have hset := h.set hnext (endif + 1 + k)
              refine .inl ⟨_, _, rfl, rfl, rel_append ?_ (.cons hnext .nil),
                rel_append (forall₂_take _ h) (.cons hnext .nil)⟩
              rw [rows_lastIndex? (fun h => Nodes.isDirective h "#else") hset]
              exact rows_branch hset _ _ _ _ _
            | _ => exact .inl ⟨_, _, rfl, rfl, rows_branch h _ _ _ _ _, h⟩

lemma alike_resolve (h : Rows κ ts us) (definitions : Definitions) (before before' : Position) :
    Alike lax κ (lift (resolve ts definitions before)) (lift (resolve us definitions before'))
      fun κ' p q => Rows κ' p.1 q.1 ∧ Rows κ' p.2 q.2 :=
  alike_lift (resolve_alike h definitions before before')

end Build

end ArmaScript
