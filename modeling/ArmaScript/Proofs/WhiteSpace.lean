import ArmaScript.Proofs.Pieces
import ArmaScript.Proofs.Reflowing

/-!
# White space and runs

A script is run as the trimmed one is, and trimmed scripts with gaps in the same places are alike. So the
size of the gaps outside of braces makes no difference to a run: it ends well or not, and if it does, the
outcomes and the variables correspond.
-/

namespace ArmaScript

open Script

/-! ### Running trimmed scripts -/

namespace Run

lemma Agree.ok_or_error {α : Type} {x y : Run α} (h : Agree x y) (w : World) :
    (∃ a w', x w = .ok a w' ∧ y w = .ok a w') ∨ ∃ e f u v, x w = .error e u ∧ y w = .error f v := by
  have houtcomes := h ⟨fun _ _ => False, fun _ _ => False, fun _ => False⟩ w w rfl
  revert houtcomes
  generalize x w = r
  generalize y w = r'
  rintro (⟨-, -, rfl, rfl⟩ | - | ⟨⟨⟩⟩ | ⟨⟨⟩⟩)
  · exact .inl ⟨_, _, rfl, rfl⟩
  · exact .inr ⟨_, _, _, _, rfl, rfl⟩

/-- Computations end alike if they agree with some that do. -/
lemma alikeTo_of_agree {α : Type} {rel rel' : Link → World → World → Prop} {κ : Link}
    {x x' y y' : Run α} {P : Link → α → α → Prop} (hx : Agree x x') (hy : Agree y y')
    (h : AlikeTo False rel rel' κ x' y' P) : AlikeTo False rel rel' κ x y P := by
  intro w v hwv
  have houtcomes := h w v hwv
  obtain ⟨a, w', hx, hx'⟩ | ⟨e, f, u, u', hx, hx'⟩ := hx.ok_or_error w
  · obtain ⟨b, v', hy, hy'⟩ | ⟨e', f', t, t', hy, hy'⟩ := hy.ok_or_error v
    · rw [hx, hy, ← hx', ← hy']
      exact houtcomes
    · rw [hx', hy'] at houtcomes
      cases houtcomes with
      | right h => exact h.elim
  · obtain ⟨b, v', hy, hy'⟩ | ⟨e', f', t, t', hy, hy'⟩ := hy.ok_or_error v
    · rw [hx', hy'] at houtcomes
      cases houtcomes with
      | left h => exact h.elim
    · rw [hx, hy]
      exact .error

lemma agree_runFile (depth : Nat) (ts : List Tree) :
    Agree (runFile (answerWithin depth) ts) (do
      let opened ← openFile
      let outcome ← runAll (answerWithin depth) (Tree.trimBase ts) opened.2
      return (opened.1, outcome)) := by
  refine (Agree.refl _).bind fun opened => Agree.bind ?_ fun _ => .refl _
  rw [Tree.trimBase_eq]
  exact Agree.foldlM (fun _ t => ((agree_answerWithin depth).1 t).bind fun _ => .refl _) _ _

end Run

/-! ### Scripts with gaps in the same places -/

namespace Script

/-- The link between the nodes of two scripts that have places. -/
def placedLink (script script' : Script) (κ : Link) : Link where
  ids i j := κ.ids i j ∧ script.Placed i ∧ script'.Placed j
  nothings _ _ := False
  held _ := False

variable {script script' : Script} {κ : Link} {n m : Nat}

lemma fits_placedLink (h : κ.Fits n m) : (placedLink script script' κ).Fits n m where
  ids_lt hij := h.ids_lt hij.1
  nothings_lt := nofun
  held_lt := nofun
  unique hij hij' := h.unique hij.1 hij'.1
  apart := nofun
  free := nofun

lemma alike_placedLink (hfits : κ.Fits script.nextId script'.nextId)
    (hmade : script.tree.Made n script.nextId) (hmade' : script'.tree.Made m script'.nextId) :
    Store.Alike (placedLink script script' κ)
      ({ Store.empty with nextId := script.nextId }.setPlaces script.places)
      ({ Store.empty with nextId := script'.nextId }.setPlaces script'.places) :=
  Store.alike_of_places (fits_placedLink hfits) (fun x hx => (Placed.lt hmade ⟨x, hx, rfl⟩).2)
    (fun x hx => (Placed.lt hmade' ⟨x, hx, rfl⟩).2) (fun hij => hij.2) nofun

/-- Only nodes with places are linked, also when the scripts are trimmed. -/
lemma alike_trimBase_placed (hmade : script.tree.Made n script.nextId)
    (hmade' : script'.tree.Made m script'.nextId)
    (h : Build.RespacedList κ script.tree.children script'.tree.children) :
    Tree.AlikeList (placedLink script script' κ).ids (Tree.trimBase script.tree.children)
      (Tree.trimBase script'.tree.children) := by
  have halike := Tree.alike_trimBase (.of_forall₂ h)
  exact halike.placed (p := .start) (q := .start) hmade.children.trimBase
    (Tree.forall_places_trimBase _ fun x hx => placed_of_mem hmade hx)
    (Tree.forall_places_trimBase _ fun x hx => placed_of_mem hmade' hx)

end Script

namespace Run

/-- Files with gaps in the same places are run alike. -/
lemma alikeTo_file_respaced {script script' : Script} {κ : Link} {n m : Nat} (depth : Nat)
    (hmade : script.tree.Made n script.nextId) (hmade' : script'.tree.Made m script'.nextId)
    (h : Build.RespacedList κ script.tree.children script'.tree.children) :
    AlikeTo False (World.Alike fun _ => ⟨0, 0, 0, []⟩) (World.Alike fileLayers)
      (script.placedLink script' κ) (runFile (answerWithin depth) script.tree.children)
      (runFile (answerWithin depth) script'.tree.children)
      fun κ' p q => p.1 = q.1 ∧ Value.Alike κ' p.2 q.2 := by
  have htrim := alike_trimBase_placed hmade hmade' h
  refine alikeTo_of_agree (agree_runFile depth _) (agree_runFile depth _) ?_
  refine AlikeTo.bind (alikeTo_openFile rfl) fun κ1 h1 p q hpq => ?_
  refine AlikeTo.bind (alike_statements (alike_answerWithin depth) (htrim.mono h1.1) hpq.2)
    fun κ2 h2 o o' ho => ?_
  exact Alike.pure ⟨hpq.1, ho⟩

/-- Without depth nothing is run. -/
lemma exists_error_of_zero (text : String) :
    ∃ e w, interpretWithin 0 text (.single .empty []) = .error e w := by
  cases hrun : interpretWithin 0 text (.single .empty []) with
  | error e w => exact ⟨e, w, rfl⟩
  | ok o w =>
    obtain ⟨depth, -, -, hdepth, -⟩ := exists_runFile hrun
    cases hdepth

/-- Scripts with gaps in the same places end alike. -/
lemma exists_outcomes_reflowed {s s' : String} {as bs : List Atom} (depth : Nat)
    (hlex : Atom.lex s = .ok as) (hlex' : Atom.lex s' = .ok bs)
    (hplain : ∀ a ∈ as, a.isReplacing = false) (h : Reflowed [] as bs) :
    ∃ layers κ, Outcomes False (World.Alike layers) Value.Alike κ
      (interpretWithin depth s (.single .empty [])) (interpretWithin depth s' (.single .empty [])) := by
  have hplain' : ∀ b ∈ bs, b.isReplacing = false :=
    h.forall_mem (fun a ha => (Atom.plain_of_isBlank ha).1) hplain
  cases hread : read s 0 with
  | error e =>
    cases hread' : read s' 0 with
    | error e' =>
      exact @exists_outcomes_of_error s' s (.single .empty []) (.single .empty []) e e' hread hread' depth
    | ok script' =>
      -- gaps in the same places are a symmetric matter, so the first script could be read as well
      obtain ⟨script, -, hscript, -⟩ :=
        exists_read_reflowed (m := 0) hlex' hlex hplain' h.symm hread'
      cases hread.symm.trans hscript
  | ok script =>
    obtain ⟨script', κ, hread', hfits, hchildren⟩ :=
      exists_read_reflowed (m := 0) hlex hlex' hplain h hread
    have hmade := made_of_read hlex hplain hread
    have hmade' := made_of_read hlex' hplain' hread'
    cases depth with
    | zero =>
      obtain ⟨e, w, hleft⟩ := exists_error_of_zero s
      obtain ⟨e', w', hright⟩ := exists_error_of_zero s'
      rw [hleft, hright]
      exact ⟨fun _ => ⟨0, 0, 0, []⟩, κ, .error⟩
    | succ depth =>
      have hrun {text : String} {script : Script} (hread : read text 0 = .ok script) :
          interpretWithin (depth + 1) text (.single .empty []) = (do
            let done ← runFile (answerWithin depth) script.tree.children
            setCurrent done.1
            return done.2) (.single
              ({ Store.empty with nextId := script.nextId }.setPlaces script.places) []) := by
        have hscript : readScript text (.single .empty []) = .ok script (.single
            ({ Store.empty with nextId := script.nextId }.setPlaces script.places) []) :=
          readScript_eq_ok.mpr ⟨hread, rfl⟩
        rw [interpretWithin_succ, bind_of_eq_ok hscript]
      rw [hrun hread, hrun hread']
      refine ⟨fileLayers, _, AlikeTo.bind (alikeTo_file_respaced depth hmade hmade' hchildren)
        (fun κ1 h1 p q hpq => ?_) _ _
        (alike_single (alike_placedLink hfits hmade hmade'))⟩
      rw [hpq.1]
      exact AlikeTo.bind (alike_setCurrent q.1) fun κ2 h2 _ _ _ => Alike.pure (hpq.2.mono h2)

/-! ### Scripts of code -/

variable {id i : NodeId} {cs ds ts : List Tree}

/-- A script of code with a semicolon behind it is run to its end. -/
lemma exists_interpret_code {text : String} {root n : NodeId}
    (hread : read text 0 = .ok ⟨.statement root false none ts, n⟩)
    (hts : ts.filter Tree.isBase = [.statement id false (some .semicolon) cs])
    (hbase : cs.filter Tree.isBase = [.code i ds]) :
    ∃ o w, interpretWithin 4 text (.single .empty []) = .ok o w := by
  obtain ⟨w0, hscript, -, hplaced⟩ := Formula.exists_readScript (w := .single .empty []) hread
  obtain rfl := (readScript_eq_ok.mp hscript).2
  have hmem : .statement id false (some .semicolon) cs ∈ ts :=
    List.mem_of_mem_filter (hts ▸ List.mem_singleton_self _)
  obtain ⟨p, w, hfile, -⟩ := exists_runFile_node (hplaced.child hmem) hts
    fun w h => exists_ended h hbase fun w h => by
      obtain ⟨w', hcopy, hgrows⟩ := exists_copyPlace h.self i
      have hanswer : answerWithin 1 (.node (.code i ds)) w = .ok (.ofTree (.code i ds)) w' :=
        bind_eq rfl (bind_eq hcopy rfl)
      refine ⟨_, w', hanswer, hgrows, rfl, fun u w => ?_⟩
      have hnodes : (Tree.statement id false (some .semicolon) cs).base = [.code i ds] := hbase
      rw [outcomeOf, Index.lookup_eq_nil rfl, hnodes]
      rfl
  rw [interpretWithin_succ]
  exact ⟨_, _, bind_eq hscript (bind_eq hfile (bind_eq rfl rfl))⟩

lemma exists_interpret_gaps :
    ∃ o w, interpretWithin 4 "\x7b[ ]\x7d; " (.single .empty []) = .ok o w := by
  have hlex : Atom.lex "\x7b[ ]\x7d; " = .ok [.mark "\x7b", .mark "[", .space, .mark "]", .mark "\x7d",
    .mark ";", .space] := rfl
  have hread : read "\x7b[ ]\x7d; " 0 = .ok ⟨.statement 19 false none [.statement 16 false
      (some .semicolon) [.code 15 [.atom 13 (.mark "\x7b"), .statement 12 false none [.array 11
        [.atom 9 (.mark "["), .statement 8 false none [.atom 2 .space], .atom 10 (.mark "]")]],
        .atom 14 (.mark "\x7d")], .atom 17 (.mark ";")], .statement 18 false none
        [.atom 6 .space]], 20⟩ := by
    refine (read_eq_ok_iff hlex (by decide)).mpr ⟨[.group (.atom 0 (.mark "\x7b"))
      (.atom 4 (.mark "\x7d")) [.group (.atom 1 (.mark "[")) (.atom 3 (.mark "]"))
        [.token (.atom 2 .space)]], .token (.atom 5 (.mark ";")), .token (.atom 6 .space)], ?_, ?_, rfl⟩
    · simp [leaves]
    · have harray : Item.Open [.curly] (.group (.atom 1 (.mark "[")) (.atom 3 (.mark "]"))
          [.token (.atom 2 .space)]) :=
        ⟨.square, rfl, ⟨.square, rfl, by decide⟩, ⟨rfl, rfl⟩, trivial⟩
      exact ⟨⟨.curly, rfl, ⟨.curly, rfl, by decide⟩, harray, trivial⟩, ⟨rfl, rfl⟩, ⟨rfl, rfl⟩, trivial⟩
  exact exists_interpret_code hread rfl rfl

/-! ### The size of gaps -/

/-- Scripts without directives that replace tokens, whose tokens only differ in the size of the gaps
outside of braces: both are run to their end or neither is, and then the outcomes are alike and every
name stands for the same in every namespace, up to the places that values have. -/
theorem interpret_reflowed {s s' : String} {as bs : List Atom} (depth : Nat)
    (hlex : Atom.lex s = .ok as) (hlex' : Atom.lex s' = .ok bs)
    (hplain : ∀ a ∈ as, a.isReplacing = false) (h : Reflowed [] as bs) :
    ((∃ o w, interpretWithin depth s (.single .empty []) = .ok o w) ↔
      ∃ o' w', interpretWithin depth s' (.single .empty []) = .ok o' w') ∧
    ∀ o w o' w', interpretWithin depth s (.single .empty []) = .ok o w →
      interpretWithin depth s' (.single .empty []) = .ok o' w' →
      ∃ κ, Store.Alike κ w.store w'.store ∧ Value.Alike κ o o' ∧
        (∀ level, w.store.textWithin level o = w'.store.textWithin level o') ∧
        ∀ space name, ∃ v v', find? space name w = .ok v w ∧ find? space name w' = .ok v' w' ∧
          Value.AlikeOption κ v v' ∧
          ∀ level, v.map (w.store.textWithin level) = v'.map (w'.store.textWithin level) := by
  obtain ⟨layers, κ, houtcomes⟩ := exists_outcomes_reflowed depth hlex hlex' hplain h
  exact ends_alike houtcomes

theorem interpret_reflowed_code :
    ∃ o w o' w', interpretWithin 4 "\x7b[ ]\x7d; " (.single .empty []) = .ok o w ∧
      interpretWithin 4 "\x7b[ ]\x7d;\t\n" (.single .empty []) = .ok o' w' ∧
      ∀ level, w.store.textWithin level o = w'.store.textWithin level o' := by
  have hlex : Atom.lex "\x7b[ ]\x7d; " = .ok [.mark "\x7b", .mark "[", .space, .mark "]", .mark "\x7d",
    .mark ";", .space] := rfl
  have hlex' : Atom.lex "\x7b[ ]\x7d;\t\n" = .ok [.mark "\x7b", .mark "[", .space, .mark "]",
    .mark "\x7d", .mark ";", .tab, .lineEnd "\n"] := rfl
  have haround : ([.mark "\x7b", .mark "[", .space, .mark "]", .mark "\x7d", .mark ";"] :
      List Atom).foldl (fun around a => a.behind around) [] = [] := by decide
  have hgap : Reflowed [] [.space] [.tab, .lineEnd "\n"] :=
    @Reflowed.gap [] [.space] [.tab, .lineEnd "\n"] [] [] List.not_mem_nil ⟨nofun, by decide⟩
      ⟨nofun, by decide⟩ .nil
  obtain ⟨hiff, hends⟩ := interpret_reflowed 4 hlex hlex' (by decide)
    (.prepend [.mark "\x7b", .mark "[", .space, .mark "]", .mark "\x7d", .mark ";"]
      (by rw [haround]; exact hgap))
  obtain ⟨o, w, hleft⟩ := exists_interpret_gaps
  obtain ⟨o', w', hright⟩ := hiff.mp ⟨o, w, hleft⟩
  obtain ⟨-, -, -, htexts, -⟩ := hends o w o' w' hleft hright
  exact ⟨o, w, o', w', hleft, hright, htexts⟩

/-- A gap makes a difference where there was none: without it the array has no element. -/
theorem interpret_missing_gap :
    (∀ depth, ∃ e w, interpretWithin depth "\x7b[]\x7d; " (.single .empty []) = .error e w) ∧
      ∃ o w, interpretWithin 4 "\x7b[ ]\x7d; " (.single .empty []) = .ok o w := by
  have hread : read "\x7b[]\x7d; " 0 = .error .emptyArray := rfl
  exact ⟨exists_error_of_read hread, exists_interpret_gaps⟩

end Run

end ArmaScript
