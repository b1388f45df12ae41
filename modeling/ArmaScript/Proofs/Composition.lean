import ArmaScript.Proofs.ReadingCorrespondence

/-!
# Scripts in two pieces

A piece of a script that ends with a semicolon is lexed and read on its own, whatever follows: behind
it no quote, no comment, no bracket and no statement is open. What follows is read as if it stood
alone, as long as it has no definitions.
-/

namespace ArmaScript

/-! ### Outlines -/

namespace Item

/-- Items of the same shape with tokens that are alike. -/
inductive Alike (R : NodeId → NodeId → Prop) : Item → Item → Prop
  | token {t u : Tree} (h : Tree.Alike R t u) : Alike R (.token t) (.token u)
  | group {o o' c c' : Tree} {is js : List Item} (ho : Tree.Alike R o o') (hc : Tree.Alike R c c')
      (h : List.Forall₂ (Alike R) is js) : Alike R (.group o c is) (.group o' c' js)

variable {R S : NodeId → NodeId → Prop}

mutual

theorem Alike.mono (hRS : ∀ i j, R i j → S i j) : ∀ {i j : Item}, Alike R i j → Alike S i j
  | _, _, .token h => .token (h.mono hRS)
  | _, _, .group ho hc h => .group (ho.mono hRS) (hc.mono hRS) (alikeList_mono hRS h)

theorem alikeList_mono (hRS : ∀ i j, R i j → S i j) :
    ∀ {is js : List Item}, List.Forall₂ (Alike R) is js → List.Forall₂ (Alike S) is js
  | _, _, .nil => .nil
  | _, _, .cons h hs => .cons (h.mono hRS) (alikeList_mono hRS hs)

end

variable {t u : Tree}

lemma opens?_eq (h : Tree.Alike R t u) : t.opens? = u.opens? := by
  cases h <;> rfl

lemma closes?_eq (h : Tree.Alike R t u) : t.closes? = u.closes? := by
  cases h <;> rfl

mutual

theorem exists_alike : ∀ {around : List Bracket} {i : Item} {row : List Tree}, i.Open around →
    Tree.AlikeList R i.flat row → ∃ j, Alike R i j ∧ j.flat = row ∧ j.Open around
  | around, .token t, row, hopen, h => by
    rw [flat_token] at h
    obtain _ | ⟨htu, _ | _⟩ := h
    rename_i u
    refine ⟨.token u, .token htu, flat_token u, ?_⟩
    rw [Open, ← opens?_eq htu, ← closes?_eq htu]
    exact hopen
  | around, .group o c content, row, hopen, h => by
    obtain ⟨k, ho, ⟨k', hc, hk'⟩, hcontent⟩ := hopen
    rw [flat_group, List.cons_append] at h
    obtain _ | ⟨hoo, h⟩ := h
    obtain ⟨inner, last, rfl, hinner, hlast⟩ := h.exists_of_append
    obtain _ | ⟨hcc, _ | _⟩ := hlast
    rename_i o' c'
    obtain ⟨js, hjs, rfl, hopen'⟩ := exists_alikeList hcontent hinner
    refine ⟨.group o' c' js, .group hoo hcc hjs, flat_group .., k, ?_, ⟨k', ?_, hk'⟩, hopen'⟩
    · rw [← opens?_eq hoo]
      exact ho
    · rw [← closes?_eq hcc]
      exact hc

theorem exists_alikeList : ∀ {around : List Bracket} {is : List Item} {row : List Tree},
    OpenList around is → Tree.AlikeList R (flatList is) row →
    ∃ js, List.Forall₂ (Alike R) is js ∧ flatList js = row ∧ OpenList around js
  | around, [], row, _, h => by
    rw [flatList_nil] at h
    cases h
    exact ⟨[], .nil, flatList_nil, trivial⟩
  | around, i :: is, row, hopen, h => by
    rw [OpenList] at hopen
    rw [flatList_cons] at h
    obtain ⟨first, rest, rfl, hfirst, hrest⟩ := h.exists_of_append
    obtain ⟨j, hj, rfl, hjopen⟩ := exists_alike hopen.1 hfirst
    obtain ⟨js, hjs, rfl, hjsopen⟩ := exists_alikeList hopen.2 hrest
    exact ⟨j :: js, .cons hj hjs, flatList_cons .., hjopen, hjsopen⟩

end

open Build

variable {lax : Prop} {κ : Link} {ts us ss ss' : List Tree}

lemma alike_closeRow (hrow : Rows κ ts us) (hss : Rows κ ss ss') :
    Build.Alike lax κ (closeRow ts ss) (closeRow us ss') Rows := by
  refine .ite (by rw [hrow.isEmpty]) (.pure hss) ?_
  refine (alike_arrange hrow).bind fun κ1 h1 t u htu => .pure ?_
  exact List.rel_append (hss.mono h1.1) (.cons htu .nil)

lemma alike_closeBlock (hrow : Rows κ ts us) (hss : Rows κ ss ss') (k : Bracket) :
    Build.Alike lax κ (closeBlock ts ss k) (closeBlock us ss' k) Nodes := by
  cases k with
  | round => exact (alike_closeRow hrow hss).bind fun _ _ _ _ h => alike_bracketed h
  | curly => exact (alike_closeRow hrow hss).bind fun _ _ _ _ h => alike_code h
  | square =>
    refine .ite (by rw [hss.isEmpty]) ?_ .throw
    exact (alike_arrayElements hrow _ _).bind fun _ _ _ _ h => alike_array h

lemma rows_rowWith (hrow : Rows κ ts us) (htu : Nodes κ t u) :
    Rows κ (rowWith ts t) (rowWith us u) := by
  unfold rowWith
  rw [htu.kind]
  split
  · exact hrow
  · exact List.rel_append hrow (.cons htu .nil)

mutual

theorem alike_build (stop : Stop) : ∀ {κ : Link} {i j : Item}, Alike κ.ids i j →
    Build.Alike lax κ (i.build stop) (j.build stop) Nodes
  | _, .token t, .token u, .token h => by
    rw [build_token, build_token]
    exact .pure h
  | _, .group o c is, .group o' c' js, .group ho hc h => by
    rw [build, build, opens?_eq ho, closes?_eq hc]
    exact (alike_buildList _ h .nil .nil).bind fun _ _ _ _ h => alike_closeBlock h.1 h.2 _

theorem alike_buildList (stop : Stop) : ∀ {κ : Link} {is js : List Item} {ts us ss ss' : List Tree},
    List.Forall₂ (Alike κ.ids) is js → Rows κ ts us → Rows κ ss ss' →
    Build.Alike lax κ (buildList stop is ts ss) (buildList stop js us ss')
      fun κ' p q => Rows κ' p.1 q.1 ∧ Rows κ' p.2 q.2
  | _, [], [], _, _, _, _, .nil, hrow, hss => by
    rw [buildList_nil, buildList_nil]
    exact .pure ⟨hrow, hss⟩
  | _, i :: is, j :: js, _, _, _, _, .cons h hs, hrow, hss => by
    rw [buildList_cons, buildList_cons]
    refine (alike_build stop h).bind fun κ1 h1 t u htu => ?_
    have hrow := rows_rowWith (hrow.mono h1.1) htu
    refine .ite (by rw [htu.isEnd]) ?_ ?_
    · refine (alike_closeRow hrow (hss.mono h1.1)).bind fun κ2 h2 ss ss' hss => ?_
      exact alike_buildList stop (alikeList_mono (Link.le_trans h1 h2).1 hs) .nil hss
    · exact alike_buildList stop (alikeList_mono h1.1 hs) hrow (hss.mono h1.1)

end

end Item

/-! ### Links between leaves -/

/-- The link of `length` identities from `n` on with those from `m` on. -/
def Link.range (n m length : Nat) (held : Nat → Prop) : Link :=
  ⟨fun i j => ∃ k < length, i = n + k ∧ j = m + k, fun _ _ => False, held⟩

variable {n m length n' m' : Nat}

lemma Link.fits_range {held : Nat → Prop} (hn : n + length ≤ n') (hm : m + length ≤ m')
    (hheld : ∀ j, held j → j < m' ∧ (j < m ∨ m + length ≤ j)) :
    (Link.range n m length held).Fits n' m' where
  ids_lt := by
    rintro i j ⟨k, hk, rfl, rfl⟩
    omega
  nothings_lt := nofun
  held_lt hj := (hheld _ hj).1
  unique := by
    rintro i j i' j' ⟨k, hk, rfl, rfl⟩ ⟨k', hk', rfl, rfl⟩
    omega
  apart := nofun
  free := by
    refine fun hj => ⟨?_, nofun⟩
    rintro ⟨k, hk, rfl, rfl⟩
    have := hheld _ hj
    omega

/-- Identities that another link holds can be linked, apart from those it links. -/
lemma Link.fits_range_held {κ : Link} (h : κ.Fits n' m')
    (hheld : ∀ j, m ≤ j → j < m + length → κ.held j) (hlength : 0 < length) :
    (Link.range n m length fun j => ∃ i, κ.ids i j).Fits (n + length) m' := by
  have hlast := h.held_lt (hheld (m + length - 1) (by omega) (by omega))
  refine fits_range (Nat.le_refl _) (by omega) ?_
  rintro j ⟨i, hij⟩
  refine ⟨(h.ids_lt hij).2, ?_⟩
  by_contra hj
  exact (h.free (hheld j (by omega) (by omega))).1 hij

namespace Script

open Build

variable {κ : Link} {n m : NodeId} {tokens : List Atom}

lemma rows_leaves (hids : ∀ k < tokens.length, κ.ids (n + k) (m + k))
    (htokens : ∀ a ∈ tokens, a.kind ≠ .nothing ∧ a.isDirective "#define" = false) :
    Rows κ (leaves n tokens) (leaves m tokens) := by
  induction tokens generalizing n m with
  | nil => exact .nil
  | cons a as ih =>
    refine .cons (.atom (hids 0 (by simp)) (htokens a (by simp)))
      (ih ?_ fun b hb => htokens b (by simp [hb]))
    intro k hk
    have := hids (k + 1) (by simpa using hk)
    rwa [Nat.add_assoc, Nat.add_assoc, Nat.add_comm 1 k]

/-- What is left to read behind a first piece of a row is read as it is on its own. -/
lemma alike_blockFrom_behind {row first rest front : List Tree} {stop : Stop}
    {depth depth' fuel : Nat} (hrow : Rows κ row rest) (hne : row ≠ []) :
    Build.Alike True κ (block (depth + 1) row.toArray 0 .none stop)
      (blockFrom (block depth') (first ++ rest).toArray 0 stop fuel
        ⟨first.length, #[], front.toArray, .none⟩)
      fun κ' p q => ∃ behind, q.1.children = front ++ behind ∧ Rows κ' p.1.children behind := by
  have hshifted : Shifted κ first.length row.toArray (first ++ rest).toArray := by
    refine ⟨?_, fun i => ?_⟩
    · simp [hrow.length_eq, Nat.add_comm]
    · rw [List.getElem?_toArray, List.getElem?_toArray,
        List.getElem?_append_right (Nat.le_add_left _ _), Nat.add_sub_cancel]
      exact hrow.getElem? i
  have hstarts : Starts first.length front .none 0 0 := fun h => absurd rfl h
  rw [block, if_neg (by simpa using hne)]
  refine .mono_post (alike_blockFrom (i := 0) hshifted (alike_block depth depth') hstarts
    ⟨rfl, ?_, Nat.le_refl _, .nil, ⟨[], ?_, .nil⟩, rfl, rfl⟩) fun _ _ _ h => h.1
  · simp
  · simp

lemma buildList_semicolon (content : List Item) (id : NodeId) :
    Item.buildList .both (content ++ [.token (.atom id (.mark ";"))]) [] [] = (do
      let (row, statements) ← Item.buildList .both content [] []
      return ([], ← closeRow (row ++ [.atom id (.mark ";")]) statements)) := by
  rw [Item.buildList_append]
  rfl

variable {text : String}

/-- The statements of a script that ends with a semicolon are closed when its tokens are read. -/
lemma exists_statements {script : Script} (hlex : Atom.lex text = .ok tokens)
    (hplain : ∀ a ∈ tokens, a.isReplacing = false) (hlast : tokens.getLast? = some (.mark ";"))
    (hread : read text n = .ok script) :
    ∃ content σ, Item.flatList content = leaves n tokens ∧ Item.OpenList [] content ∧
      Item.buildList .both content [] [] ⟨n + (tokens.length + 1), []⟩ =
        .ok ([], script.tree.children) σ ∧ script.nextId = σ.nextId + 1 := by
  obtain ⟨content, hflat, hopen, hbuild⟩ := (read_eq_ok_iff hlex hplain).mp hread
  obtain ⟨left, σ, statements, σ2, hlist, hclose, hnode⟩ := buildScript_eq_ok.mp hbuild
  have hleft : left.1 = [] := by
    obtain ⟨before, rfl⟩ := List.getLast?_eq_some_iff.mp hlast
    rw [leaves_append] at hflat
    obtain ⟨front, rfl, -⟩ := Item.exists_of_flatList_concat hopen rfl hflat
    rw [buildList_semicolon] at hlist
    obtain ⟨p, σ1, -, hend⟩ := bind_eq_ok.mp hlist
    obtain ⟨ss, σ3, -, hend⟩ := bind_eq_ok.mp hend
    cases hend
    rfl
  rw [hleft] at hclose
  cases hclose
  have hlist : Item.buildList .both content [] [] ⟨n + (tokens.length + 1), []⟩ =
      .ok ([], left.2) σ := by rw [hlist, ← hleft]
  obtain ⟨id, σ3, hid, htree⟩ := bind_eq_ok.mp hnode
  cases hid
  obtain ⟨htree, hstate⟩ := pure_eq_ok.mp htree
  rw [← htree]
  refine ⟨content, σ, hflat, hopen, hlist, ?_⟩
  exact (congrArg BuildState.nextId hstate).symm

/-- A first piece of a script, which ends with a semicolon, is read as it is on its own. -/
lemma exists_blockFrom {script : Script} (hlex : Atom.lex text = .ok tokens)
    (hplain : ∀ a ∈ tokens, a.isReplacing = false) (hlast : tokens.getLast? = some (.mark ";"))
    (hread : read text n = .ok script) {σ : BuildState}
    (hstates : BuildState.Alike κ ⟨n + (tokens.length + 1), []⟩ σ)
    (hrows : Rows κ (leaves n tokens) (leaves m tokens)) (rest : List Tree) {depth : Nat}
    (hdepth : tokens.length ≤ depth) : ∃ κ' σ' front fuel, κ ≤ κ' ∧ κ'.held = κ.held ∧
      BuildState.Alike κ' ⟨script.nextId, []⟩ σ' ∧ Rows κ' script.tree.children front ∧
      block (depth + 1) (leaves m tokens ++ rest).toArray 0 .none .both σ =
        blockFrom (block depth) (leaves m tokens ++ rest).toArray 0 .both (fuel + 1)
          ⟨(leaves m tokens).length, #[], front.toArray, .none⟩ σ' := by
  obtain ⟨content, σ1, hflat, hopen, hlist, hnext⟩ := exists_statements hlex hplain hlast hread
  rw [← hflat] at hrows
  obtain ⟨content', halike, hflat', hopen'⟩ := Item.exists_alikeList hopen hrows
  have hbuilt : Build.Alike False κ (Item.buildList .both content [] [])
      (Item.buildList .both content' [] []) fun κ' p q => Rows κ' p.1 q.1 ∧ Rows κ' p.2 q.2 :=
    Item.alike_buildList .both halike .nil .nil
  obtain ⟨κ', ⟨left, front⟩, σ', hlist', hκ, hheld, hstates', hleft, hfront⟩ :=
    AlikeTo.exists_ok hbuilt hstates hlist
  cases hleft
  have hrow : (leaves m tokens ++ rest).toArray.toList.drop 0 = Item.flatList content' ++ rest := by
    rw [hflat']
    rfl
  have hlength : (Item.flatList content').length ≤ depth := by
    rwa [hflat', length_leaves]
  have hplain' : ∀ t ∈ Item.flatList content', t.isReplacing = false := by
    rw [hflat']
    exact fun t ht => isReplacing_of_mem_leaves hplain ht
  obtain ⟨fuel, hfuel⟩ := exists_fuel hrow
  have hne : ¬(leaves m tokens ++ rest).toArray.isEmpty := by
    obtain ⟨before, rfl⟩ := List.getLast?_eq_some_iff.mp hlast
    simp [leaves_append, leaves]
  have hle : σ1.nextId ≤ script.nextId := by
    rw [hnext]
    exact Nat.le_succ _
  refine ⟨κ', σ', front, fuel, hκ, hheld,
    ⟨hstates'.fits.mono hle (Nat.le_refl _), rfl, hstates'.right⟩, hfront, ?_⟩
  rw [block, if_neg hne, hfuel, Int.natCast_zero.symm]
  refine (blockFrom_of_buildList (complete_block depth) rfl rfl hstates.right hplain' hopen' hlength
    hrow hlist').trans ?_
  rw [hflat', Nat.zero_add]

lemma isDirective_define_of_isReplacing {a : Atom} (h : a.isReplacing = false) :
    a.isDirective "#define" = false := by
  simp only [Atom.isReplacing, Bool.or_eq_false_iff] at h
  exact h.1.1.1

/-- Reading a script whose first piece ends with a semicolon is reading the piece, and then what
follows. -/
lemma exists_read_append {s1 s2 : String} {n m : Nat} {script1 : Script} {ts1 ts2 : List Atom}
    (hlex1 : Atom.lex s1 = .ok ts1) (hplain : ∀ a ∈ ts1, a.isReplacing = false)
    (hlast : ts1.getLast? = some (.mark ";")) (hread : read s1 n = .ok script1)
    (hlex2 : Atom.lex s2 = .ok ts2) (hdefine : ∀ a ∈ ts2, a.isDirective "#define" = false) :
    ∃ κ1 front, (∃ m', κ1.Fits script1.nextId m') ∧ Rows κ1 script1.tree.children front ∧
      ∀ n2, (∃ script2 script κ2 behind, read s2 n2 = .ok script2 ∧
          read (s1 ++ s2) m = .ok script ∧ script.tree.children = front ++ behind ∧
          Rows κ2 script2.tree.children behind ∧ κ2.Fits script2.nextId script.nextId ∧
          κ2.held = fun j => ∃ i, κ1.ids i j) ∨
        (∃ e e', read s2 n2 = .error e ∧ read (s1 ++ s2) m = .error e') ∨
        read s2 n2 = .error .exhausted ∨ read (s1 ++ s2) m = .error .exhausted := by
  have hlex := (Atom.lex_append hlex1 hlast).1 ts2 hlex2
  have hrow : leaves m (ts1 ++ ts2 ++ [.fileEnd]) =
      leaves m ts1 ++ leaves (m + ts1.length) (ts2 ++ [.fileEnd]) := by
    rw [List.append_assoc, leaves_append]
  obtain ⟨depth, hdepth⟩ : ∃ depth, ts1.length + ts2.length + 1 + expansionLimit = depth + 1 :=
    ⟨ts1.length + ts2.length + expansionLimit, by omega⟩
  have hcombined : read (s1 ++ s2) m = ofResult (block (depth + 1)
      (leaves m ts1 ++ leaves (m + ts1.length) (ts2 ++ [.fileEnd])).toArray 0 .none .both
      ⟨m + (ts1.length + ts2.length + 1), []⟩) := by
    rw [read_eq_of_lex hlex, hrow, ← hdepth, List.length_append]
  -- the tokens of the second piece are there while the first one is read
  let κ := Link.range n m ts1.length fun j =>
    m + ts1.length ≤ j ∧ j < m + (ts1.length + ts2.length + 1)
  have hrows1 : Rows κ (leaves n ts1) (leaves m ts1) :=
    rows_leaves (fun k hk => ⟨k, hk, rfl, rfl⟩) fun a ha =>
      ⟨Atom.kind_ne_nothing_of_lex hlex1 a ha, isDirective_define_of_isReplacing (hplain a ha)⟩
  have hfits : κ.Fits (n + (ts1.length + 1)) (m + (ts1.length + ts2.length + 1)) :=
    Link.fits_range (by omega) (by omega) fun j hj => ⟨hj.2, .inr hj.1⟩
  have hstates1 : BuildState.Alike κ ⟨n + (ts1.length + 1), []⟩
      ⟨m + (ts1.length + ts2.length + 1), []⟩ :=
    ⟨hfits, rfl, rfl⟩
  obtain ⟨κ1, σ, front, fuel, hκ, hheld, hstates, hfront, hblock⟩ :=
    exists_blockFrom hlex1 hplain hlast hread hstates1 hrows1
      (leaves (m + ts1.length) (ts2 ++ [.fileEnd])) (show ts1.length ≤ depth by omega)
  refine ⟨κ1, front, ⟨σ.nextId, hstates.fits⟩, hfront, fun n2 => ?_⟩
  -- and the nodes of the first piece are there while the second one is read
  let κ2 := Link.range n2 (m + ts1.length) (ts2.length + 1) fun j => ∃ i, κ1.ids i j
  have hrows2 : Rows κ2 (leaves n2 (ts2 ++ [.fileEnd]))
      (leaves (m + ts1.length) (ts2 ++ [.fileEnd])) := by
    refine rows_leaves (fun k hk => ⟨k, by simpa using hk, rfl, rfl⟩) fun a ha => ?_
    rcases List.mem_append.mp ha with ha | ha
    · exact ⟨Atom.kind_ne_nothing_of_lex hlex2 a ha, hdefine a ha⟩
    · rw [List.mem_singleton.mp ha]
      exact ⟨nofun, rfl⟩
  have hfits2 : κ2.Fits (n2 + (ts2.length + 1)) σ.nextId := by
    refine Link.fits_range_held hstates.fits (fun j h h' => ?_) (Nat.succ_pos _)
    rw [hheld]
    exact ⟨h, by omega⟩
  have hne : leaves n2 (ts2 ++ [.fileEnd]) ≠ [] := by simp [leaves_append, leaves]
  have hbehind : Build.Alike True κ2
      (block (ts2.length + expansionLimit + 1) (leaves n2 (ts2 ++ [.fileEnd])).toArray 0 .none
        .both)
      (blockFrom (block depth)
        (leaves m ts1 ++ leaves (m + ts1.length) (ts2 ++ [.fileEnd])).toArray 0 .both (fuel + 1)
        ⟨(leaves m ts1).length, #[], front.toArray, .none⟩)
      fun κ' p q => ∃ behind, q.1.children = front ++ behind ∧ Rows κ' p.1.children behind :=
    alike_blockFrom_behind hrows2 hne
  have houtcomes := hbehind ⟨n2 + (ts2.length + 1), []⟩ σ ⟨hfits2, rfl, hstates.right⟩
  have hsecond : read s2 n2 = ofResult (block (ts2.length + expansionLimit + 1)
      (leaves n2 (ts2 ++ [.fileEnd])).toArray 0 .none .both ⟨n2 + (ts2.length + 1), []⟩) := by
    rw [read_eq_of_lex hlex2, Nat.add_right_comm]
  rw [hcombined, hsecond, hblock]
  revert houtcomes
  generalize block (ts2.length + expansionLimit + 1) (leaves n2 (ts2 ++ [.fileEnd])).toArray 0 .none
    .both ⟨n2 + (ts2.length + 1), []⟩ = r
  generalize blockFrom (block depth) _ _ _ _ _ σ = r'
  rintro (⟨hκ2, hheld2, hstates2, behind, hchildren, hbehind⟩ | - | - | -)
  · exact .inl ⟨_, _, _, behind, rfl, rfl, hchildren, hbehind, hstates2.fits, hheld2⟩
  · exact .inr (.inl ⟨_, _, rfl, rfl⟩)
  · exact .inr (.inr (.inl rfl))
  · exact .inr (.inr (.inr rfl))

lemma ne_exhausted_of_lex (hlex : Atom.lex text = .ok tokens)
    (h : ∀ a ∈ tokens, a.isDirective "#define" = false ∧ a.isDirective "#else" = false)
    (firstId : NodeId) : read text firstId ≠ .error .exhausted := by
  intro hread
  obtain ⟨script, hok⟩ | ⟨fault, herror, hfault⟩ := read_ok_or_error hlex h firstId
  · cases hread.symm.trans hok
  · cases hread.symm.trans herror
    obtain hfault | ⟨hfault, -⟩ := hfault
    · exact hfault
    · cases hfault

/-- A script without replacing directives that ends with a semicolon and any script without
definitions are read together exactly if the second one is read, and the statements are those of the
first one and then those of the second one. -/
theorem read_append {s₁ s₂ : String} {n₁ n₂ n : NodeId} {script₁ : Script} {ts₁ : List Atom}
    (hlex₁ : Atom.lex s₁ = .ok ts₁) (hplain : ∀ a ∈ ts₁, a.isReplacing = false)
    (hlast : ts₁.getLast? = some (.mark ";")) (hread : read s₁ n₁ = .ok script₁)
    (hdefine : ∀ ts₂, Atom.lex s₂ = .ok ts₂ → ∀ a ∈ ts₂, a.isDirective "#define" = false)
    (hlimit : (∀ ts, Atom.lex (s₁ ++ s₂) = .ok ts → ∀ a ∈ ts, a.isDirective "#else" = false) ∨
      (read s₂ n₂ ≠ .error .exhausted ∧ read (s₁ ++ s₂) n ≠ .error .exhausted)) :
    ((∃ script, read (s₁ ++ s₂) n = .ok script) ↔ ∃ script₂, read s₂ n₂ = .ok script₂) ∧
      ∀ script script₂, read (s₁ ++ s₂) n = .ok script → read s₂ n₂ = .ok script₂ →
        Tree.AlikeList (fun _ _ => True) (script₁.tree.children ++ script₂.tree.children)
          script.tree.children := by
  cases hlex₂ : Atom.lex s₂ with
  | error e =>
    obtain ⟨e', hlex⟩ := (Atom.lex_append hlex₁ hlast).2 e hlex₂
    have hread₂ : read s₂ n₂ = .error e := by rw [read, hlex₂]; rfl
    have hread' : read (s₁ ++ s₂) n = .error e' := by rw [read, hlex]; rfl
    rw [hread₂, hread']
    simp
  | ok ts₂ =>
    have hlex := (Atom.lex_append hlex₁ hlast).1 ts₂ hlex₂
    obtain ⟨hlimit₂, hlimit'⟩ :
        read s₂ n₂ ≠ .error .exhausted ∧ read (s₁ ++ s₂) n ≠ .error .exhausted := by
      refine hlimit.elim (fun hotherwise => ?_) id
      have hotherwise := hotherwise _ hlex
      have hdefine₁ := fun a ha => isDirective_define_of_isReplacing (hplain a ha)
      constructor
      · exact ne_exhausted_of_lex hlex₂
          (fun a ha => ⟨hdefine ts₂ hlex₂ a ha, hotherwise a (List.mem_append_right _ ha)⟩) n₂
      · refine ne_exhausted_of_lex hlex (fun a ha => ⟨?_, hotherwise a ha⟩) n
        exact (List.mem_append.mp ha).elim (hdefine₁ a) (hdefine ts₂ hlex₂ a)
    obtain ⟨κ₁, front, -, hfront, hrest⟩ :=
      exists_read_append (m := n) hlex₁ hplain hlast hread hlex₂ (hdefine ts₂ hlex₂)
    obtain ⟨script₂, script, κ₂, behind, hread₂, hread', hchildren, hbehind, -⟩ |
      ⟨e, e', hread₂, hread'⟩ | hread₂ | hread' := hrest n₂
    · rw [hread₂, hread']
      refine ⟨⟨fun _ => ⟨_, rfl⟩, fun _ => ⟨_, rfl⟩⟩, ?_⟩
      rintro _ _ ⟨⟩ ⟨⟩
      rw [hchildren]
      exact List.rel_append (hfront.mono fun _ _ _ => trivial) (hbehind.mono fun _ _ _ => trivial)
    · rw [hread₂, hread']
      simp
    · exact absurd hread₂ hlimit₂
    · exact absurd hread' hlimit'

theorem read_append_strings :
    ∃ script₁, read "\"a\";" 0 = .ok script₁ ∧
      ((∃ script, read ("\"a\";" ++ "\"b\"") 0 = .ok script) ↔
        ∃ script₂, read "\"b\"" 0 = .ok script₂) ∧
      ∀ script script₂, read ("\"a\";" ++ "\"b\"") 0 = .ok script → read "\"b\"" 0 = .ok script₂ →
        Tree.AlikeList (fun _ _ => True) (script₁.tree.children ++ script₂.tree.children)
          script.tree.children := by
  have hlex₁ : Atom.lex "\"a\";" = .ok [.string (some ⟨'"', "a"⟩), .mark ";"] := rfl
  have hlex₂ : Atom.lex "\"b\"" = .ok [.string (some ⟨'"', "b"⟩)] := rfl
  have hlex : Atom.lex ("\"a\";" ++ "\"b\"") =
      .ok [.string (some ⟨'"', "a"⟩), .mark ";", .string (some ⟨'"', "b"⟩)] := rfl
  refine ⟨_, rfl, read_append hlex₁ (by decide) rfl rfl ?_ (.inl ?_)⟩
  · intro ts hts
    cases hlex₂.symm.trans hts
    decide
  · intro ts hts
    cases hlex.symm.trans hts
    decide

end Script

end ArmaScript
