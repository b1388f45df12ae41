import ArmaScript.Proofs.Reading

/-!
# Accepted scripts

A script without directives that replace tokens is read exactly if its tokens have an outline that
can be built. The reader has fuel for every such script, so what its outline says is what it does.
-/

namespace ArmaScript

open Item List

lemma Item.length_flat_pos (i : Item) : 0 < i.flat.length := by
  cases i <;> simp

lemma Item.length_le_length_flatList (content : List Item) :
    content.length ≤ (flatList content).length := by
  induction content with
  | nil => simp
  | cons i is ih =>
    have hi := i.length_flat_pos
    simp only [flatList_cons, length_cons, length_append]
    omega

namespace Build

/-- A reader that reads blocks without directives of less than `limit` tokens wherever their outline can
be built. Behind the block there may be directives. -/
def Complete (limit : Nat) (read : Reader) : Prop :=
  ∀ ⦃row⦄ ⦃start : Nat⦄ ⦃around stop σ node⦄ ⦃size : Int⦄ ⦃σ'⦄, row ≠ #[] →
    (∀ t ∈ (row.toList.drop start).take size.toNat, t.isReplacing = false) →
    σ.definitions = [] → size < limit →
    Reads stop around (row.toList.drop start) σ node size σ' →
    read row start (.ofOpen around) stop σ = .ok (node, size) σ'

variable {node : Tree} {rest : List Tree} {index fuel : Nat} {size : Int}

lemma Reads.definitions_eq {stop : Stop} {around : List Bracket} {row : List Tree}
    {σ σ' : BuildState} (h : Reads stop around row σ node size σ') :
    σ'.definitions = σ.definitions := by
  cases h with
  | closed _ _ _ _ hcontent hclose =>
    rw [keeps_closeBlock _ _ _ hclose, keeps_buildList _ _ _ _ hcontent]
  | ended _ _ _ hcontent hclose hnode =>
    rw [keeps_statement _ hnode, keeps_closeRow _ _ hclose, keeps_buildList _ _ _ _ hcontent]

lemma Reads.size_le {stop : Stop} {around : List Bracket} {row : List Tree} {σ σ' : BuildState}
    (h : Reads stop around row σ node size σ') : size ≤ row.length := by
  cases h with
  | closed hrow =>
    rw [hrow, length_append]
    exact Int.ofNat_le.mpr (Nat.le_add_right _ _)
  | ended hrow => exact Int.le_of_eq (congrArg (fun row => (row.length : Int)) hrow.symm)

lemma Reads.size_nonneg {stop : Stop} {around : List Bracket} {row : List Tree}
    {σ σ' : BuildState} (h : Reads stop around row σ node size σ') : 0 ≤ size := by
  cases h <;> exact Int.natCast_nonneg _

variable {read : Reader} {row : Array Tree} {start limit : Nat} {stop : Stop} {b : Block} {t : Tree}
  {around : List Bracket} {σ σ' : BuildState}

lemma getElem?_of_drop {i : Nat} (h : row.toList.drop i = t :: rest) : row[i]? = some t := by
  have hget : (row.toList.drop i)[0]? = some t := by rw [h]; rfl
  simpa using hget

lemma isReplacing_of_closes? {k : Bracket} (h : t.closes? = some k) : t.isReplacing = false := by
  obtain ⟨id, rfl⟩ := eq_atom_of_closes? h
  cases k <;> rfl

variable (read row start stop) in
lemma stepToken_of_closeBlock {k : Bracket} (hc : t.closes? = some k) (hk : k ∈ around)
    (hlevels : b.levels = .ofOpen around)
    (h : closeBlock b.row.toList b.statements.toList k σ = .ok node σ') :
    stepToken read row start stop b t σ = .ok (.done node (b.index - start)) σ' := by
  obtain ⟨id, rfl⟩ := eq_atom_of_closes? hc
  have hcount : around.count k ≠ 0 := Nat.ne_of_gt (count_pos_iff.mpr hk)
  cases k with
  | square =>
    have hlevel : b.levels.array ≠ 0 := by
      rw [hlevels]
      exact hcount
    change (if b.levels.array = 0 then _ else _ : Build Step) σ = _
    rw [if_neg hlevel]
    refine bind_eq_ok.mpr ⟨node, σ', ?_, rfl⟩
    unfold closeBlock at h
    split_ifs at h with hempty
    · obtain ⟨elements, σ1, h1, h2⟩ := bind_eq_ok.mp h
      unfold closeArray
      rw [isEmpty_iff.mp hempty]
      exact bind_eq (arrayElements_place h1) h2
    · cases h
  | round =>
    have hlevel : b.levels.paren ≠ 0 := by
      rw [hlevels]
      exact hcount
    change (if b.levels.paren = 0 then _ else _ : Build Step) σ = _
    rw [if_neg hlevel]
    obtain ⟨ts, σ1, h1, h2⟩ := bind_eq_ok.mp h
    refine bind_eq_ok.mpr ⟨⟨ts⟩, σ1, ?_, bind_eq h2 rfl⟩
    rw [close_eq_closeRow]
    exact map_eq_ok.mpr ⟨ts, h1, rfl⟩
  | curly =>
    have hlevel : b.levels.code ≠ 0 := by
      rw [hlevels]
      exact hcount
    change (if b.levels.code = 0 then _ else _ : Build Step) σ = _
    rw [if_neg hlevel]
    obtain ⟨ts, σ1, h1, h2⟩ := bind_eq_ok.mp h
    refine bind_eq_ok.mpr ⟨⟨ts⟩, σ1, ?_, bind_eq h2 rfl⟩
    rw [close_eq_closeRow]
    exact map_eq_ok.mpr ⟨ts, h1, rfl⟩

variable (start) in
lemma step_of_build (hindex : b.index = index) (hread : Complete limit read)
    (hlevels : b.levels = .ofOpen around) (hσ : σ.definitions = []) {i : Item}
    (hplain : ∀ t ∈ i.flat, t.isReplacing = false) (hopen : i.Open around)
    (hlimit : i.flat.length ≤ limit) (hrow : row.toList.drop index = i.flat ++ rest)
    {left : List Tree × List Tree}
    (h : buildList stop [i] b.row.toList b.statements.toList σ = .ok left σ') :
    ∃ t, row[index]? = some t ∧ step read row start stop b t σ =
      .ok (.more ⟨b.index + i.flat.length, ⟨left.1⟩, ⟨left.2⟩, b.levels⟩) σ' := by
  cases i with
  | token t =>
    have ht : row[index]? = some t := getElem?_of_drop hrow
    have hmem : t.isReplacing = false := hplain t (by simp)
    refine ⟨t, ht, ?_⟩
    rw [step_eq_stepToken hmem hσ, stepToken_plain hopen.1 hopen.2 hmem (by rw [hlevels]; rfl)]
    rw [buildList_cons, build_token, pure_bind] at h
    split_ifs at h ⊢
    · obtain ⟨statements, σ1, h1, h2⟩ := bind_eq_ok.mp h
      rw [buildList_nil] at h2
      cases h2
      exact bind_eq h1 rfl
    · rw [buildList_nil] at h
      cases h
      rfl
  | group o c content =>
    obtain ⟨k, ho, ⟨k', hc, hk'⟩, hcontent⟩ := hopen
    have hrow' : row.toList.drop index = o :: (flatList content ++ c :: rest) := by
      simpa using hrow
    have ht : row[index]? = some o := getElem?_of_drop hrow'
    have hmem : o.isReplacing = false := hplain o (by simp)
    have hne : row ≠ #[] := by
      rintro rfl
      cases ht
    refine ⟨o, ht, ?_⟩
    rw [step_eq_stepToken hmem hσ, stepToken_opening ho, hlevels, Levels.push_ofOpen]
    rw [buildList_cons] at h
    obtain ⟨node, σ1, hnode, h⟩ := bind_eq_ok.mp h
    rw [build, ho, hc] at hnode
    obtain ⟨inner, σ2, hinner, hclose⟩ := bind_eq_ok.mp hnode
    have hatom := (closeBlock_whole hclose).1
    rw [if_neg (by simp [isEnd_of_atom? stop hatom]), rowWith_of_atom? hatom, buildList_nil] at h
    cases h
    have hinside : row.toList.drop (index + 1) = flatList content ++ c :: rest := by
      rw [← drop_drop, hrow']
      rfl
    have hsize : (flatList content).length < limit := by
      simp only [flat_group, length_cons, length_append] at hlimit
      omega
    have hnode : read row (b.index + 1) (.ofOpen (k :: around)) (stop.inside k) σ =
        .ok (node, (flatList content).length) σ' := by
      rw [hindex]
      refine hread hne (fun t ht => hplain t ?_) hσ (Int.ofNat_lt.mpr hsize)
        (.closed hinside hcontent hc hk' hinner hclose)
      rw [hinside, Int.toNat_natCast, take_left] at ht
      simp [ht]
    have hpush : b.row.push node = ⟨b.row.toList ++ [node]⟩ := by
      apply Array.ext'
      simp
    have hlen : (group o c content).flat.length = (flatList content).length + 2 := by
      simp
    refine bind_eq hnode (pure_eq_ok.mpr ⟨?_, rfl⟩)
    rw [hpush, hlevels, hlen, Int.natCast_add, ← Int.add_assoc]
    rfl

lemma blockFrom_of_buildList (hread : Complete limit read) {content : List Item}
    (hindex : b.index = index) (hlevels : b.levels = .ofOpen around) (hσ : σ.definitions = [])
    (hplain : ∀ t ∈ flatList content, t.isReplacing = false)
    (hopen : OpenList around content) (hlimit : (flatList content).length ≤ limit)
    (hrow : row.toList.drop index = flatList content ++ rest) {left : List Tree × List Tree}
    (h : buildList stop content b.row.toList b.statements.toList σ = .ok left σ') :
    blockFrom read row start stop (fuel + content.length) b σ = blockFrom read row start stop fuel
        ⟨(index + (flatList content).length : Nat), ⟨left.1⟩, ⟨left.2⟩, b.levels⟩ σ' := by
  induction content generalizing b index σ with
  | nil =>
    rw [buildList_nil] at h
    cases h
    simp [← hindex]
  | cons i is ih =>
    rw [OpenList] at hopen
    rw [flatList_cons, length_append] at hlimit
    rw [flatList_cons, append_assoc] at hrow
    rw [← singleton_append, buildList_append] at h
    obtain ⟨first, σ1, h1, h2⟩ := bind_eq_ok.mp h
    obtain ⟨t, ht, hstep⟩ := step_of_build start hindex hread hlevels hσ
      (fun t ht => hplain t (by simp [ht])) hopen.1 (by omega) hrow h1
    have hσ1 : σ1.definitions = [] := (keeps_buildList _ _ _ _ h1).trans hσ
    have hrow1 : row.toList.drop (index + i.flat.length) = flatList is ++ rest := by
      rw [← drop_drop, hrow, drop_left]
    have hindex1 : b.index + i.flat.length = (index + i.flat.length : Nat) := by
      rw [hindex, Int.natCast_add]
    have hrest := ih (b := ⟨b.index + i.flat.length, ⟨first.1⟩, ⟨first.2⟩, b.levels⟩) hindex1 hlevels
      hσ1 (fun t ht => hplain t (by simp [ht])) hopen.2 (by omega) hrow1 h2
    rw [flatList_cons, length_append, ← Nat.add_assoc, ← hrest, length_cons, ← Nat.add_assoc]
    exact blockFrom_more hindex ht hstep

/-- The fuel of a block is more than enough for its items. -/
lemma exists_fuel {content : List Item} (hrow : row.toList.drop start = flatList content ++ rest) :
    ∃ fuel, (row.size + 2) * (row.size + 2) = fuel + 1 + content.length := by
  have hlength := congrArg length hrow
  have hcontent := length_le_length_flatList content
  simp only [length_drop, length_append, Array.length_toList] at hlength
  have hsize : row.size + 2 ≤ (row.size + 2) * (row.size + 2) := Nat.le_mul_self _
  exact ⟨(row.size + 2) * (row.size + 2) - 1 - content.length, by omega⟩

/-- Every block without directives whose outline can be built is read. -/
lemma complete_block (depth : Nat) : Complete depth (block depth) := by
  induction depth with
  | zero =>
    intro row start around stop σ node size σ' hne hplain hσ hsize h
    have hpos := h.size_nonneg
    omega
  | succ depth ih =>
    intro row start around stop σ node size σ' hne hplain hσ hsize h
    have hreached : ∀ {n : Nat}, ((start + n : Nat) : Int) - start = n := by omega
    rw [block, if_neg (by simpa using hne)]
    cases h with
    | @closed content c _ rest k left σ1 _ hrow hopen hc hk hcontent hclose =>
      obtain ⟨fuel, hfuel⟩ := exists_fuel hrow
      rw [hrow, Int.toNat_natCast, take_left] at hplain
      rw [hfuel, blockFrom_of_buildList ih rfl rfl hσ hplain hopen (by omega) hrow hcontent]
      have hrow1 : row.toList.drop (start + (flatList content).length) = c :: rest := by
        rw [← drop_drop, hrow, drop_left]
      have ht := getElem?_of_drop hrow1
      have hσ1 : σ1.definitions = [] := (keeps_buildList _ _ _ _ hcontent).trans hσ
      rw [blockFrom_succ rfl, ht]
      have hstep := stepToken_of_closeBlock (block depth) row start stop
        (b := ⟨(start + (flatList content).length : Nat), ⟨left.1⟩, ⟨left.2⟩, _⟩) hc hk
        rfl hclose
      rw [← step_eq_stepToken (isReplacing_of_closes? hc) hσ1] at hstep
      refine bind_eq hstep (pure_eq_ok.mpr ⟨?_, rfl⟩)
      exact congrArg (Prod.mk node) hreached
    | @ended content _ left statements σ1 σ2 _ hrow hopen haround hcontent hclose hnode =>
      subst haround
      rw [← append_nil (flatList content)] at hrow
      obtain ⟨fuel, hfuel⟩ := exists_fuel hrow
      rw [hrow, Int.toNat_natCast, take_left] at hplain
      rw [hfuel, blockFrom_of_buildList ih rfl rfl hσ hplain hopen (by omega) hrow hcontent]
      have hrow1 : row.toList.drop (start + (flatList content).length) = [] := by
        rw [← drop_drop, hrow, drop_left]
      have ht : row[start + (flatList content).length]? = none := by
        simpa using hrow1
      rw [blockFrom_succ rfl, ht]
      refine bind_eq_ok.mpr ⟨⟨statements⟩, σ2, ?_, bind_eq hnode ?_⟩
      · rw [close_eq_closeRow]
        exact map_eq_ok.mpr ⟨statements, hclose, rfl⟩
      · refine pure_eq_ok.mpr ⟨?_, rfl⟩
        exact congrArg (Prod.mk node) hreached

end Build

namespace Item

def buildScript (content : List Item) : Build Tree := do
  let (row, statements) ← buildList .both content [] []
  Build.statement (← Build.closeRow row statements)

end Item

namespace Script

variable {σ σ' : BuildState}

lemma buildScript_eq_ok {content : List Item} {tree : Tree} :
    buildScript content σ = .ok tree σ' ↔ ∃ left σ1 statements σ2,
      buildList .both content [] [] σ = .ok left σ1 ∧
      Build.closeRow left.1 left.2 σ1 = .ok statements σ2 ∧
      Build.statement statements σ2 = .ok tree σ' := by
  constructor
  · intro h
    obtain ⟨left, σ1, h1, h2⟩ := bind_eq_ok.mp h
    obtain ⟨statements, σ2, h2, h3⟩ := bind_eq_ok.mp h2
    exact ⟨left, σ1, statements, σ2, h1, h2, h3⟩
  · rintro ⟨left, σ1, statements, σ2, h1, h2, h3⟩
    exact bind_eq h1 (bind_eq h2 h3)

/-- The end of the script closes the last statement. -/
lemma buildList_fileEnd (content : List Item) (id : NodeId) :
    buildList .both (content ++ [.token (.atom id .fileEnd)]) [] [] = (do
      let (row, statements) ← buildList .both content [] []
      return ([], ← Build.closeRow row statements)) := by
  rw [buildList_append]
  rfl

lemma reads_iff {tokens : List Atom} {firstId : NodeId} {tree : Tree} :
    (∃ size, Build.Reads .both [] (leaves firstId (tokens ++ [.fileEnd])) σ tree size σ') ↔
      ∃ content, flatList content = leaves firstId tokens ∧ OpenList [] content ∧
        buildScript content σ = .ok tree σ' := by
  rw [leaves_append]
  constructor
  · rintro ⟨size, h⟩
    cases h with
    | closed _ _ _ hk => cases hk
    | @ended content _ left statements σ1 σ2 _ hcontent hopen _ hbuilt hclose hnode =>
      obtain ⟨front, rfl, hfront⟩ := exists_of_flatList_concat hopen rfl hcontent.symm
      refine ⟨front, hfront, (openList_append.mp hopen).1, ?_⟩
      rw [buildList_fileEnd] at hbuilt
      obtain ⟨left', σ3, h1, h2⟩ := bind_eq_ok.mp hbuilt
      obtain ⟨statements', σ4, h2, h3⟩ := bind_eq_ok.mp h2
      cases h3
      cases hclose
      exact buildScript_eq_ok.mpr ⟨left', σ3, statements', _, h1, h2, hnode⟩
  · rintro ⟨content, htokens, hopen, hbuild⟩
    obtain ⟨left, σ1, statements, σ2, h1, h2, h3⟩ := buildScript_eq_ok.mp hbuild
    have hrow : leaves firstId tokens ++ leaves (firstId + tokens.length) [.fileEnd] =
        flatList (content ++ [.token (.atom (firstId + tokens.length) .fileEnd)]) := by
      simp [htokens, leaves]
    have hopen' : OpenList [] (content ++ [.token (.atom (firstId + tokens.length) .fileEnd)]) :=
      openList_append.mpr ⟨hopen, ⟨rfl, rfl⟩, trivial⟩
    have hbuilt : buildList .both
        (content ++ [.token (.atom (firstId + tokens.length) .fileEnd)]) [] [] σ =
          .ok ([], statements) σ2 := by
      rw [buildList_fileEnd]
      exact bind_eq h1 (bind_eq h2 rfl)
    exact ⟨_, .ended hrow hopen' rfl hbuilt rfl h3⟩

/-- A script without directives that replace tokens is read exactly if its tokens have an outline that
can be built. -/
lemma read_eq_ok_iff {text : String} {firstId : NodeId} {script : Script} {tokens : List Atom}
    (hlex : Atom.lex text = .ok tokens) (hplain : ∀ a ∈ tokens, a.isReplacing = false) :
    read text firstId = .ok script ↔ ∃ content : List Item,
      flatList content = leaves firstId tokens ∧ OpenList [] content ∧
      buildScript content ⟨firstId + (tokens.length + 1), []⟩ =
        .ok script.tree ⟨script.nextId, []⟩ := by
  rw [← reads_iff, read_eq_ok hlex]
  have hrow := isReplacing_row hplain firstId
  have hne := row_ne_empty firstId tokens
  constructor
  · rintro ⟨size, σ, hblock, hnext⟩
    have hreads := Build.sound_block _ hne hrow rfl hblock
    have hstate : σ = ⟨script.nextId, []⟩ := by
      rw [← hnext]
      exact congrArg (BuildState.mk σ.nextId) hreads.definitions_eq
    exact ⟨size, hstate ▸ hreads⟩
  · rintro ⟨size, h⟩
    have hsize : size < ((leaves firstId (tokens ++ [.fileEnd])).length + Build.expansionLimit : Nat) :=
      Int.lt_of_le_of_lt h.size_le (Int.ofNat_lt.mpr (Nat.lt_add_of_pos_right (by decide)))
    have hrow (t : Tree) (ht : t ∈ ((leaves firstId (tokens ++ [.fileEnd])).toArray.toList.drop 0).take
        size.toNat) : t.isReplacing = false :=
      hrow t (Array.mem_toList_iff.mp (mem_of_mem_drop (mem_of_mem_take ht)))
    exact ⟨size, _, Build.complete_block _ hne hrow rfl hsize h, rfl⟩

end Script

end ArmaScript
