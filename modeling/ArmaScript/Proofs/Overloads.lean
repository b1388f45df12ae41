import ArmaScript.Proofs.Substitution

/-!
# Overloads

A name may have several definitions, each with its own number of parameters. A use of the name with `n`
arguments takes the definition with `n` parameters, unless one that is tried before it has more
parameters and takes the tokens behind the use as well. The arguments that were looked up for the
definitions tried before stay in front of the row of arguments. So the parameters are bound by position
if the first of the definitions tried has at least `n` parameters; if it has `m` of them, and `m` is
less, then the parameter behind the first `m` gets the first argument again.
-/

namespace ArmaScript.Build

open List

/-- The indices of the arguments of a use at `i`. -/
def positions (i : Int) (n : Nat) : List Int :=
  (range n).map fun (k : Nat) => i + 2 + 2 * (k : Int)

/-- A name at `i` is used with arguments: behind it they stand in parentheses, with commas between
them. -/
structure IsUse (row : Array Tree) (i : Int) (arguments : List Tree) : Prop where
  opening : (at? row (i + 1)).map Tree.text = some "("
  argument : ∀ k < arguments.length, at? row (i + 2 + 2 * (k : Int)) = arguments[k]?
  comma : ∀ k < arguments.length, k ≠ 0 → (at? row (i + 1 + 2 * (k : Int))).map Tree.text = some ","
  closing : (at? row (i + 1 + 2 * (arguments.length : Int))).map Tree.text = some ")"

/-- A row that is the body with the `j`-th argument in the place of the `j`-th parameter. -/
structure BoundByPosition (parameters : List String) (arguments body out : List Tree) : Prop where
  length : out.length = body.length
  parameter : ∀ {k j : Nat} {t : Tree}, body[k]? = some t → parameters[j]? = some t.text →
    out[k]? = arguments[j]?
  other : ∀ {k : Nat} {t : Tree}, body[k]? = some t → t.text ∉ parameters → out[k]? = some t

lemma lt_size_of_at? {row : Array Tree} {i : Int} {t : Tree} (h : at? row i = some t) :
    i < row.size := by
  obtain ⟨k, hk, -⟩ := Option.bind_eq_some_iff.mp h
  unfold index? at hk
  grind

lemma positions_add (i : Int) (m n : Nat) :
    ∃ rest, positions i (m + n) = positions i m ++ rest := by
  rw [positions, range_add, map_append]
  exact ⟨_, rfl⟩

lemma positions_succ (i : Int) (n : Nat) :
    positions i (n + 1) = positions i n ++ [i + 2 + 2 * (n : Int)] := by
  rw [positions, range_succ, map_append]
  rfl

lemma exists_positions_cons (i : Int) (n : Nat) :
    ∃ rest, positions i (n + 1) = (i + 2) :: rest := by
  rw [positions, range_succ_eq_map]
  exact ⟨_, congrArg (· :: _) (Int.add_zero _)⟩

lemma length_positions (i : Int) (n : Nat) : (positions i n).length = n := by
  rw [positions, length_map, length_range]

namespace IsUse

variable {row : Array Tree} {i : Int} {arguments : List Tree} {n m : Nat}

lemma lt_size (h : IsUse row i arguments) (hn : n ≤ arguments.length) :
    ∀ j ∈ positions i n, j < row.size := by
  intro j hj
  obtain ⟨k, hk, rfl⟩ := mem_map.mp hj
  have hk : k < arguments.length := (mem_range.mp hk).trans_le hn
  exact lt_size_of_at? ((h.argument k hk).trans (getElem?_eq_getElem hk))

/-- The arguments stand where they are looked for. -/
lemma filterMap_positions (h : IsUse row i arguments) (hn : n ≤ arguments.length) :
    (positions i n).filterMap (at? row) = arguments.take n := by
  induction n with
  | zero => rfl
  | succ n ih =>
    have hargument := h.argument n hn
    rw [getElem?_eq_getElem hn] at hargument
    rw [positions_succ, filterMap_append, ih (by omega), take_add_one,
      getElem?_eq_getElem hn, filterMap_cons_some hargument]
    rfl

lemma argumentsFor_eq (h : IsUse row i arguments) (hm : m ≤ arguments.length) :
    (argumentsFor row i m).1 = positions i m := by
  refine takeWhile_eq_self_iff.mpr fun j hj => ?_
  exact decide_eq_true (h.lt_size hm j hj)

/-- A definition with more parameters has the arguments of the use in front. -/
lemma exists_argumentsFor_eq (h : IsUse row i arguments) (hm : arguments.length ≤ m) :
    ∃ rest, (argumentsFor row i m).1 = positions i arguments.length ++ rest := by
  obtain ⟨rest, hrest⟩ := positions_add i arguments.length (m - arguments.length)
  rw [Nat.add_sub_cancel' hm] at hrest
  refine ⟨rest.takeWhile (· < (row.size : Int)), ?_⟩
  change (positions i m).takeWhile _ = _
  rw [hrest, takeWhile_append_of_pos]
  exact fun j hj => decide_eq_true (h.lt_size le_rfl j hj)

lemma fits (h : IsUse row i arguments) : (argumentsFor row i arguments.length).2 = true := by
  have hlength : (argumentsFor row i arguments.length).1.length = arguments.length := by
    rw [h.argumentsFor_eq le_rfl, length_positions]
  refine Bool.and_eq_true_iff.mpr ⟨beq_iff_eq.mpr hlength, ?_⟩
  exact beq_iff_eq.mpr h.closing

/-- A definition with fewer parameters does not fit: a comma stands where the parenthesis should. -/
lemma not_fits (h : IsUse row i arguments) (hm : m < arguments.length) (hzero : m ≠ 0) :
    (argumentsFor row i m).2 = false := by
  have hclosing : ((at? row (i + 1 + 2 * (m : Int))).map Tree.text == some ")") = false := by
    rw [h.comma m hm hzero]
    decide
  exact (congrArg _ hclosing).trans (Bool.and_false _)

end IsUse

lemma matchArities_succ (row : Array Tree) (i : Int) (tried : List Int) (m : Nat) (definition : Tree)
    (rest : Table Nat Tree) : matchArities row i tried ((m + 1, definition) :: rest) =
      if (argumentsFor row i (m + 1)).2 then
        some (definition, tried ++ (argumentsFor row i (m + 1)).1)
      else matchArities row i (tried ++ (argumentsFor row i (m + 1)).1) rest :=
  rfl

/-- The definitions that do not fit leave their indices in front. -/
lemma matchArities_append {row : Array Tree} {i : Int} {earlier : Table Nat Tree}
    (hfits : ∀ m ∈ earlier.map Prod.fst, m ≠ 0 → (argumentsFor row i m).2 = false) (tried : List Int)
    (rest : Table Nat Tree) : matchArities row i tried (earlier ++ rest) = matchArities row i
        (tried ++ (earlier.map Prod.fst).flatMap fun m => (argumentsFor row i m).1) rest := by
  induction earlier generalizing tried with
  | nil => simp
  | cons e earlier ih =>
    obtain ⟨m, definition⟩ := e
    have hothers := ih fun m' hm' => hfits m' (mem_cons_of_mem m hm')
    cases m with
    | zero => exact hothers tried
    | succ m =>
      have hfit : (argumentsFor row i (m + 1)).2 = false := hfits _ mem_cons_self m.succ_ne_zero
      rw [cons_append, matchArities_succ, if_neg (by rw [hfit]; exact Bool.false_ne_true), hothers]
      simp [append_assoc]

section

variable {row : Array Tree} {i : Int} {arguments : List Tree}

/-- What is looked up for a definition with parameters begins with the first argument. -/
lemma IsUse.exists_argumentsFor_cons (h : IsUse row i arguments) (hnonempty : arguments ≠ [])
    (m : Nat) : ∃ rest, (argumentsFor row i (m + 1)).1 = (i + 2) :: rest := by
  have hpositive := length_pos_of_ne_nil hnonempty
  obtain hless | hmore := Nat.le_total (m + 1) arguments.length
  · rw [h.argumentsFor_eq hless]
    exact exists_positions_cons i m
  · obtain ⟨rest, hrest⟩ := h.exists_argumentsFor_eq hmore
    obtain ⟨n, hn⟩ := Nat.exists_eq_add_one.mpr hpositive
    obtain ⟨others, hothers⟩ := exists_positions_cons i n
    exact ⟨others ++ rest, by rw [hrest, hn, hothers]; rfl⟩

/-- So does what was looked up for several definitions, with the arguments of the use behind it. -/
lemma IsUse.exists_flatMap_cons (h : IsUse row i arguments) (hnonempty : arguments ≠ [])
    (ms : List Nat) : ∃ rest, (ms.flatMap fun m => (argumentsFor row i m).1) ++
      positions i arguments.length = (i + 2) :: rest := by
  induction ms with
  | nil =>
    obtain ⟨n, hn⟩ := Nat.exists_eq_add_one.mpr (length_pos_of_ne_nil hnonempty)
    rw [hn]
    exact exists_positions_cons i n
  | cons m ms ih =>
    cases m with
    | zero => exact ih
    | succ m =>
      obtain ⟨rest, hrest⟩ := h.exists_argumentsFor_cons hnonempty m
      rw [flatMap_cons, hrest]
      exact ⟨_, rfl⟩

variable {ms : List Nat}

/-- What was looked up for definitions before that of the use begins with what was looked up for the
first of them that has parameters. -/
lemma flatMap_argumentsFor (row : Array Tree) (i : Int) {m : Nat} (hm : m ∈ ms.find? (· ≠ 0)) :
    ∃ rest : List Nat, (ms.flatMap fun m => (argumentsFor row i m).1) =
      (argumentsFor row i m).1 ++ rest.flatMap fun m => (argumentsFor row i m).1 := by
  induction ms with
  | nil => cases hm
  | cons k ms ih =>
    cases k with
    | zero => exact ih hm
    | succ k =>
      cases hm
      exact ⟨ms, rfl⟩

lemma flatMap_argumentsFor_eq_nil (row : Array Tree) (i : Int) (hms : ms.find? (· ≠ 0) = none) :
    (ms.flatMap fun m => (argumentsFor row i m).1) = [] := by
  refine flatMap_eq_nil_iff.mpr fun m hm => ?_
  have hzero : m = 0 := by simpa using find?_eq_none.mp hms m hm
  rw [hzero]
  rfl

lemma IsUse.findUse_eq (h : IsUse row i arguments) (hnonempty : arguments ≠ [])
    {earlier : Table Nat Tree} (definition : Tree) (later : Table Nat Tree)
    (hkeys : arguments.length ∉ earlier.map Prod.fst)
    (hfits : ∀ m ∈ earlier.map Prod.fst, arguments.length < m → (argumentsFor row i m).2 = false) :
    findUse row i (earlier ++ (arguments.length, definition) :: later) =
      some (definition, ((earlier.map Prod.fst).flatMap fun m => (argumentsFor row i m).1) ++
        positions i arguments.length) := by
  -- fewer parameters never fit, as many are not there, and more are excluded by assumption
  have hnone : ∀ m ∈ earlier.map Prod.fst, m ≠ 0 → (argumentsFor row i m).2 = false := by
    intro m hm hzero
    obtain hless | heq | hmore := lt_trichotomy m arguments.length
    · exact h.not_fits hless hzero
    · exact absurd (heq ▸ hm) hkeys
    · exact hfits m hm hmore
  have hpresent := h.argumentsFor_eq le_rfl
  have hfit := h.fits
  obtain ⟨n, hn⟩ := Nat.exists_eq_add_one.mpr (length_pos_of_ne_nil hnonempty)
  rw [findUse, if_pos (beq_iff_eq.mpr h.opening), matchArities_append hnone]
  rw [hn] at hpresent hfit ⊢
  rw [matchArities_succ, if_pos hfit, hpresent]
  rfl

/-- The arguments of a use have their place in front if the first definition that was tried has at
least as many parameters. -/
lemma IsUse.exists_filterMap_eq (h : IsUse row i arguments)
    (hfirst : ∀ m ∈ ms.find? (· ≠ 0), arguments.length < m) :
    ∃ rest, ((ms.flatMap fun m => (argumentsFor row i m).1) ++
      positions i arguments.length).filterMap (at? row) = arguments ++ rest := by
  have harguments : (positions i arguments.length).filterMap (at? row) = arguments := by
    rw [h.filterMap_positions le_rfl, take_length]
  cases hfind : ms.find? (· ≠ 0) with
  | none =>
    rw [flatMap_argumentsFor_eq_nil row i hfind, nil_append, harguments]
    exact ⟨[], (append_nil _).symm⟩
  | some m =>
    obtain ⟨others, hothers⟩ := flatMap_argumentsFor row i hfind
    obtain ⟨rest, hrest⟩ := h.exists_argumentsFor_eq (hfirst m hfind).le
    rw [hothers, hrest, append_assoc, append_assoc, filterMap_append, harguments]
    exact ⟨_, rfl⟩

/-- If it has fewer, the first argument follows these again. -/
lemma IsUse.exists_filterMap_eq_take (h : IsUse row i arguments) (hnonempty : arguments ≠ [])
    {m : Nat} (hm : m ∈ ms.find? (· ≠ 0)) (hless : m < arguments.length) :
    ∃ rest, ((ms.flatMap fun m => (argumentsFor row i m).1) ++
      positions i arguments.length).filterMap (at? row) =
        arguments.take m ++ (arguments.head hnonempty :: rest) := by
  obtain ⟨others, hothers⟩ := flatMap_argumentsFor row i hm
  obtain ⟨rest, hrest⟩ := h.exists_flatMap_cons hnonempty others
  have hhead : at? row (i + 2) = some (arguments.head hnonempty) := by
    have hargument := h.argument 0 (length_pos_of_ne_nil hnonempty)
    rw [← head?_eq_getElem?, head?_eq_some_head hnonempty] at hargument
    simpa using hargument
  rw [hothers, h.argumentsFor_eq hless.le, append_assoc, hrest, filterMap_append,
    h.filterMap_positions hless.le, filterMap_cons_some hhead]
  exact ⟨_, rfl⟩

end

/-! ### The body of the definition -/

variable {parameters : List String}

lemma substituteList_of_flat {arguments body : List Tree}
    (hbody : ∀ t ∈ body, ∃ id a, t = .atom id a) (σ : BuildState) :
    substituteList parameters arguments body σ =
      .ok (body.map fun t => (argumentOf? t.text parameters arguments).getD t) σ := by
  induction body with
  | nil => rfl
  | cons t body ih =>
    obtain ⟨id, a, rfl⟩ := hbody t mem_cons_self
    rw [substituteList, substitute]
    · change (substituteList parameters arguments body >>= _) σ = _
      rw [bind_of_eq_ok (ih fun u hu => hbody u (mem_cons_of_mem _ hu))]
      rfl
    · simp

lemma argumentOf?_of_getElem? (hnodup : parameters.Nodup) {j : Nat} {text : String}
    (hj : parameters[j]? = some text) (arguments : List Tree) :
    argumentOf? text parameters arguments = arguments[j]? := by
  obtain ⟨hlt, rfl⟩ := List.getElem?_eq_some_iff.mp hj
  rw [argumentOf?_eq, if_pos (getElem_mem hlt), hnodup.idxOf_getElem]

/-- The parameters are bound by position to a row of arguments that begins with those of the use. -/
lemma boundByPosition_map (hnodup : parameters.Nodup) {arguments : List Tree}
    (hlength : parameters.length = arguments.length) (rest body : List Tree) :
    BoundByPosition parameters arguments body
      (body.map fun t => (argumentOf? t.text parameters (arguments ++ rest)).getD t) where
  length := length_map _
  parameter := by
    intro k j t hk hj
    have hlt : j < arguments.length := hlength ▸ (List.getElem?_eq_some_iff.mp hj).1
    rw [getElem?_map, hk, Option.map_some, argumentOf?_of_getElem? hnodup hj,
      getElem?_append_left hlt, getElem?_eq_getElem hlt]
    rfl
  other := by
    intro k t hk ht
    rw [getElem?_map, hk, Option.map_some, argumentOf?_eq, if_neg ht]
    rfl

/-- A use of a name with `n` arguments takes the definition with `n` parameters, unless one with more
that is tried before it fits too. If the first definition with parameters that is tried has at least
`n`, then the body has each argument in the place of its parameter. If it has `m < n`, then the
parameter behind the first `m` is replaced by the first argument. -/
theorem overload_binds_by_position {row : Array Tree} {i : Int} {arguments : List Tree}
    (huse : IsUse row i arguments) (hnonempty : arguments ≠ []) {parameters : List String}
    (hlength : parameters.length = arguments.length) (hnodup : parameters.Nodup) {body : List Tree}
    (hbody : ∀ t ∈ body, ∃ id a, t = .atom id a) {earlier : Table Nat Tree}
    (hkeys : arguments.length ∉ earlier.map Prod.fst)
    (hfits : ∀ m ∈ earlier.map Prod.fst, arguments.length < m → (argumentsFor row i m).2 = false)
    (later : Table Nat Tree) (id : NodeId) (name : String) (source : List Tree) (σ : BuildState) :
    ∃ indices out,
      findUse row i
          (earlier ++ (arguments.length, .define id name parameters body source) :: later) =
        some (.define id name parameters body source, indices) ∧
      substituteList parameters (indices.filterMap (at? row)) body σ = .ok out σ ∧
      ((∀ m ∈ (earlier.map Prod.fst).find? (· ≠ 0), arguments.length < m) →
        BoundByPosition parameters arguments body out) ∧
      ∀ m ∈ (earlier.map Prod.fst).find? (· ≠ 0), m < arguments.length →
        ∀ (k : Nat) (t : Tree), body[k]? = some t → parameters[m]? = some t.text →
          out[k]? = arguments[0]? := by
  refine ⟨_, _, huse.findUse_eq hnonempty _ later hkeys hfits, substituteList_of_flat hbody σ, ?_, ?_⟩
  · intro hfirst
    obtain ⟨rest, hrest⟩ := huse.exists_filterMap_eq hfirst
    rw [hrest]
    exact boundByPosition_map hnodup hlength rest body
  · intro m hm hless k t hk hparameter
    obtain ⟨rest, hrest⟩ := huse.exists_filterMap_eq_take hnonempty hm hless
    rw [hrest, getElem?_map, hk, Option.map_some, argumentOf?_of_getElem? hnodup hparameter,
      getElem?_append_right (length_take_le _ _), length_take_of_le hless.le,
      Nat.sub_self, ← head?_eq_getElem?, ← head?_eq_getElem?, head?_eq_some_head hnonempty]
    rfl

def useOfTwo : Array Tree :=
  #[.atom 1 (.var "M"), .atom 2 (.mark "("), .atom 3 (.number (some (.int 1))), .atom 4 (.mark ","),
    .atom 5 (.number (some (.int 2))), .atom 6 (.mark ")")]

def sumTokens : List Tree :=
  [.atom 8 (.var "a"), .atom 9 (.keyword "+"), .atom 10 (.var "b")]

def sumDefinition : Tree :=
  .define 7 "M" ["a", "b"] sumTokens []

def firstDefinition (parameters : List String) : Tree :=
  .define 11 "M" parameters [.atom 12 (.var "a")] []

lemma isUse_useOfTwo : IsUse useOfTwo 0 [.atom 3 (.number (some (.int 1))),
    .atom 5 (.number (some (.int 2)))] where
  opening := rfl
  argument := by
    intro k hk
    obtain rfl | rfl : k = 0 ∨ k = 1 := by simp at hk; omega
    · rfl
    · rfl
  comma := by
    intro k hk hzero
    obtain rfl : k = 1 := by simp at hk; omega
    rfl
  closing := rfl

theorem overload_binds_by_position_sum :
    ∃ indices out, findUse useOfTwo 0 [(3, firstDefinition ["a", "b", "c"]), (2, sumDefinition),
        (1, firstDefinition ["a"])] = some (sumDefinition, indices) ∧
      substituteList ["a", "b"] (indices.filterMap (at? useOfTwo)) sumTokens ⟨13, []⟩ =
        .ok out ⟨13, []⟩ ∧
      BoundByPosition ["a", "b"] [.atom 3 (.number (some (.int 1))), .atom 5 (.number (some (.int 2)))]
        sumTokens out := by
  have hnodup : ["a", "b"].Nodup := by decide
  have hbody : ∀ t ∈ sumTokens, ∃ id a, t = .atom id a := by simp [sumTokens]
  have hkeys : 2 ∉ [(3, firstDefinition ["a", "b", "c"])].map Prod.fst := by simp
  have hfits : ∀ m ∈ [(3, firstDefinition ["a", "b", "c"])].map Prod.fst, 2 < m →
      (argumentsFor useOfTwo 0 m).2 = false := by
    intro m hm _
    obtain rfl : m = 3 := by simpa using hm
    rfl
  obtain ⟨indices, out, hfind, hout, hbound, -⟩ := overload_binds_by_position isUse_useOfTwo
    (cons_ne_nil _ _) rfl hnodup hbody hkeys hfits [(1, firstDefinition ["a"])] 7 "M" []
    ⟨13, []⟩
  refine ⟨indices, out, hfind, hout, hbound ?_⟩
  rintro m ⟨⟩
  decide

/-- If the definition with one parameter is tried first, the use stands for `1+1`. -/
theorem overload_binds_first_again :
    findUse useOfTwo 0 [(1, firstDefinition ["a"]), (2, sumDefinition)] =
        some (sumDefinition, [2, 2, 4]) ∧
      substituteList ["a", "b"] ([2, 2, 4].filterMap (at? useOfTwo)) sumTokens ⟨13, []⟩ =
        .ok [.atom 3 (.number (some (.int 1))), .atom 9 (.keyword "+"),
          .atom 3 (.number (some (.int 1)))] ⟨13, []⟩ :=
  ⟨rfl, rfl⟩

end ArmaScript.Build
