import ArmaScript.Proofs.Quiet
import ArmaScript.Value.Array
import ArmaScript.Value.Helper

/-!
# Regions of the store

A region says which arrays, which of their buffers and which machines a run may use and change, and
whether it may send public variables. This module has the values of a region, and what every
operation on the store keeps: arrays of the region hold values of the region, and all that is
outside stays as it was. What is new always belongs to the region.
-/

namespace ArmaScript

open List Option

/-- Values that refer to no array but the given ones and hold no word that sends a public variable,
unless such words are allowed. -/
inductive Value.Within (arrays : NodeId → Prop) (loud : Prop) : Value → Prop
  | atom {id : NodeId} {a : Atom} (h : loud ∨ a.isPublic = false) : Within arrays loud (.atom id a)
  | code {id : NodeId} {defined : Bool} {cs : List Tree} (hcs : Tree.QuietList loud cs) :
      Within arrays loud (.code id defined cs)
  | array {id : NodeId} (h : arrays id) : Within arrays loud (.array id)
  | privateOf {id : NodeId} {v : Value} (h : Within arrays loud v) :
      Within arrays loud (.privateOf id v)
  | whileOf {id : NodeId} {v : Value} (h : Within arrays loud v) :
      Within arrays loud (.whileOf id v)
  | forOf {id : NodeId} {name step : Value} {first last : Option Value}
      (hname : Within arrays loud name) (hfirst : ∀ v, first = some v → Within arrays loud v)
      (hlast : ∀ v, last = some v → Within arrays loud v) (hstep : Within arrays loud step) :
      Within arrays loud (.forOf id name first last step)
  | forSpecOf {id : NodeId} {v : Value} (h : Within arrays loud v) :
      Within arrays loud (.forSpecOf id v)
  | switchOf {id : NodeId} {keyword : String} {v : Value} (h : Within arrays loud v) :
      Within arrays loud (.switchOf id keyword v)
  | ifOf {id : NodeId} {v : Value} (h : Within arrays loud v) : Within arrays loud (.ifOf id v)
  | elseOf {id : NodeId} {v w : Value} (hv : Within arrays loud v) (hw : Within arrays loud w) :
      Within arrays loud (.elseOf id v w)
  | tryOf {id : NodeId} {v : Value} (h : Within arrays loud v) : Within arrays loud (.tryOf id v)
  | withOf {id : NodeId} {v : Value} (h : Within arrays loud v) : Within arrays loud (.withOf id v)
  | node {t : Tree} (h : t.Quiet loud) : Within arrays loud (.node t)

variable {arrays : NodeId → Prop} {loud : Prop}

lemma Value.Within.of_array {i : NodeId} (h : (Value.array i).Within arrays loud) : arrays i := by
  cases h with
  | array h => exact h

lemma Value.Within.some {v : Value} (h : v.Within arrays loud) :
    ∀ u, some v = some u → u.Within arrays loud :=
  fun _ hu => some.inj hu ▸ h

/-- A node that may be run stands for a value of every region. -/
lemma Tree.Quiet.ofTree {t : Tree} (h : t.Quiet loud) : (Value.ofTree t).Within arrays loud := by
  have hnode := @Value.Within.node arrays _ _ h
  cases h with
  | atom h => exact .atom h
  | code hcs => exact .code hcs
  | _ => exact hnode

/-- A store in which all identities in use are below the next one, and no two arrays have the same
buffer. -/
structure Store.Sound (s : Store) : Prop where
  array_lt : ∀ {i : NodeId} {cell : ArrayCell}, s.arrays[i]? = some cell → i < s.nextId
  buffer_lt : ∀ {i : NodeId} {cell : ArrayCell} {b : Nat}, s.arrays[i]? = some cell →
    cell.buffer = some b → b < s.nextId
  stored_lt : ∀ {b : Nat} {vs : List Value}, s.buffers[b]? = some vs → b < s.nextId
  unshared : ∀ {i j : NodeId} {cell cell' : ArrayCell} {b : Nat}, s.arrays[i]? = some cell →
    s.arrays[j]? = some cell' → cell.buffer = some b → cell'.buffer = some b → i = j

lemma Store.sound_empty : Store.empty.Sound := by
  constructor <;> simp [Store.empty]

/-- What a run may use and change. Public variables go to all machines. -/
structure Region where
  machines : Nat → Prop
  arrays : NodeId → Prop
  buffers : Nat → Prop
  loud : Prop
  machines_of_loud : loud → ∀ i, machines i

namespace Region

variable {R : Region} {s0 s s' : Store} {i : NodeId} {b : Nat} {vs : List Value} {v : Value}

abbrev Owns (R : Region) (v : Value) : Prop :=
  v.Within R.arrays R.loud

/-! ### Everything -/

/-- All machines and arrays, and public variables may be sent. -/
def everything : Region :=
  ⟨fun _ => True, fun _ => True, fun _ => True, True, fun _ _ => trivial⟩

mutual

theorem quiet_everything : ∀ t : Tree, t.Quiet True
  | .atom _ _ => .atom (.inl trivial)
  | .statement _ _ _ cs => .statement (quietList_everything cs)
  | .code _ cs => .code (quietList_everything cs)
  | .array _ cs => .array (quietList_everything cs)
  | .define _ _ _ body cs => .define (quietList_everything body) (quietList_everything cs)
  | .conditional _ cs => .conditional (quietList_everything cs)
  | .expansion _ d r cs =>
    .expansion (quiet_everything d) (quiet_everything r) (quietList_everything cs)
  | .resolution _ r cs => .resolution (quietList_everything r) (quietList_everything cs)

theorem quietList_everything : ∀ ts : List Tree, Tree.QuietList True ts
  | [] => .nil
  | t :: ts => .cons (quiet_everything t) (quietList_everything ts)

end

lemma owns_everything : ∀ v : Value, everything.Owns v
  | .atom _ _ => .atom (.inl trivial)
  | .code _ _ cs => .code (quietList_everything cs)
  | .array _ => .array trivial
  | .privateOf _ v => .privateOf (owns_everything v)
  | .whileOf _ v => .whileOf (owns_everything v)
  | .forOf _ name none none step =>
    .forOf (owns_everything name) nofun nofun (owns_everything step)
  | .forOf _ name (some v) none step =>
    .forOf (owns_everything name) (owns_everything v).some nofun (owns_everything step)
  | .forOf _ name none (some v) step =>
    .forOf (owns_everything name) nofun (owns_everything v).some (owns_everything step)
  | .forOf _ name (some v) (some u) step =>
    .forOf (owns_everything name) (owns_everything v).some (owns_everything u).some
      (owns_everything step)
  | .forSpecOf _ v => .forSpecOf (owns_everything v)
  | .switchOf _ _ v => .switchOf (owns_everything v)
  | .ifOf _ v => .ifOf (owns_everything v)
  | .elseOf _ v u => .elseOf (owns_everything v) (owns_everything u)
  | .tryOf _ v => .tryOf (owns_everything v)
  | .withOf _ v => .withOf (owns_everything v)
  | .node t => .node (quiet_everything t)

/-! ### What is kept -/

/-- What a run keeps of the store `s0` that it starts with. -/
structure Guards (R : Region) (s0 s : Store) : Prop where
  sound : s.Sound
  fresh : ∀ i, s.nextId ≤ i → R.arrays i ∧ R.buffers i
  arrays : ∀ i, ¬R.arrays i → s.arrays[i]? = s0.arrays[i]?
  buffers : ∀ b, ¬R.buffers b → s.buffers[b]? = s0.buffers[b]?
  own_buffer : ∀ {i : NodeId} {cell : ArrayCell} {b : Nat}, R.arrays i → s.arrays[i]? = some cell →
    cell.buffer = some b → R.buffers b
  own_values : ∀ {b : Nat} {vs : List Value}, R.buffers b → s.buffers[b]? = some vs →
    ∀ v ∈ vs, R.Owns v

namespace Guards

lemma buffer (h : R.Guards s0 s) (hi : R.arrays i)
    (hb : (s.arrays[i]?).bind ArrayCell.buffer = some b) : R.buffers b := by
  obtain ⟨cell, hcell, hb⟩ := bind_eq_some_iff.mp hb
  exact h.own_buffer hi hcell hb

lemma elements (h : R.Guards s0 s) (hi : R.arrays i) (hvs : s.elements? i = some vs) :
    ∀ v ∈ vs, R.Owns v := by
  obtain ⟨cell, hcell, hrest⟩ := bind_eq_some_iff.mp hvs
  obtain ⟨b, hb, hvs⟩ := bind_eq_some_iff.mp hrest
  exact h.own_values (h.own_buffer hi hcell hb) hvs

lemma content (h : R.Guards s0 s) (hv : R.Owns v) (hvs : s.content v = .list vs) :
    ∀ u ∈ vs, R.Owns u := by
  cases hv with
  | @array i hi =>
    rw [Store.content] at hvs
    split at hvs
    · cases hvs
      exact h.elements hi ‹_›
    · cases hvs
  | @atom id a _ =>
    rw [Store.content] at hvs
    unfold Store.atomContent at hvs
    split at hvs <;> cases hvs
  | _ => cases hvs

lemma mono (h : R.Guards s0 s) (hid : s.nextId ≤ s'.nextId) (harrays : s'.arrays = s.arrays)
    (hbuffers : s'.buffers = s.buffers) : R.Guards s0 s' := by
  obtain ⟨id', places', arrays', buffers'⟩ := s'
  dsimp only at hid harrays hbuffers
  subst harrays hbuffers
  refine ⟨⟨fun hi => ?_, fun hi hb => ?_, fun hb => ?_, h.sound.unshared⟩, fun i hi => ?_, h.arrays,
    h.buffers, h.own_buffer, h.own_values⟩
  · exact Nat.lt_of_lt_of_le (h.sound.array_lt hi) hid
  · exact Nat.lt_of_lt_of_le (h.sound.buffer_lt hi hb) hid
  · exact Nat.lt_of_lt_of_le (h.sound.stored_lt hb) hid
  · exact h.fresh i (Nat.le_trans hid hi)

lemma setBuffer (h : R.Guards s0 s) (new : Option (List Value))
    {buffers : Std.HashMap Nat (List Value)} (hb : R.buffers b) (hlt : new.isSome → b < s.nextId)
    (hnew : ∀ vs, new = some vs → ∀ v ∈ vs, R.Owns v)
    (hbuffers : ∀ c, buffers[c]? = if (b == c) = true then new else s.buffers[c]?) :
    R.Guards s0 { s with buffers := buffers } := by
  refine ⟨⟨h.sound.array_lt, h.sound.buffer_lt, fun {c vs} hc => ?_, h.sound.unshared⟩, h.fresh,
    h.arrays, fun c hc => ?_, h.own_buffer, fun {c vs} hown hc => ?_⟩
  · dsimp only at hc
    rw [hbuffers] at hc
    split at hc
    · rename_i hbc
      rw [← eq_of_beq hbc]
      exact hlt (by rw [hc]; rfl)
    · exact h.sound.stored_lt hc
  · dsimp only
    rw [hbuffers, if_neg fun hbc : (b == c) = true => hc (eq_of_beq hbc ▸ hb)]
    exact h.buffers c hc
  · dsimp only at hc
    rw [hbuffers] at hc
    split at hc
    · exact hnew vs hc
    · exact h.own_values hown hc

/-- An array of the region is set to a cell whose buffer is of the region and no other array's. -/
lemma setCell (h : R.Guards s0 s) (new : Option ArrayCell)
    {arrays : Std.HashMap NodeId ArrayCell} (hi : R.arrays i) (hlt : new.isSome → i < s.nextId)
    (hnew : ∀ cell b, new = some cell → cell.buffer = some b → R.buffers b ∧ b < s.nextId ∧
      ∀ j cell', s.arrays[j]? = some cell' → cell'.buffer = some b → j = i)
    (harrays : ∀ j, arrays[j]? = if (i == j) = true then new else s.arrays[j]?) :
    R.Guards s0 { s with arrays := arrays } := by
  have hcell {j : NodeId} {cell : ArrayCell} (hj : arrays[j]? = some cell) :
      (j = i ∧ new = some cell) ∨ s.arrays[j]? = some cell := by
    rw [harrays] at hj
    split at hj
    · exact .inl ⟨(eq_of_beq ‹_›).symm, hj⟩
    · exact .inr hj
  refine ⟨⟨fun hj => ?_, fun hj hb => ?_, h.sound.stored_lt, fun hj hk hb hb' => ?_⟩, h.fresh,
    fun j hj => ?_, h.buffers, fun hown hj hb => ?_, h.own_values⟩
  · obtain ⟨rfl, hj⟩ | hj := hcell hj
    · exact hlt (by rw [hj]; rfl)
    · exact h.sound.array_lt hj
  · obtain ⟨rfl, hj⟩ | hj := hcell hj
    · exact (hnew _ _ hj hb).2.1
    · exact h.sound.buffer_lt hj hb
  · obtain ⟨rfl, hj⟩ | hj := hcell hj
    · obtain ⟨rfl, hk⟩ | hk := hcell hk
      · rfl
      · exact ((hnew _ _ hj hb).2.2 _ _ hk hb').symm
    · obtain ⟨rfl, hk⟩ | hk := hcell hk
      · exact (hnew _ _ hk hb').2.2 _ _ hj hb
      · exact h.sound.unshared hj hk hb hb'
  · dsimp only
    rw [harrays, if_neg fun hij : (i == j) = true => hj (eq_of_beq hij ▸ hi)]
    exact h.arrays j hj
  · obtain ⟨rfl, hj⟩ | hj := hcell hj
    · exact (hnew _ _ hj hb).1
    · exact h.own_buffer hown hj hb

end Guards

end Region

namespace Stored

variable {α : Type} {R : Region} {s0 : Store} {i : NodeId} {v : Value} {vs : List Value}

abbrev Confined (R : Region) (s0 : Store) (m : Stored α) (post : α → Prop) : Prop :=
  Maintains (R.Guards s0) m post

lemma confined_lift {x : Except Fault α} {post : α → Prop} (h : ∀ a, x = .ok a → post a) :
    Confined R s0 (lift x) post := by
  cases x with
  | ok a => exact .pure (h a rfl)
  | error e => exact .throw id

lemma confined_fresh : Confined R s0 fresh fun _ => True :=
  fun _ hs => ⟨hs.mono (Nat.le_succ _) rfl rfl, trivial⟩

lemma confined_atom {a : Atom} (ha : a.isPublic = false) : Confined R s0 (atom a) R.Owns :=
  confined_fresh.bind fun _ _ => .pure (.atom (.inr ha))

lemma confined_placeOf (id : NodeId) : Confined R s0 (placeOf id) fun _ => True := by
  refine Ensures.get.bind fun s _ => ?_
  split
  · exact .pure trivial
  · exact .throw fun h => h

lemma confined_setPlace (id : NodeId) (p : Position) :
    Confined R s0 (setPlace id p) fun _ => True :=
  .modify fun _ hs => hs.mono (Nat.le_refl _) rfl rfl

lemma confined_copyPlace (source target : NodeId) :
    Confined R s0 (copyPlace source target) fun _ => True :=
  (confined_placeOf source).bind fun p _ => confined_setPlace target p

lemma confined_array (hvs : ∀ v ∈ vs, R.Owns v) : Confined R s0 (array vs) R.Owns := by
  unfold array
  refine .guard (.throw id) fun _ => ?_
  intro s hs
  have htaken : R.Guards s0 { s with nextId := s.nextId + 1 + 1 } :=
    hs.mono (Nat.le_add_right _ 2) rfl rfl
  have hid := (hs.fresh s.nextId (Nat.le_refl _)).1
  have hbuffer := (hs.fresh (s.nextId + 1) (Nat.le_succ _)).2
  have hcell : R.Guards s0 { s with
      nextId := s.nextId + 1 + 1
      arrays := s.arrays.insert s.nextId ⟨some (s.nextId + 1), vs⟩ } := by
    refine htaken.setCell (some ⟨some (s.nextId + 1), vs⟩) hid ?_ ?_ fun _ =>
      Std.HashMap.getElem?_insert
    · exact fun _ => Nat.lt_succ_of_lt (Nat.lt_succ_self _)
    · rintro cell b ⟨⟩ ⟨⟩
      refine ⟨hbuffer, Nat.lt_succ_self _, fun j cell' hj hb => ?_⟩
      exact absurd (hs.sound.buffer_lt hj hb) (Nat.not_lt.mpr (Nat.le_succ _))
  refine ⟨hcell.setBuffer (some vs) hbuffer (fun _ => Nat.lt_succ_self _) ?_ fun _ =>
    Std.HashMap.getElem?_insert, .array hid⟩
  rintro us ⟨⟩
  exact hvs

lemma confined_bufferOf (hi : R.arrays i) : Confined R s0 (bufferOf i) R.buffers := by
  refine Ensures.get.bind fun s hs => ?_
  split
  · exact .pure (hs.buffer hi ‹_›)
  · exact .throw id

lemma confined_elements (hi : R.arrays i) :
    Confined R s0 (elements i) fun vs => ∀ v ∈ vs, R.Owns v := by
  refine Ensures.get.bind fun s hs => ?_
  split
  · exact .pure (hs.elements hi ‹_›)
  · exact .throw id

lemma confined_refresh (hi : R.arrays i) : Confined R s0 (refresh i) fun _ => True := by
  refine (confined_elements hi).bind fun vs _ => .guard (.throw id) fun _ => .modify fun s hs => ?_
  refine hs.setCell ((s.arrays[i]?).map fun cell => { cell with shown := vs }) hi ?_ ?_ fun _ =>
    Std.HashMap.getElem?_modify
  · intro hsome
    obtain ⟨cell, hcell⟩ := isSome_iff_exists.mp (by rwa [isSome_map] at hsome)
    exact hs.sound.array_lt hcell
  · intro cell b hcell hb
    obtain ⟨old, hold, rfl⟩ := map_eq_some_iff.mp hcell
    refine ⟨hs.own_buffer hi hold hb, hs.sound.buffer_lt hold hb, fun j cell' hj hb' => ?_⟩
    exact hs.sound.unshared hj hold hb' hb

lemma confined_change (hi : R.arrays i) {f : List Value → List Value}
    (hf : ∀ vs, (∀ v ∈ vs, R.Owns v) → ∀ v ∈ f vs, R.Owns v) :
    Confined R s0 (change i f) fun _ => True := by
  refine (confined_bufferOf hi).bind fun b hb => ?_
  refine (Ensures.modify fun s hs => ?_).bind fun _ _ => confined_refresh hi
  refine hs.setBuffer ((s.buffers[b]?).map f) hb ?_ ?_ fun _ => Std.HashMap.getElem?_modify
  · intro hsome
    obtain ⟨vs, hvs⟩ := isSome_iff_exists.mp (by rwa [isSome_map] at hsome)
    exact hs.sound.stored_lt hvs
  · intro us hus
    obtain ⟨vs, hvs, rfl⟩ := map_eq_some_iff.mp hus
    exact hf vs (hs.own_values hb hvs)

lemma confined_rebuild (hi : R.arrays i) (hvs : ∀ v ∈ vs, R.Owns v) :
    Confined R s0 (rebuild i vs) fun _ => True := by
  intro s hs
  have htaken : R.Guards s0 { s with nextId := s.nextId + 1 } := hs.mono (Nat.le_succ _) rfl rfl
  have hbuffer := (hs.fresh s.nextId (Nat.le_refl _)).2
  have hcell : R.Guards s0 { s with
      nextId := s.nextId + 1
      arrays := s.arrays.modify i fun cell => { cell with buffer := some s.nextId } } := by
    refine htaken.setCell ((s.arrays[i]?).map fun cell => { cell with buffer := some s.nextId }) hi
      ?_ ?_ fun _ => Std.HashMap.getElem?_modify
    · intro hsome
      obtain ⟨cell, hcell⟩ := isSome_iff_exists.mp (by rwa [isSome_map] at hsome)
      exact Nat.lt_succ_of_lt (hs.sound.array_lt hcell)
    · intro cell b hcell hb
      obtain ⟨old, hold, rfl⟩ := map_eq_some_iff.mp hcell
      cases hb
      refine ⟨hbuffer, Nat.lt_succ_self _, fun j cell' hj hb => ?_⟩
      exact absurd (hs.sound.buffer_lt hj hb) (Nat.lt_irrefl _)
  have hstored : R.Guards s0 { s with
      nextId := s.nextId + 1
      arrays := s.arrays.modify i fun cell => { cell with buffer := some s.nextId }
      buffers := s.buffers.insert s.nextId vs } := by
    refine hcell.setBuffer (some vs) hbuffer (fun _ => Nat.lt_succ_self _) ?_ fun _ =>
      Std.HashMap.getElem?_insert
    rintro us ⟨⟩
    exact hvs
  exact confined_refresh hi hstored

lemma confined_contentOf (hv : R.Owns v) :
    Confined R s0 (contentOf v) fun c => ∀ vs, c = .list vs → ∀ u ∈ vs, R.Owns u :=
  Ensures.get.bind fun _ hs => .pure fun _ hvs => hs.content hv hvs

lemma confined_length (hi : R.arrays i) : Confined R s0 (length i) fun _ => True :=
  (confined_elements hi).seq_pure

lemma confined_element (hi : R.arrays i) (k : Int) : Confined R s0 (element i k) R.Owns := by
  refine (confined_elements hi).bind fun vs hvs => ?_
  split
  · rename_i v hv
    obtain ⟨j, -, hj⟩ := bind_eq_some_iff.mp hv
    exact .pure (hvs v (mem_of_getElem? hj))
  · exact .throw id

lemma confined_append (hi : R.arrays i) (hv : R.Owns v) :
    Confined R s0 (append i v) fun _ => True :=
  confined_change hi fun _ hvs =>
    forall_mem_append.mpr ⟨hvs, forall_mem_singleton.mpr hv⟩

lemma confined_appendAll (hi : R.arrays i) (hvs : ∀ v ∈ vs, R.Owns v) :
    Confined R s0 (appendAll i vs) fun _ => True :=
  confined_change hi fun _ hus => forall_mem_append.mpr ⟨hus, hvs⟩

lemma confined_reverse (hi : R.arrays i) : Confined R s0 (reverse i) fun _ => True :=
  confined_change hi fun _ hvs v hv => hvs v (mem_reverse.mp hv)

lemma confined_extend (hi : R.arrays i) (c : Content) :
    Confined R s0 (extend i c) fun _ => True := by
  refine (confined_elements hi).bind fun vs _ => (confined_atom rfl).bind fun filler hfiller => ?_
  refine (confined_lift fun _ _ => trivial).bind fun n _ => .guard (.throw id) fun _ => ?_
  refine confined_change hi fun us hus => forall_mem_append.mpr ⟨hus, fun v hv => ?_⟩
  rwa [(mem_replicate.mp hv).2]

lemma confined_comparable (c : Content) : Confined R s0 (comparable c) fun _ => True := by
  unfold comparable
  split
  · exact .pure trivial
  · exact .throw id

lemma confined_resize (hi : R.arrays i) (c : Content) :
    Confined R s0 (resize i c) fun _ => True := by
  refine (confined_elements hi).bind fun vs hvs => (confined_comparable c).bind fun n _ => ?_
  refine .ite (fun _ => ?_) fun _ => ?_
  · split
    · exact confined_extend hi _
    · exact .throw id
  · split
    · refine confined_rebuild hi fun v hv => hvs v ?_
      exact mem_of_mem_drop (mem_of_mem_take hv)
    · exact .throw id

lemma confined_put (hi : R.arrays i) (c : Content) (hv : R.Owns v) :
    Confined R s0 (put i c v) fun _ => True := by
  refine (confined_lift fun _ _ => trivial).bind fun k _ => ?_
  refine (confined_elements hi).bind fun vs _ => ?_
  split
  · refine confined_change hi fun us hus u hu => ?_
    obtain hu | rfl := mem_or_eq_of_mem_set hu
    · exact hus u hu
    · exact hv
  · exact .throw id

lemma confined_set (hi : R.arrays i) (c : Content) (hv : R.Owns v) :
    Confined R s0 (set i c v) fun _ => True := by
  refine (confined_elements hi).bind fun vs _ => (confined_comparable c).bind fun n _ => ?_
  refine .ite (fun _ => ?_) fun _ => confined_put hi c hv
  exact (confined_extend hi c).bind fun _ _ => confined_put hi c hv

lemma confined_setBy {pair : NodeId} (hi : R.arrays i) (hpair : R.arrays pair) :
    Confined R s0 (setBy i pair) fun _ => True := by
  refine (confined_elements hi).discard.bind fun _ _ => ?_
  refine Ensures.get.bind fun s hs => ?_
  split
  · next vs helements =>
    have hvs := hs.elements hpair helements
    rcases vs with _ | ⟨k, _ | ⟨v, rest⟩⟩
    · exact .throw id
    · exact .throw id
    · obtain ⟨hk, hrest⟩ := forall_mem_cons.mp hvs
      exact (confined_contentOf hk).bind fun c _ => confined_set hi c (hrest _ mem_cons_self)
  · exact .throw id

lemma confined_unaryHelper {c : Command} {m : Stored Value} (h : unaryHelper? c v = some m)
    (hv : R.Owns v) : Confined R s0 m R.Owns := by
  unfold unaryHelper? at h
  split at h <;> cases h
  · exact confined_fresh.bind fun _ _ => .pure (.switchOf hv)
  · exact confined_fresh.bind fun _ _ => .pure (.switchOf hv)
  · exact confined_fresh.bind fun _ _ => .pure (.switchOf hv)
  · exact confined_fresh.bind fun _ _ => .pure (.withOf hv)
  · exact confined_fresh.bind fun _ _ => .pure (.tryOf hv)
  · exact confined_fresh.bind fun _ _ => .pure (.whileOf hv)
  · refine confined_fresh.bind fun _ _ => (confined_atom rfl).bind fun n hn => .pure ?_
    exact .forOf hv nofun nofun hn
  · exact confined_fresh.bind fun _ _ => .pure (.forSpecOf hv)
  · exact confined_fresh.bind fun _ _ => .pure (.ifOf hv)

lemma confined_binaryHelper {c : Command} {left right : Value} {m : Stored Value}
    (h : binaryHelper? c left right = some m) (hleft : R.Owns left) (hright : R.Owns right) :
    Confined R s0 m R.Owns := by
  unfold binaryHelper? at h
  split at h <;> cases h
  · cases hleft with
    | forOf hname hfirst hlast hstep =>
      refine confined_fresh.bind fun _ _ => (confined_atom rfl).bind fun n hn => .pure ?_
      exact .forOf hname hright.some nofun hn
  · cases hleft with
    | forOf hname hfirst hlast hstep =>
      refine confined_fresh.bind fun _ _ => (confined_atom rfl).bind fun n hn => .pure ?_
      exact .forOf hname hfirst hright.some hn
  · cases hleft with
    | forOf hname hfirst hlast hstep =>
      exact confined_fresh.bind fun _ _ => .pure (.forOf hname hfirst hlast hright)
  · exact confined_fresh.bind fun _ _ => .pure (.elseOf hleft hright)

end Stored

end ArmaScript
