import ArmaScript.Proofs.Computation
import ArmaScript.Value.Array
import Mathlib.Tactic.SplitIfs

/-!
# Arrays as lists

An array is kept twice, as the elements in its buffer and as the elements that its text shows. Every
request to an array does to both what it does to a list, in which the value nothing has no identity.
The number of elements that are added at once must be one that a list can have. Even a request that
adds none is refused if it is further below that than a machine word reaches.
-/

namespace ArmaScript

open List Value

lemma Num.less_int (m n : Int) : (Num.int m).less (.int n) = decide (m < n) := by
  rw [Bool.eq_iff_iff, decide_eq_true_iff, Num.less, beq_iff_eq]
  exact Option.some_inj.trans Int.compare_eq_lt

lemma Num.same_int (m n : Int) : (Num.int m).same (.int n) = decide (m = n) := by
  rw [Bool.eq_iff_iff, decide_eq_true_iff, Num.same, beq_iff_eq]
  exact Option.some_inj.trans Int.compare_eq_eq

/-- An index that counts from the end counts in the reversed list. -/
lemma getElem?_index? (vs : List Value) (i : Int) :
    (index? vs.length i).bind (vs[·]?) =
      if 0 ≤ i then vs[i.toNat]? else vs.reverse[(-i - 1).toNat]? := by
  unfold index?
  split_ifs with hi hlt hlt
  · rfl
  · exact (getElem?_eq_none (by omega)).symm
  · rw [getElem?_reverse (by omega)]
    exact congrArg (vs[·]?) (by omega)
  · exact (getElem?_eq_none (by simp; omega)).symm

def Value.known? (v : Value) : Option Value :=
  if v.isNothing then none else some v

/-- What can be asked of an array. -/
inductive ArrayRequest where
  | extend (n : Int)
  | resize (n : Int)
  | append (v : Value)
  | reverse
  | add (vs : List Value)
  | set (i : Int) (v : Value)
  | length
  | get (i : Int)

inductive ArrayReply where
  | done
  | length (n : Nat)
  | element (v : Option Value)
  | failed (e : Fault)

namespace ArrayRequest

/-- Answers a request. The index and the value to be set are given by an array of their own. What is
wrong with an index is a reply. -/
def run (id : NodeId) : ArrayRequest → Stored ArrayReply
  | .extend n => do Stored.extend id (.num (.int n)); return .done
  | .resize n => do Stored.resize id (.num (.int n)); return .done
  | .append v => do Stored.append id v; return .done
  | .reverse => do Stored.reverse id; return .done
  | .add vs => do Stored.appendAll id vs; return .done
  | .set i v => do
    let pair ← Stored.array [← Stored.number (.int i), v]
    Stored.setBy id pair.id
    return .done
  | .length => return .length (← Stored.length id)
  | .get i => fun s =>
    match Stored.element id i s with
    | .ok v s => .ok (.element v.known?) s
    | .error e s => .ok (.failed e) s

/-! ### Requests to a list -/

variable (items : List (Option Value))

def filled (n : Int) : List (Option Value) :=
  items ++ replicate (n - items.length).toNat none

def apply : ArrayRequest → List (Option Value)
  | .extend n => filled items (n + 1)
  | .resize n => (filled items n).take n.toNat
  | .append v => items ++ [v.known?]
  | .reverse => items.reverse
  | .add vs => items ++ vs.map Value.known?
  | .set i v => (filled items (i + 1)).set i.toNat v.known?
  | .length => items
  | .get _ => items

/-- The reply of a list. An index below zero counts from the end. -/
def reply : ArrayRequest → ArrayReply
  | .length => .length items.length
  | .get i =>
    match if 0 ≤ i then items[i.toNat]? else items.reverse[(-i - 1).toNat]? with
    | some v => .element v
    | none => .failed .outOfRange
  | _ => .done

def replies : List (Option Value) → List ArrayRequest → List ArrayReply
  | _, [] => []
  | items, r :: rs => r.reply items :: replies (r.apply items) rs

/-- Whether a list of `k` items can be asked for this. It must not become empty, and the number of
items to be added must be one that can be asked for. -/
def Fits (k : Nat) : ArrayRequest → Prop
  | .extend n => -largestCount - 1 ≤ n - k + 1 ∧ n - k + 1 ≤ largestCount
  | .resize n => 1 ≤ n ∧ n - k ≤ largestCount
  | .set i _ => 0 ≤ i ∧ i - k + 1 ≤ largestCount
  | _ => True

/-- Whether the requests can be made one after the other. -/
def AllFit : List (Option Value) → List ArrayRequest → Prop
  | _, [] => True
  | items, r :: rs => r.Fits items.length ∧ AllFit (r.apply items) rs

end ArrayRequest

/-! ### Changing an array -/

/-- The buffer and the text of an array hold the same elements. -/
structure Store.InStep (s : Store) (id : NodeId) (vs : List Value) : Prop where
  given : id < s.nextId
  cell : ∃ b < s.nextId, s.arrays[id]? = some ⟨some b, vs⟩ ∧ s.buffers[b]? = some vs
  nonempty : vs ≠ []

/-- An array has items, in its buffer as in its text. -/
def Store.Holds (s : Store) (id : NodeId) (items : List (Option Value)) : Prop :=
  ∃ vs, s.InStep id vs ∧ vs.map Value.known? = items

namespace Store.InStep

open Stored ArrayRequest

variable {s : Store} {id : NodeId} {vs ws : List Value} {n i : Int} {v : Value}

lemma elements? (h : s.InStep id vs) : s.elements? id = some vs := by
  obtain ⟨b, -, hid, hb⟩ := h.cell
  simp [Store.elements?, hid, hb]

lemma elements_eq (h : s.elements? id = some vs) : elements id s = .ok vs s := by
  refine bind_eq rfl ?_
  rw [h]
  rfl

lemma textWithin (h : s.InStep id vs) (depth : Nat) : s.textWithin (depth + 1) (.array id) =
    "[" ++ ",".intercalate (vs.map (s.textWithin depth)) ++ "]" := by
  obtain ⟨b, -, hid, -⟩ := h.cell
  rw [Store.textWithin, h.elements?]
  simp [shown, hid]

lemma fresh (h : s.InStep id vs) : { s with nextId := s.nextId + 1 }.InStep id vs := by
  obtain ⟨b, hb, hcell⟩ := h.cell
  exact ⟨Nat.lt_succ_of_lt h.given, ⟨b, Nat.lt_succ_of_lt hb, hcell⟩, h.nonempty⟩

lemma exists_refresh {b : Nat} (hid : id < s.nextId) (hb : b < s.nextId)
    (hcell : s.arrays[id]? = some ⟨some b, vs⟩) (hbuffer : s.buffers[b]? = some ws) (hws : ws ≠ []) :
    ∃ t, refresh id s = .ok () t ∧ t.InStep id ws := by
  have helements : s.elements? id = some ws := by simp [Store.elements?, hcell, hbuffer]
  refine ⟨{ s with arrays := s.arrays.modify id ({ · with shown := ws }) },
    bind_eq (elements_eq helements) ?_, hid, ⟨b, hb, by simp [hcell], hbuffer⟩, hws⟩
  rw [if_neg (by simpa using hws)]
  rfl

lemma exists_change (h : s.InStep id vs) (f : List Value → List Value) (hf : f vs ≠ []) :
    ∃ t, change id f s = .ok () t ∧ t.InStep id (f vs) := by
  obtain ⟨b, hb, hid, hbuffer⟩ := h.cell
  obtain ⟨t, hrefresh, ht⟩ := exists_refresh (s := { s with buffers := s.buffers.modify b f })
    h.given hb hid (by simp [hbuffer]) hf
  refine ⟨t, bind_eq (a := b) (bind_eq rfl ?_) (bind_eq rfl hrefresh), ht⟩
  rw [hid]
  rfl

lemma exists_rebuild (h : s.InStep id vs) (us : List Value) (hus : us ≠ []) :
    ∃ t, rebuild id us s = .ok () t ∧ t.InStep id us := by
  obtain ⟨b, -, hid, -⟩ := h.cell
  have hcell : (s.arrays.modify id ({ · with buffer := some s.nextId }))[id]? =
      some ⟨some s.nextId, vs⟩ := by simp [hid]
  exact exists_refresh (s := { s with
    nextId := s.nextId + 1
    arrays := s.arrays.modify id ({ · with buffer := some s.nextId })
    buffers := s.buffers.insert s.nextId us })
    (Nat.lt_succ_of_lt h.given) (Nat.lt_succ_self _) hcell (by simp) hus

/-! ### Requests to an array -/

lemma extend_eq (h : s.InStep id vs) (n : Int) : extend id (.num (.int n)) s =
    (if n - vs.length + 1 > largestCount || n - vs.length + 1 < -largestCount - 1 then throw .tooLarge
      else change id (· ++ replicate (n - vs.length + 1).toNat (.atom s.nextId .nothing)) :
        Stored Unit) { s with nextId := s.nextId + 1 } := by
  refine bind_eq (elements_eq h.elements?) (bind_eq rfl (bind_eq (a := n) rfl ?_))
  dsimp only
  split_ifs <;> rfl

lemma exists_extend (h : s.InStep id vs) (hfits : (extend n).Fits vs.length) :
    ∃ t, extend id (.num (.int n)) s = .ok () t ∧ t.Holds id (filled (vs.map known?) (n + 1)) := by
  obtain ⟨t, hchange, ht⟩ := h.fresh.exists_change
    (· ++ replicate (n - vs.length + 1).toNat (.atom s.nextId .nothing)) (by simp [h.nonempty])
  refine ⟨t, ?_, _, ht, ?_⟩
  · obtain ⟨hlow, hhigh⟩ := hfits
    rw [h.extend_eq, if_neg (by simp only [Bool.or_eq_true, decide_eq_true_eq]; omega)]
    exact hchange
  · have hnothing : (atom s.nextId .nothing).known? = none := rfl
    have hcount : n + 1 - vs.length = n - vs.length + 1 := by omega
    simp [filled, hcount, hnothing]

lemma exists_put (h : s.InStep id vs) (hi : 0 ≤ i) (hlt : i < vs.length) (v : Value) :
    ∃ t, put id (.num (.int i)) v s = .ok () t ∧ t.InStep id (vs.set i.toNat v) := by
  obtain ⟨t, hchange, ht⟩ := h.exists_change (·.set i.toNat v) (by simpa using h.nonempty)
  refine ⟨t, bind_eq (a := i) rfl (bind_eq (elements_eq h.elements?) ?_), ht⟩
  rw [index?, if_pos hi, if_pos hlt]
  exact hchange

lemma exists_set (h : s.InStep id vs) (hfits : (set i v).Fits vs.length) :
    ∃ t, set id (.num (.int i)) v s = .ok () t ∧ t.Holds id ((set i v).apply (vs.map known?)) := by
  obtain ⟨hi, hcount⟩ := hfits
  have hatMost : (Num.int vs.length).atMost (.int i) = decide ((vs.length : Int) ≤ i) := by
    rw [Num.atMost, Num.less_int, Num.same_int, ← Bool.decide_or, decide_eq_decide]
    omega
  have hset : set id (.num (.int i)) v s =
      (if (Num.int vs.length).atMost (.int i) then do
        extend id (.num (.int i))
        put id (.num (.int i)) v
      else put id (.num (.int i)) v : Stored Unit) s := bind_eq (elements_eq h.elements?) rfl
  rw [hset, hatMost]
  by_cases hle : (vs.length : Int) ≤ i
  · obtain ⟨t, hextend, us, ht, hus⟩ := h.exists_extend (n := i) ⟨by simp [largestCount]; omega, hcount⟩
    have hlength : us.length = (i + 1).toNat := by
      have := congrArg List.length hus
      simp [filled] at this
      omega
    obtain ⟨t', hput, ht'⟩ := ht.exists_put hi (by omega) v
    rw [decide_eq_true hle]
    refine ⟨t', bind_eq hextend hput, _, ht', ?_⟩
    rw [map_set, hus]
    rfl
  · obtain ⟨t, hput, ht⟩ := h.exists_put hi (by omega) v
    rw [decide_eq_false hle]
    have hzero : (i + 1 - vs.length).toNat = 0 := by omega
    exact ⟨t, hput, _, ht, by simp [apply, filled, hzero]⟩

lemma exists_resize (h : s.InStep id vs) (hfits : (resize n).Fits vs.length) :
    ∃ t, resize id (.num (.int n)) s = .ok () t ∧
      t.Holds id ((resize n).apply (vs.map known?)) := by
  obtain ⟨hn, hcount⟩ := hfits
  have hresize : resize id (.num (.int n)) s =
      (if (Num.int vs.length).less (.int n) then extend id (.num (.int (n - 1)))
      else rebuild id (slice vs 0 n) : Stored Unit) s := bind_eq (elements_eq h.elements?) rfl
  rw [hresize, Num.less_int]
  by_cases hlt : (vs.length : Int) < n
  · obtain ⟨t, hextend, ws, ht, hws⟩ :=
      h.exists_extend (n := n - 1) ⟨by simp [largestCount]; omega, by omega⟩
    rw [decide_eq_true hlt]
    refine ⟨t, hextend, ws, ht, ?_⟩
    rw [hws, Int.sub_add_cancel]
    exact (take_of_length_le (by simp [filled]; omega)).symm
  · have hslice : slice vs 0 n = vs.take n.toNat := by
      simp only [slice, clampIndex]
      rw [if_neg (by omega), if_neg (by omega)]
      simp
    obtain ⟨t, hrebuild, ht⟩ := h.exists_rebuild (slice vs 0 n)
      (by rw [hslice, Ne, take_eq_nil_iff]; exact not_or.mpr ⟨by omega, h.nonempty⟩)
    rw [decide_eq_false hlt]
    have hzero : (n - vs.length).toNat = 0 := by omega
    exact ⟨t, hrebuild, _, ht, by simp [apply, filled, hzero, hslice]⟩

/-- The array of an index and a value does not disturb the one that they are for. -/
lemma exists_setBy (h : s.InStep id vs) (hfits : (set i v).Fits vs.length) :
    ∃ t, (set i v).run id s = .ok .done t ∧ t.Holds id ((set i v).apply (vs.map known?)) := by
  obtain ⟨b, hlt, hid, hb⟩ := h.cell
  let pair := [.atom s.nextId (.number (some (.int i))), v]
  let t1 : Store := { s with
    nextId := s.nextId + 3
    arrays := s.arrays.insert (s.nextId + 1) ⟨some (s.nextId + 2), pair⟩
    buffers := s.buffers.insert (s.nextId + 2) pair }
  have ht1 : t1.InStep id vs := by
    refine ⟨Nat.lt_add_right 3 h.given, ⟨b, Nat.lt_add_right 3 hlt, ?_, ?_⟩, h.nonempty⟩
    · simp [t1, Std.HashMap.getElem?_insert, Nat.ne_of_gt (Nat.lt_succ_of_lt h.given), hid]
    · simp [t1, Std.HashMap.getElem?_insert, Nat.ne_of_gt (Nat.lt_add_right 2 hlt), hb]
  have hpair : t1.elements? (s.nextId + 1) = some pair := by simp [t1, Store.elements?]
  obtain ⟨t, hset, ht⟩ := ht1.exists_set hfits
  have hsetBy : setBy id (s.nextId + 1) t1 = .ok () t := by
    refine bind_eq (map_eq_ok.mpr ⟨vs, elements_eq ht1.elements?, rfl⟩) (bind_eq rfl ?_)
    rw [hpair]
    exact hset
  have harray : array pair { s with nextId := s.nextId + 1 } = .ok (.array (s.nextId + 1)) t1 := rfl
  exact ⟨t, bind_eq rfl (bind_eq harray (bind_eq hsetBy rfl)), ht⟩

lemma run_get (h : s.InStep id vs) (i : Int) : (get i).run id s =
    .ok ((get i).reply (vs.map known?)) s := by
  have hitem : (if 0 ≤ i then (vs.map known?)[i.toNat]?
      else (vs.map known?).reverse[(-i - 1).toNat]?) =
        ((index? vs.length i).bind (vs[·]?)).map known? := by
    rw [getElem?_index?]
    split <;> simp [← map_reverse]
  have helement : element id i s =
      ((index? vs.length i).bind (vs[·]?)).elim (.error .outOfRange s) (.ok · s) := by
    refine (bind_of_eq_ok (elements_eq h.elements?)).trans ?_
    cases (index? vs.length i).bind (vs[·]?) <;> rfl
  rw [reply, hitem, run]
  dsimp only
  rw [helement]
  cases (index? vs.length i).bind (vs[·]?) <;> rfl

/-- A request does to the array what it does to the list, and has the same reply. -/
lemma exists_run (h : s.InStep id vs) {r : ArrayRequest} (hfits : r.Fits vs.length) :
    ∃ t, r.run id s = .ok (r.reply (vs.map known?)) t ∧ t.Holds id (r.apply (vs.map known?)) := by
  cases r with
  | extend n =>
    obtain ⟨t, hextend, ht⟩ := h.exists_extend hfits
    exact ⟨t, bind_eq hextend rfl, ht⟩
  | resize n =>
    obtain ⟨t, hresize, ht⟩ := h.exists_resize hfits
    exact ⟨t, bind_eq hresize rfl, ht⟩
  | append v =>
    obtain ⟨t, hchange, ht⟩ := h.exists_change (· ++ [v]) (by simp)
    exact ⟨t, bind_eq hchange rfl, _, ht, map_append⟩
  | reverse =>
    obtain ⟨t, hchange, ht⟩ := h.exists_change reverse (by simpa using h.nonempty)
    exact ⟨t, bind_eq hchange rfl, _, ht, map_reverse⟩
  | add us =>
    obtain ⟨t, hchange, ht⟩ := h.exists_change (· ++ us) (by simp [h.nonempty])
    exact ⟨t, bind_eq hchange rfl, _, ht, map_append⟩
  | set i v => exact h.exists_setBy hfits
  | length =>
    refine ⟨s, bind_eq (bind_eq (elements_eq h.elements?) rfl) ?_, vs, h, rfl⟩
    rw [reply, length_map]
    rfl
  | get i => exact ⟨s, h.run_get i, vs, h, rfl⟩

lemma exists_of_array (s : Store) (hvs : vs ≠ []) :
    ∃ id t, array vs s = .ok (.array id) t ∧ t.InStep id vs := by
  obtain ⟨v, vs, rfl⟩ := exists_cons_of_ne_nil hvs
  exact ⟨s.nextId, _, rfl, Nat.lt_add_of_pos_right (Nat.succ_pos 1),
    ⟨s.nextId + 1, Nat.lt_succ_self _, Std.HashMap.getElem?_insert_self,
      Std.HashMap.getElem?_insert_self⟩, hvs⟩

end Store.InStep

open ArrayRequest

lemma Store.Holds.exists_mapM {s : Store} {id : NodeId} {items : List (Option Value)}
    (h : s.Holds id items) {rs : List ArrayRequest} (hfit : AllFit items rs) :
    ∃ t, rs.mapM (run id) s = .ok (replies items rs) t ∧ t.Holds id (rs.foldl apply items) := by
  induction rs generalizing s items with
  | nil => exact ⟨s, rfl, h⟩
  | cons r rs ih =>
    obtain ⟨vs, hvs, rfl⟩ := h
    obtain ⟨hr, hrs⟩ := hfit
    rw [length_map] at hr
    obtain ⟨t, hrun, ht⟩ := hvs.exists_run hr
    obtain ⟨u, hruns, hu⟩ := ih ht hrs
    refine ⟨u, ?_, hu⟩
    rw [mapM_cons]
    exact bind_eq hrun (bind_eq hruns rfl)

end ArmaScript
