/-!
# Tables

A table keeps its keys in the order in which they were first put in. Putting a value under a key that
is there already changes the value and not the order.
-/

namespace ArmaScript

/-- Values by key, in the order in which the keys were put in. -/
abbrev Table (κ β : Type) := List (κ × β)

namespace Table

variable {κ β : Type} [BEq κ]

def get? : Table κ β → κ → Option β
  | [], _ => none
  | (k, v) :: rest, key => if k == key then some v else get? rest key

def has (t : Table κ β) (key : κ) : Bool :=
  (t.get? key).isSome

def put : Table κ β → κ → β → Table κ β
  | [], key, value => [(key, value)]
  | (k, v) :: rest, key, value =>
    if k == key then (k, value) :: rest else (k, v) :: put rest key value

def remove : Table κ β → κ → Table κ β
  | [], _ => []
  | (k, v) :: rest, key => if k == key then rest else (k, v) :: remove rest key

theorem get?_put [LawfulBEq κ] [DecidableEq κ] (t : Table κ β) (key key' : κ) (v : β) :
    (t.put key v).get? key' = if key = key' then some v else t.get? key' := by
  induction t with
  | nil => simp [put, get?]
  | cons entry rest ih =>
    obtain ⟨k, v'⟩ := entry
    by_cases hk : k = key
    · subst hk
      by_cases hkey : k = key' <;> simp [put, get?, hkey]
    · by_cases hkey : k = key'
      · subst hkey
        simp [put, get?, hk, Ne.symm hk]
      · simp [put, get?, hk, hkey, ih]

theorem put_put [LawfulBEq κ] (t : Table κ β) (key : κ) (u v : β) :
    (t.put key u).put key v = t.put key v := by
  induction t with
  | nil => simp [put]
  | cons entry rest ih => by_cases hk : entry.1 == key <;> simp [put, hk, ih]

theorem mem_of_get? {t : Table κ β} {key : κ} {value : β} (h : t.get? key = some value) :
    ∃ k, (k, value) ∈ t := by
  induction t with
  | nil => cases h
  | cons x t ih =>
    rw [get?] at h
    split at h
    · cases h
      exact ⟨x.1, List.mem_cons_self⟩
    · obtain ⟨k, hk⟩ := ih h
      exact ⟨k, List.mem_cons_of_mem x hk⟩

theorem value_of_mem_put {t : Table κ β} {key : κ} {value : β} {x : κ × β}
    (hx : x ∈ t.put key value) : x.2 = value ∨ x ∈ t := by
  induction t with
  | nil =>
    rw [put, List.mem_singleton] at hx
    exact .inl (by rw [hx])
  | cons y t ih =>
    rw [put] at hx
    split at hx
    · exact (List.mem_cons.mp hx).imp (by rintro rfl; rfl) (List.mem_cons_of_mem y)
    · obtain rfl | hx := List.mem_cons.mp hx
      · exact .inr List.mem_cons_self
      · exact (ih hx).imp_right (List.mem_cons_of_mem y)

end Table

end ArmaScript
