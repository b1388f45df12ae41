import ArmaScript.Proofs.Accepting
import ArmaScript.Proofs.Nesting

/-!
# Brackets and the brackets that close them

The reader closes the bracket that was opened last at every closing bracket, of whatever kind. Tokens are
paired if all brackets are closed in this way. Which bracket closes which one can be seen from the number
of open brackets alone.
-/

namespace ArmaScript

open List

/-- Tokens in which every bracket is closed, by whatever kind of bracket. -/
inductive Paired : List Atom → Prop where
  | nil : Paired []
  | token {a : Atom} {rest : List Atom} (ho : a.opens? = none) (hc : a.closes? = none)
      (hrest : Paired rest) : Paired (a :: rest)
  | group {o c : Atom} {k k' : Bracket} {inner rest : List Atom} (ho : o.opens? = some k)
      (hc : c.closes? = some k') (hinner : Paired inner) (hrest : Paired rest) :
      Paired (o :: inner ++ c :: rest)

/-- Two ways to take one element out of a list: one of them comes first, or they are the same. -/
lemma append_cons_cases {α : Type} {xs ys us vs : List α} {a b : α}
    (h : xs ++ a :: ys = us ++ b :: vs) :
    (∃ zs, xs = us ++ b :: zs ∧ vs = zs ++ a :: ys) ∨ (xs = us ∧ a = b ∧ ys = vs) ∨
      ∃ zs, us = xs ++ a :: zs ∧ ys = zs ++ b :: vs := by
  obtain ⟨zs, rfl, hzs⟩ | ⟨zs, rfl, hzs⟩ := append_eq_append_iff.mp h
  · cases zs with
    | nil =>
      obtain ⟨rfl, rfl⟩ := cons.inj hzs
      exact .inr (.inl ⟨by simp, rfl, rfl⟩)
    | cons d zs =>
      obtain ⟨rfl, rfl⟩ := cons.inj hzs
      exact .inr (.inr ⟨zs, rfl, rfl⟩)
  · cases zs with
    | nil =>
      obtain ⟨rfl, rfl⟩ := cons.inj hzs
      exact .inr (.inl ⟨by simp, rfl, rfl⟩)
    | cons d zs =>
      obtain ⟨rfl, rfl⟩ := cons.inj hzs
      exact .inl ⟨zs, rfl, rfl⟩

namespace Paired

variable {xs tokens inner rest : List Atom} {a c : Atom} {k : Bracket}

lemma append {ys : List Atom} (hx : Paired xs) (hy : Paired ys) : Paired (xs ++ ys) := by
  induction hx with
  | nil => exact hy
  | token ho hc _ ih => exact .token ho hc ih
  | group ho hc hinner _ _ ih =>
    rw [append_assoc, cons_append]
    exact .group ho hc hinner ih

/-- The number of open brackets behind some tokens, unless more are closed than are open. -/
def depthAfter : Nat → List Atom → Option Nat
  | depth, [] => some depth
  | depth, a :: rest =>
    match a.opens?, a.closes?, depth with
    | some _, _, depth => depthAfter (depth + 1) rest
    | none, none, depth => depthAfter depth rest
    | none, some _, depth + 1 => depthAfter depth rest
    | none, some _, 0 => none

lemma depthAfter_opening (h : a.opens? = some k) (depth : Nat) (rest : List Atom) :
    depthAfter depth (a :: rest) = depthAfter (depth + 1) rest := by
  simp [depthAfter, h]

lemma depthAfter_append (depth : Nat) (xs ys : List Atom) : depthAfter depth (xs ++ ys) =
      (depthAfter depth xs).bind fun depth => depthAfter depth ys := by
  fun_induction depthAfter depth xs <;> simp_all [depthAfter]

/-- With more brackets open before, as many more are open behind. -/
lemma depthAfter_add {depth depth' : Nat} (h : depthAfter depth tokens = some depth') (more : Nat) :
    depthAfter (depth + more) tokens = some (depth' + more) := by
  fun_induction depthAfter depth tokens <;> simp_all [depthAfter, Nat.add_right_comm]

lemma depthAfter_eq (h : Paired tokens) (depth : Nat) : depthAfter depth tokens = some depth := by
  induction h generalizing depth with
  | nil => rfl
  | token ho hc _ ih => simp [depthAfter, ho, hc, ih]
  | group ho hc _ _ ihinner ihrest =>
    rw [cons_append, depthAfter_opening ho, depthAfter_append, ihinner]
    simp [depthAfter, Atom.opens?_of_closes? hc, hc, ihrest]

/-- Behind paired tokens at the start of others, no bracket is closed. -/
lemma closes?_eq_none (h : Paired (inner ++ c :: rest)) (hinner : Paired inner) :
    c.closes? = none := by
  cases hc : c.closes? with
  | none => rfl
  | some k =>
    have hdepth := h.depthAfter_eq 0
    rw [depthAfter_append, hinner.depthAfter_eq] at hdepth
    simp [depthAfter, Atom.opens?_of_closes? hc, hc] at hdepth

lemma eq_of_closing {inner' rest' : List Atom} {c' : Atom} {k' : Bracket}
    (h : inner ++ c :: rest = inner' ++ c' :: rest') (hinner : Paired inner)
    (hinner' : Paired inner') (hc : c.closes? = some k) (hc' : c'.closes? = some k') :
    inner = inner' ∧ c = c' ∧ rest = rest' := by
  obtain ⟨zs, rfl, -⟩ | heq | ⟨zs, rfl, -⟩ := append_cons_cases h
  · rw [hinner.closes?_eq_none hinner'] at hc'
    cases hc'
  · exact heq
  · rw [hinner'.closes?_eq_none hinner] at hc
    cases hc

/-- Tokens do not become paired by an opening bracket and a start of paired tokens behind it. -/
lemma not_append_opening (ha : a.opens? = some k) (hrest : Paired (inner ++ rest)) :
    ¬ Paired (xs ++ a :: inner) := by
  intro h
  have hdepth := h.depthAfter_eq 0
  rw [depthAfter_append] at hdepth
  obtain ⟨depth, -, hbehind⟩ := Option.bind_eq_some_iff.mp hdepth
  have hstart := hrest.depthAfter_eq 0
  rw [depthAfter_append] at hstart
  obtain ⟨depth', hinner, -⟩ := Option.bind_eq_some_iff.mp hstart
  have hmore := depthAfter_add hinner (depth + 1)
  rw [depthAfter_opening ha, ← Nat.zero_add (depth + 1), hmore] at hbehind
  simp at hbehind

lemma exists_closing (h : Paired tokens) :
    ∀ {before after : List Atom} {o : Atom} {k : Bracket}, tokens = before ++ o :: after →
      o.opens? = some k → ∃ inner c rest k', after = inner ++ c :: rest ∧ Paired inner ∧
        c.closes? = some k' := by
  induction h with
  | nil =>
    intro before after o k heq ho
    simp at heq
  | token hnot _ _ ih =>
    intro before after o k heq ho
    cases before with
    | nil =>
      obtain ⟨rfl, rfl⟩ := cons.inj heq
      simp [hnot] at ho
    | cons b before => exact ih (cons.inj heq).2 ho
  | @group o' c k1 k2 inner rest ho' hc hinner hrest ihinner ihrest =>
    intro before after o k heq ho
    cases before with
    | nil =>
      obtain ⟨rfl, rfl⟩ := cons.inj heq
      exact ⟨inner, c, rest, k2, rfl, hinner, hc⟩
    | cons b before =>
      have htail : inner ++ c :: rest = before ++ o :: after := (cons.inj heq).2
      obtain ⟨zs, hzs, rfl⟩ | ⟨-, rfl, -⟩ | ⟨zs, -, hzs⟩ := append_cons_cases htail
      · obtain ⟨inner', c', rest', k', rfl, hpaired, hc'⟩ := ihinner hzs ho
        exact ⟨inner', c', rest' ++ c :: rest, k', by simp, hpaired, hc'⟩
      · simp [Atom.opens?_of_closes? hc] at ho
      · exact ihrest hzs ho

end Paired

namespace Item

mutual

theorem paired_atoms {around : List Bracket} : ∀ i : Item, i.Open around → Paired (atoms [i])
  | .token t, h => by
    obtain ⟨ho, hc⟩ := h
    cases t with
    | atom id a => exact .token ho hc .nil
    | _ => exact .nil
  | .group o c content, h => by
    obtain ⟨k, ho, ⟨k', hc, -⟩, hcontent⟩ := h
    rw [atoms_group ho hc]
    exact .group (Atom.opens?_openingText k) (Atom.closes?_closingText k')
      (paired_atomsList content hcontent) .nil

theorem paired_atomsList {around : List Bracket} :
    ∀ is : List Item, OpenList around is → Paired (atoms is)
  | [], _ => .nil
  | i :: is, h => by
    rw [OpenList] at h
    rw [← singleton_append, atoms_append]
    exact (paired_atoms i h.1).append (paired_atomsList is h.2)

end

end Item

namespace Script

lemma exists_of_leaves_eq_append {tokens : List Atom} {firstId : NodeId} {xs ys : List Tree}
    (h : leaves firstId tokens = xs ++ ys) :
    ∃ as bs, tokens = as ++ bs ∧ xs = leaves firstId as ∧ ys = leaves (firstId + as.length) bs := by
  have hlength : (tokens.take xs.length).length = xs.length := by
    have hsum := congrArg length h
    rw [length_leaves, length_append] at hsum
    rw [length_take]
    omega
  rw [← take_append_drop xs.length tokens, leaves_append] at h
  obtain ⟨hx, hy⟩ := append_inj h (by rw [length_leaves, hlength])
  exact ⟨_, _, (take_append_drop xs.length tokens).symm, hx.symm, hy.symm⟩

end Script

end ArmaScript
