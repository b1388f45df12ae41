import ArmaScript.Proofs.Reading
import Mathlib.Data.List.Forall2

/-!
# The tokens of trees

A tree that is built from a row of nodes has their tokens, in order, apart from layout that is lost
behind an operator without a right operand. Only the brackets of a node are written anew.
-/

namespace ArmaScript

open Precedence Tree List

namespace Tree

@[simp] lemma textList_append (ts us : List Tree) :
    textList (ts ++ us) = textList ts ++ textList us := by
  induction ts with
  | nil => simp
  | cons t ts ih => simp [ih, String.append_assoc]

/-- The tokens of a node, without their identities. -/
def atoms (t : Tree) : List Atom :=
  t.tokens.filterMap atom?

/-- The tokens of several nodes, without their identities. -/
def atomsList (ts : List Tree) : List Atom :=
  (tokensList ts).filterMap atom?

@[simp] lemma tokensList_nil : tokensList [] = [] := rfl

@[simp] lemma tokensList_cons (t : Tree) (ts : List Tree) :
    tokensList (t :: ts) = t.tokens ++ tokensList ts := rfl

@[simp] lemma tokensList_append (ts us : List Tree) :
    tokensList (ts ++ us) = tokensList ts ++ tokensList us := by
  induction ts with
  | nil => simp
  | cons t ts ih => simp [ih]

@[simp] lemma atoms_atom (id : NodeId) (a : Atom) : (atom id a).atoms = [a] :=
  rfl

@[simp] lemma atoms_statement (id : NodeId) (b : Bool) (e : Option Ending) (cs : List Tree) :
    (statement id b e cs).atoms = atomsList cs :=
  rfl

@[simp] lemma atoms_code (id : NodeId) (cs : List Tree) : (code id cs).atoms = atomsList cs :=
  rfl

@[simp] lemma atoms_array (id : NodeId) (cs : List Tree) : (array id cs).atoms = atomsList cs :=
  rfl

@[simp] lemma atoms_conditional (id : NodeId) (cs : List Tree) :
    (conditional id cs).atoms = atomsList cs :=
  rfl

@[simp] lemma atoms_resolution (id : NodeId) (r cs : List Tree) :
    (resolution id r cs).atoms = atomsList cs :=
  rfl

@[simp] lemma atomsList_nil : atomsList [] = [] := by simp [atomsList]

@[simp] lemma atomsList_cons (t : Tree) (ts : List Tree) :
    atomsList (t :: ts) = t.atoms ++ atomsList ts := by simp [atomsList, atoms]

@[simp] lemma atomsList_append (ts us : List Tree) :
    atomsList (ts ++ us) = atomsList ts ++ atomsList us := by simp [atomsList]

mutual

theorem isAtom_of_mem_tokens {u : Tree} : ∀ t : Tree, u ∈ t.tokens → ∃ id a, u = .atom id a
  | .atom id a, h => by
    rw [tokens, mem_singleton] at h
    exact ⟨id, a, h⟩
  | .statement _ _ _ cs, h | .code _ cs, h | .array _ cs, h | .define _ _ _ _ cs, h
  | .conditional _ cs, h | .expansion _ _ _ cs, h | .resolution _ _ cs, h =>
    isAtom_of_mem_tokensList cs (by rwa [tokens] at h)

theorem isAtom_of_mem_tokensList {u : Tree} :
    ∀ ts : List Tree, u ∈ tokensList ts → ∃ id a, u = .atom id a
  | [], h => by simp at h
  | t :: ts, h => by
    rcases mem_append.mp (by rwa [tokensList_cons] at h) with h | h
    · exact isAtom_of_mem_tokens t h
    · exact isAtom_of_mem_tokensList ts h

end

mutual

theorem text_eq_join : ∀ t : Tree, t.text = String.join (t.atoms.map Atom.text)
  | .atom .. => by simp
  | .statement _ _ _ cs | .code _ cs | .array _ cs | .define _ _ _ _ cs | .conditional _ cs
  | .expansion _ _ _ cs | .resolution _ _ cs => textList_eq_join cs

theorem textList_eq_join :
    ∀ ts : List Tree, textList ts = String.join ((atomsList ts).map Atom.text)
  | [] => by simp
  | t :: ts => by
    rw [textList_cons, atomsList_cons, map_append, String.join_append, text_eq_join t,
      textList_eq_join ts]

end

lemma atoms_ne_nil {t : Tree} (h : t.text ≠ "") : t.atoms ≠ [] := by
  intro hatoms
  rw [text_eq_join, hatoms] at h
  exact h rfl

variable {ts us : List Tree}

lemma length_le_length_atomsList (h : ∀ t ∈ ts, t.text ≠ "") :
    ts.length ≤ (atomsList ts).length := by
  induction ts with
  | nil => simp
  | cons t ts ih =>
    have hpos : 0 < t.atoms.length := length_pos_iff.mpr (atoms_ne_nil (h t (by simp)))
    have hle := ih fun u hu => h u (by simp [hu])
    rw [atomsList_cons, length_append, length_cons]
    omega

lemma length_filterMap_atom? (h : ∀ u ∈ us, ∃ id a, u = .atom id a) :
    (us.filterMap atom?).length = us.length := by
  induction us with
  | nil => rfl
  | cons u us ih =>
    obtain ⟨id, a, rfl⟩ := h u (by simp)
    simp [atom?, ih fun v hv => h v (by simp [hv])]

lemma length_atomsList (ts : List Tree) : (atomsList ts).length = (tokensList ts).length :=
  length_filterMap_atom? fun _ => isAtom_of_mem_tokensList ts

/-- Tokens stay the same when the tokens of a row are taken as a row. -/
lemma atomsList_tokensList (ts : List Tree) : atomsList (tokensList ts) = atomsList ts := by
  have h : ∀ us : List Tree, (∀ u ∈ us, ∃ id a, u = .atom id a) → tokensList us = us := by
    intro us hus
    induction us with
    | nil => simp
    | cons u us ih =>
      obtain ⟨id, a, rfl⟩ := hus u (by simp)
      rw [tokensList_cons, ih fun v hv => hus v (by simp [hv]), tokens, singleton_append]
  rw [atomsList, h _ fun u => isAtom_of_mem_tokensList ts, atomsList]

lemma atomsList_sublist (h : ts.Sublist us) : (atomsList ts).Sublist (atomsList us) := by
  induction h with
  | slnil => exact .slnil
  | @cons ts us u h ih =>
    rw [atomsList_cons]
    exact ih.trans (sublist_append_right _ _)
  | @cons_cons ts us u h ih =>
    rw [atomsList_cons, atomsList_cons]
    exact (List.Sublist.refl _).append ih

end Tree

namespace Build

mutual

theorem atoms_ofExp : ∀ (e : Exp Tree) {σ σ' : BuildState} {t : Tree}, ofExp e σ = .ok t σ' →
    t.atoms = atomsList e.leaves
  | .leaf t, σ, σ', u, h => by
    rw [ofExp] at h
    cases h
    simp
  | .group es, σ, σ', u, h => by
    rw [ofExp] at h
    obtain ⟨ts, σ1, h1, h2⟩ := bind_eq_ok.mp h
    cases h2
    rw [atoms_statement, atomsList_ofExpList es h1, Exp.leaves_group]

theorem atomsList_ofExpList : ∀ (es : List (Exp Tree)) {σ σ' : BuildState} {ts : List Tree},
    ofExpList es σ = .ok ts σ' → atomsList ts = atomsList (Exp.leavesList es)
  | [], σ, σ', ts, h => by
    rw [ofExpList] at h
    cases h
    simp
  | e :: es, σ, σ', ts, h => by
    rw [ofExpList] at h
    obtain ⟨t, σ1, h1, h⟩ := bind_eq_ok.mp h
    obtain ⟨ts', σ2, h2, h⟩ := bind_eq_ok.mp h
    cases h
    simp [atoms_ofExp e h1, atomsList_ofExpList es h2]

end

variable {σ σ' : BuildState} {t : Tree} {row : List Tree}

lemma ending?_ofExp {e : Exp Tree} (h : ofExp e σ = .ok t σ')
    (he : ∀ u ∈ e.leaves, u.ending? = none) : t.ending? = none := by
  cases e with
  | leaf u =>
    rw [ofExp] at h
    cases h
    exact he t (by simp)
  | group es =>
    rw [ofExp] at h
    obtain ⟨ts, σ1, h1, h2⟩ := bind_eq_ok.mp h
    cases h2
    rfl

lemma endingOf?_concat (ts : List Tree) (t : Tree) :
    endingOf? (ts ++ [t]) = match t with
      | .atom _ (.mark text) => Ending.ofText? text
      | _ => none := by
  unfold endingOf?
  rw [List.getLast?_concat]
  cases t with
  | atom id a => cases a <;> rfl
  | _ => rfl

def endingText (ending : Option Ending) : String :=
  (ending.map Ending.text).getD ""

def endingAtoms (ending : Option Ending) : List Atom :=
  (ending.map fun e => Atom.mark e.text).toList

lemma atoms_setEnding {id : NodeId} {b : Bool} {cs : List Tree} {ending : Option Ending}
    (h : setEnding (.statement id b none cs) ending σ = .ok t σ') :
    t.atoms = atomsList cs ++ endingAtoms ending := by
  cases ending with
  | none | some e =>
    cases h
    simp [endingAtoms]

lemma atoms_arrange (h : arrange row σ = .ok t σ') (hrow : ∀ u ∈ row, u.ending? = none) :
    t.atoms = atomsList (Precedence.kept items (bodyOf row)) ++ endingAtoms (endingOf? row) := by
  obtain ⟨e, σ1, h1, h⟩ := bind_eq_ok.mp h
  obtain ⟨u, σ2, h2, h⟩ := bind_eq_ok.mp h
  have he : Precedence.arrange items (bodyOf row) = .ok e := (lift_eq_ok_iff.mp h1).1
  have hleaves := Precedence.leaves_arrange he
  have hu : u.ending? = none := by
    refine ending?_ofExp h2 fun v hv => hrow v (mem_of_mem_bodyOf (mem_of_mem_kept ?_))
    rwa [← hleaves]
  have hatoms : u.atoms = atomsList (Precedence.kept items (bodyOf row)) := by
    rw [atoms_ofExp e h2, hleaves]
  rw [← hatoms]
  split at h
  · cases hu
    rw [atoms_setEnding h, atoms_statement]
  · obtain ⟨w, σ3, h3, h4⟩ := bind_eq_ok.mp h
    cases h3
    rw [atoms_setEnding h4]
    simp

lemma text_arrange (h : arrange row σ = .ok t σ') (hrow : ∀ u ∈ row, u.ending? = none) :
    t.text = textList (kept items (bodyOf row)) ++ endingText (endingOf? row) := by
  have hending : String.join ((endingAtoms (endingOf? row)).map Atom.text) =
      endingText (endingOf? row) := by
    cases endingOf? row <;> simp [endingAtoms, endingText, Atom.text]
  rw [text_eq_join, atoms_arrange h hrow, map_append, String.join_append, hending, textList_eq_join]

lemma atomsList_bodyOf (row : List Tree) :
    atomsList (bodyOf row) ++ endingAtoms (endingOf? row) = atomsList row := by
  rcases eq_nil_or_concat row with rfl | ⟨front, t, rfl⟩
  · rfl
  · rw [concat_eq_append, bodyOf, endingOf?_concat]
    split
    · rename_i id text
      by_cases hs : text = ";"
      · subst hs
        simp [Ending.ofText?, endingAtoms, Ending.text]
      · by_cases hc : text = ","
        · subst hc
          simp [Ending.ofText?, endingAtoms, Ending.text]
        · simp [Ending.ofText?, hs, hc, endingAtoms]
    · simp [endingAtoms]

lemma atoms_arrange_sublist (h : arrange row σ = .ok t σ') (hrow : ∀ u ∈ row, u.ending? = none) :
    t.atoms.Sublist (atomsList row) := by
  rw [atoms_arrange h hrow, ← atomsList_bodyOf row]
  obtain ⟨dropped, hkept, -⟩ := exists_kept_append items (bodyOf row)
  refine List.Sublist.append ?_ (.refl _)
  conv_rhs => rw [hkept]
  rw [atomsList_append]
  exact sublist_append_left _ _

lemma kept_ne_nil (h : row ≠ []) : kept items row ≠ [] := by
  unfold kept
  split_ifs with hopen
  · intro hnil
    have hall := rdropWhile_eq_nil_iff.mp hnil
    have hfilter : row.filter (fun t => !items.isLayout t) = [] := by
      simpa using hall
    rw [endsOpen, hfilter, dangles_nil] at hopen
    cases hopen
  · exact h

lemma text_arrange_ne_empty (h : arrange row σ = .ok t σ') (hne : row ≠ [])
    (htext : ∀ u ∈ row, u.text ≠ "") (hending : ∀ u ∈ row, u.ending? = none) : t.text ≠ "" := by
  rw [text_arrange h hending]
  cases hend : endingOf? row with
  | some e => cases e <;> simp [endingText, Ending.text]
  | none =>
    have hbody : bodyOf row = row := by rw [bodyOf, hend]; rfl
    rw [hbody]
    intro hempty
    have hkept : kept items row ≠ [] := kept_ne_nil hne
    cases hk : kept items row with
    | nil => exact hkept hk
    | cons u us =>
      have hu : u.text ≠ "" := htext u (mem_of_mem_kept (by simp [hk]))
      rw [hk, textList_cons] at hempty
      exact hu (String.append_eq_empty_iff.mp (String.append_eq_empty_iff.mp hempty).1).1

mutual

theorem exists_ofExp : ∀ (e : Exp Tree) (σ : BuildState), ∃ t σ', ofExp e σ = .ok t σ'
  | .leaf t, σ => ⟨t, σ, by rw [ofExp]; rfl⟩
  | .group es, σ => by
    obtain ⟨ts, σ1, h⟩ := exists_ofExpList es σ
    rw [ofExp, bind_of_eq_ok h]
    exact ⟨_, _, rfl⟩

theorem exists_ofExpList :
    ∀ (es : List (Exp Tree)) (σ : BuildState), ∃ ts σ', ofExpList es σ = .ok ts σ'
  | [], σ => ⟨[], σ, by rw [ofExpList]; rfl⟩
  | e :: es, σ => by
    obtain ⟨t, σ1, h1⟩ := exists_ofExp e σ
    obtain ⟨ts, σ2, h2⟩ := exists_ofExpList es σ1
    rw [ofExpList, bind_of_eq_ok h1, bind_of_eq_ok h2]
    exact ⟨_, _, rfl⟩

end

lemma exists_setEnding (t : Tree) (ending : Option Ending) (σ : BuildState) :
    ∃ t' σ', setEnding t ending σ = .ok t' σ' := by
  cases t with
  | statement id b old cs => cases ending <;> exact ⟨_, _, rfl⟩
  | _ => exact ⟨_, _, rfl⟩

lemma exists_arrange (hrow : ∀ t ∈ row, t.text ≠ "") (σ : BuildState) :
    ∃ t σ', arrange row σ = .ok t σ' := by
  obtain ⟨e, he⟩ : ∃ e, Precedence.arrange items (bodyOf row) = .ok e :=
    Precedence.exists_arrange fun t ht => hrow t (mem_of_mem_bodyOf ht)
  obtain ⟨t, σ1, ht⟩ := exists_ofExp e σ
  rw [bodyOf] at he
  unfold arrange
  rw [bind_of_eq_ok (lift_eq_ok_iff.mpr ⟨he, rfl⟩), bind_of_eq_ok ht]
  split
  · exact exists_setEnding _ _ _
  · have hstatement : statement [t] σ1 =
        .ok (.statement σ1.nextId false none [t]) ⟨σ1.nextId + 1, σ1.definitions⟩ := rfl
    rw [bind_of_eq_ok hstatement]
    exact exists_setEnding _ _ _

/-! ### Arrays -/

/-- The tokens of several parts, with a comma between any two. -/
def commaJoin : List (List Atom) → List Atom
  | [] => []
  | [part] => part
  | part :: parts => part ++ .mark "," :: commaJoin parts

lemma commaJoin_cons {part : List Atom} {parts : List (List Atom)} (h : parts ≠ []) :
    commaJoin (part :: parts) = part ++ .mark "," :: commaJoin parts := by
  cases parts with
  | nil => exact absurd rfl h
  | cons _ _ => rfl

lemma commaJoin_splitCommas (row : List Tree) :
    commaJoin ((splitCommas row).map atomsList) = atomsList row := by
  induction row with
  | nil => simp [splitCommas, commaJoin]
  | cons t ts ih =>
    cases hparts : splitCommas ts with
    | nil => exact absurd hparts (splitCommas_ne_nil ts)
    | cons part parts =>
      rw [hparts] at ih
      cases hcomma : t.isMark "," with
      | true =>
        obtain ⟨id, rfl⟩ : ∃ id, t = .atom id (.mark ",") := by
          cases t with
          | atom id a => exact ⟨id, by rw [Atom.eq_mark_of_isMark hcomma]⟩
          | _ => cases hcomma
        rw [splitCommas, hcomma, hparts, map_cons, commaJoin_cons (by simp), ih]
        simp
      | false =>
        rw [splitCommas, hcomma, hparts]
        cases parts with
        | nil => simpa [commaJoin] using ih
        | cons p ps =>
          rw [map_cons, commaJoin_cons (by simp)] at ih ⊢
          rw [atomsList_cons, atomsList_cons, ← ih, append_assoc]

lemma atomsList_withCommas {nodes inner : List Tree} (h : withCommas nodes σ = .ok inner σ') :
    atomsList inner = commaJoin (nodes.map atoms) := by
  induction nodes generalizing inner σ σ' with
  | nil =>
    cases h
    rfl
  | cons t ts ih =>
    cases ts with
    | nil =>
      cases h
      simp [commaJoin]
    | cons u us =>
      obtain ⟨comma, σ1, h1, h⟩ := bind_eq_ok.mp h
      obtain ⟨rest, σ2, h2, h3⟩ := bind_eq_ok.mp h
      cases h1
      cases h3
      rw [map_cons, commaJoin_cons (by simp), ← ih h2]
      simp

lemma exists_withCommas (nodes : List Tree) (σ : BuildState) :
    ∃ inner σ', withCommas nodes σ = .ok inner σ' := by
  induction nodes generalizing σ with
  | nil => exact ⟨_, _, rfl⟩
  | cons t ts ih =>
    cases ts with
    | nil => exact ⟨_, _, rfl⟩
    | cons u us =>
      obtain ⟨inner, σ', h⟩ := ih ⟨σ.nextId + 1, σ.definitions⟩
      refine ⟨t :: .atom σ.nextId (.mark ",") :: inner, σ', ?_⟩
      exact bind_eq rfl (bind_eq h rfl)

lemma commaJoin_sublist {parts parts' : List (List Atom)} (h : Forall₂ List.Sublist parts parts') :
    (commaJoin parts).Sublist (commaJoin parts') := by
  induction h with
  | nil => exact .slnil
  | @cons part part' parts parts' hpart hparts ih =>
    cases hparts with
    | nil => exact hpart
    | cons _ _ => exact hpart.append (ih.cons_cons _)

end Build

end ArmaScript
