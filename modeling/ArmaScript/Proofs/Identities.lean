import ArmaScript.Proofs.Accepting
import ArmaScript.Proofs.Correspondence
import ArmaScript.Proofs.Tokens
import ArmaScript.Run.Statement

/-!
# The identities of what is read

A script without directives that replace tokens is read into tokens, statements, code and arrays, and
their identities lie between the first one that was free and the first one that is free afterwards. All
of its nodes get a place. If the script ends with a semicolon, all of its statements have an ending.
-/

namespace ArmaScript

open List

/-- Nodes of tokens, statements, code and arrays with identities from `n` on and below `m`. -/
inductive Tree.Made (n m : Nat) : Tree → Prop
  | atom {id : NodeId} {a : Atom} (h : n ≤ id ∧ id < m) : Made n m (.atom id a)
  | statement {id : NodeId} {b : Bool} {e : Option Ending} {cs : List Tree} (h : n ≤ id ∧ id < m)
      (hcs : ∀ c ∈ cs, Made n m c) : Made n m (.statement id b e cs)
  | code {id : NodeId} {cs : List Tree} (h : n ≤ id ∧ id < m) (hcs : ∀ c ∈ cs, Made n m c) :
      Made n m (.code id cs)
  | array {id : NodeId} {cs : List Tree} (h : n ≤ id ∧ id < m) (hcs : ∀ c ∈ cs, Made n m c) :
      Made n m (.array id cs)

/-- Several such nodes. -/
abbrev Tree.MadeList (n m : Nat) (ts : List Tree) : Prop :=
  ∀ t ∈ ts, t.Made n m

namespace Tree

variable {n m m' : Nat} {t : Tree}

lemma Made.mono (hm : m ≤ m') (h : Made n m t) : Made n m' t := by
  induction h with
  | atom h => exact .atom ⟨h.1, Nat.lt_of_lt_of_le h.2 hm⟩
  | statement h _ ih => exact .statement ⟨h.1, Nat.lt_of_lt_of_le h.2 hm⟩ ih
  | code h _ ih => exact .code ⟨h.1, Nat.lt_of_lt_of_le h.2 hm⟩ ih
  | array h _ ih => exact .array ⟨h.1, Nat.lt_of_lt_of_le h.2 hm⟩ ih

lemma closed_made (n : Nat) : Build.Closed n (Made n) where
  mono := Made.mono
  mark _ h := .atom h
  statement := .statement
  code := .code
  array := .array
  children h := by
    cases h with
    | statement _ hcs => exact hcs
  ended h hcs := by
    cases h with
    | statement h _ => exact .statement h hcs

end Tree

namespace Script

open Tree

lemma madeList_leaves {n m : Nat} {tokens : List Atom} (h : n + tokens.length ≤ m) :
    MadeList n m (leaves n tokens) := by
  have hfrom {k : Nat} (hk : n ≤ k) (hm : k + tokens.length ≤ m) :
      MadeList n m (leaves k tokens) := by
    clear h
    induction tokens generalizing k with
    | nil => exact nofun
    | cons a as ih =>
      rw [length_cons] at hm
      have hlt : k < m := by omega
      exact Build.Closed.cons (.atom ⟨hk, hlt⟩) (ih (Nat.le_succ_of_le hk) (by omega))
  exact hfrom (Nat.le_refl n) h

/-- The nodes of a script have identities from the first one on and below the next one. -/
lemma made_of_read {text : String} {n : Nat} {script : Script} {tokens : List Atom}
    (hlex : Atom.lex text = .ok tokens) (hplain : ∀ a ∈ tokens, a.isReplacing = false)
    (hread : read text n = .ok script) : Made n script.nextId script.tree := by
  obtain ⟨content, hflat, -, hbuild⟩ := (read_eq_ok_iff hlex hplain).mp hread
  have hmakes : Build.Makes (n + (tokens.length + 1)) (Item.buildScript content) (Made n) := by
    have hcontent : MadeList n (n + (tokens.length + 1)) (Item.flatList content) := by
      rw [hflat]
      exact madeList_leaves (by omega)
    have hmade := closed_made n
    refine (hmade.makes_buildList (Nat.le_add_right _ _) _ content hcontent Build.Closed.nil
      Build.Closed.nil).bind
      fun k1 h1 left hleft => ?_
    have hn1 := Nat.le_trans (Nat.le_add_right n _) h1
    exact (hmade.makes_closeRow hn1 hleft.1 hleft.2).bind fun k2 h2 ts hts =>
      hmade.makes_statement (Nat.le_trans hn1 h2) hts
  exact (hmakes rfl hbuild).2.2

/-! ### Places -/

end Script

namespace Tree

variable {n m : Nat} {t u : Tree}

lemma exists_of_mem_placesList {x : NodeId × Position} {p : Position} {ts : List Tree}
    (h : x ∈ placesList p ts) : ∃ t ∈ ts, ∃ q, x ∈ t.places q := by
  induction ts generalizing p with
  | nil =>
    rw [placesList] at h
    cases h
  | cons t ts ih =>
    rw [placesList, mem_append] at h
    obtain h | h := h
    · exact ⟨t, mem_cons_self, p, h⟩
    · obtain ⟨u, hu, q, hq⟩ := ih h
      exact ⟨u, mem_cons_of_mem t hu, q, hq⟩

lemma Made.places (h : Made n m t) {p : Position} {x : NodeId × Position}
    (hx : x ∈ t.places p) : n ≤ x.1 ∧ x.1 < m := by
  have hnode {id : NodeId} {cs : List Tree} {p : Position} (hid : n ≤ id ∧ id < m)
      (ih : ∀ c ∈ cs, ∀ {p : Position}, x ∈ c.places p → n ≤ x.1 ∧ x.1 < m)
      (hx : x ∈ (id, p) :: placesList p cs) : n ≤ x.1 ∧ x.1 < m := by
    obtain rfl | hx := mem_cons.mp hx
    · exact hid
    · obtain ⟨c, hc, q, hq⟩ := exists_of_mem_placesList hx
      exact ih c hc hq
  induction h generalizing p with
  | atom h =>
    rw [Tree.places, mem_singleton] at hx
    subst hx
    exact h
  | statement h _ ih | code h _ ih | array h _ ih =>
    rw [Tree.places] at hx
    exact hnode h ih hx

variable {R : NodeId → NodeId → Prop} {A B : NodeId → Prop}

mutual

/-- Nodes that are alike are so by the identities that have places. -/
theorem Alike.placed :
    ∀ {t u : Tree} {p q : Position}, Alike R t u → Made n m t → (∀ x ∈ t.places p, A x.1) →
      (∀ x ∈ u.places q, B x.1) → Alike (fun i j => R i j ∧ A i ∧ B j) t u
  | _, _, _, _, .atom h ha, _, ht, hu => by
    rw [places, forall_mem_singleton] at ht hu
    exact .atom ⟨h, ht, hu⟩ ha
  | _, _, _, _, .statement h hcs, .statement _ hmade, ht, hu => by
    rw [places, forall_mem_cons] at ht hu
    exact .statement ⟨h, ht.1, hu.1⟩ (AlikeList.placed hcs hmade ht.2 hu.2)
  | _, _, _, _, .code h hcs, .code _ hmade, ht, hu => by
    rw [places, forall_mem_cons] at ht hu
    exact .code ⟨h, ht.1, hu.1⟩ (AlikeList.placed hcs hmade ht.2 hu.2)
  | _, _, _, _, .array h hcs, .array _ hmade, ht, hu => by
    rw [places, forall_mem_cons] at ht hu
    exact .array ⟨h, ht.1, hu.1⟩ (AlikeList.placed hcs hmade ht.2 hu.2)

theorem AlikeList.placed :
    ∀ {ts us : List Tree} {p q : Position}, AlikeList R ts us → MadeList n m ts →
      (∀ x ∈ placesList p ts, A x.1) → (∀ x ∈ placesList q us, B x.1) →
      AlikeList (fun i j => R i j ∧ A i ∧ B j) ts us
  | _, _, _, _, .nil, _, _, _ => .nil
  | _, _, _, _, .cons h hs, hmade, ht, hu => by
    rw [placesList, forall_mem_append] at ht hu
    exact .cons (h.placed (hmade _ mem_cons_self) ht.1 hu.1)
      (AlikeList.placed hs (fun t ht => hmade t (mem_cons_of_mem _ ht)) ht.2 hu.2)

end

end Tree

/-! ### Endings -/

namespace Build

variable {σ σ' : BuildState}

lemma isEnded_setEnding {id : NodeId} {b : Bool} {old : Option Ending} {cs : List Tree}
    {ending : Ending} {t : Tree}
    (h : setEnding (.statement id b old cs) (some ending) σ = .ok t σ') : Run.isEnded t = true := by
  obtain ⟨u, σ1, -, h⟩ := bind_eq_ok.mp h
  cases h
  rfl

lemma isEnded_arrange {row : List Tree} {ending : Ending} {t : Tree}
    (hrow : endingOf? row = some ending) (h : arrange row σ = .ok t σ') : Run.isEnded t = true := by
  unfold arrange at h
  rw [hrow] at h
  obtain ⟨e, σ1, -, h⟩ := bind_eq_ok.mp h
  obtain ⟨u, σ2, -, h⟩ := bind_eq_ok.mp h
  split at h
  · exact isEnded_setEnding h
  · obtain ⟨v, σ3, hv, h⟩ := bind_eq_ok.mp h
    cases hv
    exact isEnded_setEnding h

end Build

namespace Item

open Build

variable {σ σ' : BuildState}

/-- Inside a script statements are ended by marks. -/
lemma exists_mark_of_isEnd {stop : Stop} {i : Item} {t : Tree} (h : i.build stop σ = .ok t σ')
    (hi : ∀ t ∈ i.flat, t.kind ≠ .fileEnd) (hend : stop.isEnd t = true) :
    ∃ id text, t = .atom id (.mark text) ∧ (text = ";" ∨ text = ",") := by
  cases i with
  | token u =>
    rw [build_token] at h
    cases h
    have hkind := hi t (by simp)
    cases t with
    | atom id a =>
      cases a with
      | mark text =>
        refine ⟨id, text, rfl, ?_⟩
        simp only [Stop.isEnd, Bool.or_eq_true, Bool.and_eq_true, beq_iff_eq] at hend
        exact hend.imp_right (·.2)
      | fileEnd => exact absurd rfl hkind
      | _ => cases hend
    | _ => cases hend
  | group o c inner =>
    rw [build] at h
    obtain ⟨left, σ1, -, hclose⟩ := bind_eq_ok.mp h
    rw [isEnd_of_atom? stop (closeBlock_whole hclose).1] at hend
    cases hend

lemma isEnded_buildList {stop : Stop} {content : List Item} {row statements : List Tree}
    {left : List Tree × List Tree} (h : buildList stop content row statements σ = .ok left σ')
    (htokens : ∀ t ∈ flatList content, t.kind ≠ .fileEnd)
    (hs : ∀ t ∈ statements, Run.isEnded t = true) : ∀ t ∈ left.2, Run.isEnded t = true := by
  induction content generalizing row statements σ with
  | nil =>
    rw [buildList_nil] at h
    cases h
    exact hs
  | cons i is ih =>
    rw [buildList_cons] at h
    rw [flatList_cons, forall_mem_append] at htokens
    obtain ⟨t, σ1, hbuild, h⟩ := bind_eq_ok.mp h
    split at h
    · rename_i hend
      obtain ⟨ss, σ2, hclose, h⟩ := bind_eq_ok.mp h
      refine ih h htokens.2 ?_
      obtain ⟨id, text, rfl, htext⟩ := exists_mark_of_isEnd hbuild htokens.1 hend
      have hrow : rowWith row (.atom id (.mark text)) = row ++ [.atom id (.mark text)] := rfl
      have hending : ∃ ending, endingOf? (row ++ [.atom id (.mark text)]) = some ending := by
        rw [endingOf?_concat]
        obtain rfl | rfl := htext
        · exact ⟨_, rfl⟩
        · exact ⟨_, rfl⟩
      obtain ⟨ending, hending⟩ := hending
      rw [hrow, closeRow, if_neg (by simp)] at hclose
      obtain ⟨u, σ3, harrange, hclose⟩ := bind_eq_ok.mp hclose
      cases hclose
      rw [forall_mem_append, forall_mem_singleton]
      exact ⟨hs, isEnded_arrange hending harrange⟩
    · exact ih h htokens.2 hs

end Item

end ArmaScript
