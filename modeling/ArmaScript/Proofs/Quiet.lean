import ArmaScript.Proofs.Accepting
import ArmaScript.Proofs.Lexing
import ArmaScript.Proofs.Tokens

/-!
# Quiet scripts

Three words of the language send a public variable. A script in which none of them stands is read
into nodes in which none of them stands, also where a definition is used or a conditional resolved:
what is read again was written somewhere, or is a bracket, a comma or an ending. Identities are only
ever added.
-/

namespace ArmaScript

open List

/-- Whether an atom is a word that sends a public variable. -/
def Atom.isPublic (a : Atom) : Bool :=
  a.isKeyword "publicVariable" || a.isKeyword "publicVariableServer" ||
    a.isKeyword "publicVariableClient"

namespace Atom

/-- A word that sends a public variable is one of three, in any case. -/
lemma lower_text_of_isPublic {a : Atom} (h : a.isPublic = true) :
    a.isNumber = false ∧ Text.lower a.text ∈
      ["publicVariable", "publicVariableServer", "publicVariableClient"].map Text.lower := by
  cases a with
  | keyword word => simpa [isPublic, isKeyword, same, isNumber, text, or_assoc] using h
  | _ => cases h

/-- A script sends no public variable if none of its pieces is one of the three words. -/
lemma quiet_of_group {script : String} {pieces : List Lexeme.Piece}
    (hgroup : Lexeme.group (Lexeme.split script) = .ok pieces)
    (h : ∀ p ∈ pieces, Text.lower p.text ∉
      ["publicVariable", "publicVariableServer", "publicVariableClient"].map Text.lower) :
    ∀ tokens, lex script = .ok tokens → ∀ a ∈ tokens, a.isPublic = false := by
  intro tokens hlex a ha
  obtain ⟨pieces', hpieces, htokens⟩ := except_bind_eq_ok.mp hlex
  cases hgroup.symm.trans hpieces
  cases htokens
  obtain ⟨p, hp, rfl⟩ := mem_map.mp ha
  rw [← Bool.not_eq_true]
  intro hpublic
  obtain ⟨hnumber, hword⟩ := lower_text_of_isPublic hpublic
  rw [text_ofPiece hnumber] at hword
  exact h p hp hword

end Atom

/-- Nodes in which no word sends a public variable, unless such words are allowed. -/
inductive Tree.Quiet (loud : Prop) : Tree → Prop
  | atom {id : NodeId} {a : Atom} (h : loud ∨ a.isPublic = false) : Quiet loud (.atom id a)
  | statement {id : NodeId} {b : Bool} {e : Option Ending} {cs : List Tree}
      (hcs : ∀ c ∈ cs, Quiet loud c) : Quiet loud (.statement id b e cs)
  | code {id : NodeId} {cs : List Tree} (hcs : ∀ c ∈ cs, Quiet loud c) : Quiet loud (.code id cs)
  | array {id : NodeId} {cs : List Tree} (hcs : ∀ c ∈ cs, Quiet loud c) : Quiet loud (.array id cs)
  | define {id : NodeId} {name : String} {ps : List String} {body cs : List Tree}
      (hbody : ∀ c ∈ body, Quiet loud c) (hcs : ∀ c ∈ cs, Quiet loud c) :
      Quiet loud (.define id name ps body cs)
  | conditional {id : NodeId} {cs : List Tree} (hcs : ∀ c ∈ cs, Quiet loud c) :
      Quiet loud (.conditional id cs)
  | expansion {id : NodeId} {d r : Tree} {cs : List Tree} (hd : Quiet loud d) (hr : Quiet loud r)
      (hcs : ∀ c ∈ cs, Quiet loud c) : Quiet loud (.expansion id d r cs)
  | resolution {id : NodeId} {r cs : List Tree} (hr : ∀ c ∈ r, Quiet loud c)
      (hcs : ∀ c ∈ cs, Quiet loud c) : Quiet loud (.resolution id r cs)

/-- Several such nodes. -/
abbrev Tree.QuietList (loud : Prop) (ts : List Tree) : Prop :=
  ∀ t ∈ ts, t.Quiet loud

namespace Tree

variable {loud : Prop} {t : Tree} {ts us : List Tree}

lemma QuietList.nil : QuietList loud [] := nofun

lemma QuietList.cons (ht : t.Quiet loud) (hts : QuietList loud ts) : QuietList loud (t :: ts) :=
  forall_mem_cons.mpr ⟨ht, hts⟩

lemma QuietList.append (hts : QuietList loud ts) (hus : QuietList loud us) :
    QuietList loud (ts ++ us) :=
  forall_mem_append.mpr ⟨hts, hus⟩

lemma QuietList.dropLast (hts : QuietList loud ts) : QuietList loud ts.dropLast :=
  fun t ht => hts t ((dropLast_sublist ts).subset ht)

lemma QuietList.drop (hts : QuietList loud ts) (n : Nat) : QuietList loud (ts.drop n) :=
  fun t ht => hts t (mem_of_mem_drop ht)

lemma QuietList.take (hts : QuietList loud ts) (n : Nat) : QuietList loud (ts.take n) :=
  fun t ht => hts t (mem_of_mem_take ht)

lemma QuietList.slice (hts : QuietList loud ts) (i j : Int) : QuietList loud (slice ts i j) :=
  (hts.drop _).take _

lemma Quiet.children (h : t.Quiet loud) : QuietList loud t.children := by
  cases h with
  | atom h => exact .nil
  | statement hcs | code hcs | array hcs | define _ hcs | conditional hcs | expansion _ _ hcs
  | resolution _ hcs => exact hcs

lemma Quiet.content (h : t.Quiet loud) : QuietList loud t.content := by
  cases h with
  | @statement id b e cs hcs =>
    have hbody : QuietList loud (if e.isSome then cs.dropLast else cs) := by
      split
      · exact QuietList.dropLast hcs
      · exact hcs
    rw [content]
    split
    · exact QuietList.dropLast fun t ht => hbody t (mem_of_mem_tail ht)
    · exact hbody
  | atom h => exact .nil
  | code hcs | array hcs | define _ hcs | conditional hcs | expansion _ _ hcs
  | resolution _ hcs => exact hcs

lemma exists_of_mem_tokensList {u : Tree} (h : u ∈ tokensList ts) : ∃ t ∈ ts, u ∈ t.tokens := by
  induction ts with
  | nil =>
    rw [tokensList] at h
    cases h
  | cons t ts ih =>
    rw [tokensList, mem_append] at h
    obtain h | h := h
    · exact ⟨t, mem_cons_self, h⟩
    · obtain ⟨v, hv, hu⟩ := ih h
      exact ⟨v, mem_cons_of_mem t hv, hu⟩

lemma Quiet.tokens (h : t.Quiet loud) : QuietList loud t.tokens := by
  have hlist {cs : List Tree} (ih : ∀ c ∈ cs, QuietList loud c.tokens) :
      QuietList loud (tokensList cs) := by
    intro u hu
    obtain ⟨c, hc, hu⟩ := exists_of_mem_tokensList hu
    exact ih c hc u hu
  induction h with
  | atom h =>
    rw [Tree.tokens]
    exact .cons (.atom h) .nil
  | statement _ ih | code _ ih | array _ ih | define _ _ _ ih | conditional _ ih
  | expansion _ _ _ _ _ ih | resolution _ _ _ ih =>
    rw [Tree.tokens]
    exact hlist ih

lemma QuietList.tokensList (hts : QuietList loud ts) : QuietList loud (tokensList ts) := by
  intro u hu
  obtain ⟨t, ht, hu⟩ := exists_of_mem_tokensList hu
  exact (hts t ht).tokens u hu

end Tree

/-- A state of reading in which all definitions are quiet and identities start at `n`. -/
structure BuildState.Quiet (loud : Prop) (n : Nat) (σ : BuildState) : Prop where
  le : n ≤ σ.nextId
  definitions : ∀ x ∈ σ.definitions, ∀ d ∈ x.2, d.2.Quiet loud

namespace Build

open Tree

variable {α : Type} {loud : Prop} {n : Nat} {t : Tree} {ts : List Tree}

/-- Reading that keeps definitions quiet and takes no identity back, if it ends well. -/
abbrev Quietly (loud : Prop) (n : Nat) (x : Build α) (post : α → Prop) : Prop :=
  Ensures (BuildState.Quiet loud n) (fun _ _ => True) x post

variable {post : α → Prop} {i : Int}

lemma Quietly.throw (e : Fault) : Quietly loud n (throw e) post :=
  fun _ _ => trivial

lemma mem_of_at? {row : Array Tree} (h : at? row i = some t) : t ∈ row.toList := by
  obtain ⟨k, -, hk⟩ := Option.bind_eq_some_iff.mp h
  exact Array.mem_toList_iff.mpr (Array.mem_of_getElem? hk)

lemma quietly_lift {x : Except Fault α} (h : ∀ a, x = .ok a → post a) :
    Quietly loud n (lift x) post := by
  cases x with
  | ok a => exact .pure (h a rfl)
  | error e => exact Quietly.throw e

lemma closed_quiet : Closed 0 fun _ t => t.Quiet loud where
  mono _ h := h
  mark _ _ := .atom (.inr rfl)
  statement _ h := .statement h
  code _ h := .code h
  array _ h := .array h
  children h := h.children
  ended _ h := .statement h

lemma quietly_of_makes {x : Build α} (h : ∀ k, Makes k x fun _ => post) :
    Quietly loud n x post := by
  intro σ hσ
  cases hx : x σ with
  | ok a σ' =>
    obtain ⟨hle, hdefinitions, ha⟩ := h σ.nextId rfl hx
    exact ⟨⟨Nat.le_trans hσ.le hle, hdefinitions ▸ hσ.definitions⟩, ha⟩
  | error e σ' => trivial

lemma quietly_fresh : Quietly loud n fresh fun _ => True :=
  quietly_of_makes fun _ => makes_fresh.bind fun _ _ _ _ => .pure trivial

lemma quietly_statement (hts : QuietList loud ts) : Quietly loud n (statement ts) (Quiet loud) :=
  quietly_of_makes fun k => closed_quiet.makes_statement k.zero_le hts

lemma quietly_setEnding (ht : t.Quiet loud) (ending : Option Ending) :
    Quietly loud n (setEnding t ending) (Quiet loud) :=
  quietly_of_makes fun k => closed_quiet.makes_setEnding k.zero_le ht ending

lemma quietly_bracketed (hts : QuietList loud ts) : Quietly loud n (bracketed ts) (Quiet loud) :=
  quietly_of_makes fun k => closed_quiet.makes_bracketed k.zero_le hts

lemma quietly_arrange (hts : QuietList loud ts) : Quietly loud n (arrange ts) (Quiet loud) :=
  quietly_of_makes fun k => closed_quiet.makes_arrange k.zero_le hts

lemma quietly_elements (hts : QuietList loud ts) (stop : Position) :
    Quietly loud n (do array (← arrayElements ts stop)) (Quiet loud) :=
  quietly_of_makes fun k => (closed_quiet.makes_arrayElements k.zero_le hts stop).bind
    fun k' _ _ hus => closed_quiet.makes_array k'.zero_le hus

variable {arguments : List Tree}

/-! ### Definitions -/

lemma quietly_define (hts : QuietList loud ts) : Quietly loud n (define ts) (Quiet loud) := by
  unfold define
  dsimp only
  split
  · split
    · refine quietly_fresh.bind fun id _ => quietly_fresh.bind fun _ _ => .pure ?_
      exact .define (QuietList.cons (.atom (.inr rfl)) .nil) hts
    · split
      · split
        · exact Quietly.throw _
        · exact quietly_fresh.bind fun _ _ => .pure (.define (hts.drop _) hts)
      · exact quietly_fresh.bind fun _ _ => .pure (.define (hts.drop _) hts)
  · exact Quietly.throw _

lemma mem_of_matchArities {row : Array Tree} {tried : List Int} {definitions : Table Nat Tree}
    {use : Tree × List Int} (h : matchArities row i tried definitions = some use) :
    ∃ k, (k, use.1) ∈ definitions := by
  induction definitions generalizing tried with
  | nil => cases h
  | cons x rest ih =>
    have hrest {tried : List Int} (h : matchArities row i tried rest = some use) :
        ∃ k, (k, use.1) ∈ x :: rest := by
      obtain ⟨k, hk⟩ := ih h
      exact ⟨k, mem_cons_of_mem x hk⟩
    obtain ⟨arity, d⟩ := x
    cases arity with
    | zero => exact hrest h
    | succ arity =>
      rw [matchArities] at h
      · dsimp only at h
        split at h
        · cases h
          exact ⟨arity + 1, mem_cons_self⟩
        · exact hrest h
      · exact Nat.succ_ne_zero arity

lemma mem_of_findUse {row : Array Tree} {definitions : Table Nat Tree} {use : Tree × List Int}
    (h : findUse row i definitions = some use) : ∃ k, (k, use.1) ∈ definitions := by
  unfold findUse at h
  split at h
  · exact mem_of_matchArities h
  · obtain ⟨d, hd, rfl⟩ := Option.map_eq_some_iff.mp h
    exact Table.mem_of_get? hd

lemma mem_of_argumentOf? {text : String} {parameters : List String}
    (h : argumentOf? text parameters arguments = some t) : t ∈ arguments := by
  obtain ⟨x, hx, rfl⟩ := Option.map_eq_some_iff.mp h
  exact (of_mem_zip (mem_of_find?_eq_some hx)).2

lemma quiet_argumentOf? {text : String} {parameters : List String}
    (harguments : QuietList loud arguments) (ht : t.Quiet loud) :
    ((argumentOf? text parameters arguments).getD t).Quiet loud := by
  cases hargument : argumentOf? text parameters arguments with
  | none => exact ht
  | some u => exact harguments u (mem_of_argumentOf? hargument)

mutual

theorem quietly_substitute (parameters : List String) (harguments : QuietList loud arguments) :
    ∀ t : Tree, t.Quiet loud → Quietly loud n (substitute parameters arguments t) (Quiet loud)
  | .statement i b ending cs, .statement hcs => by
    rw [substitute]
    refine (quietly_substituteList parameters harguments cs hcs).bind fun ds hds => ?_
    have hcontent : QuietList loud (Tree.statement i b ending ds).content :=
      (Quiet.statement hds).content
    dsimp only
    split
    · exact (quietly_bracketed hcontent).bind fun t ht => quietly_setEnding ht _
    · exact (quietly_statement hcontent).bind fun t ht => quietly_setEnding ht _
  | .atom .., h | .code .., h | .array .., h | .define .., h | .conditional .., h | .expansion .., h
  | .resolution .., h => by
    rw [substitute.eq_def]
    exact .pure (quiet_argumentOf? harguments h)

theorem quietly_substituteList (parameters : List String) (harguments : QuietList loud arguments) :
    ∀ ts : List Tree, QuietList loud ts →
      Quietly loud n (substituteList parameters arguments ts) (QuietList loud)
  | [], _ => by
    rw [substituteList]
    exact .pure .nil
  | t :: ts, h => by
    rw [substituteList]
    obtain ⟨ht, hts⟩ := forall_mem_cons.mp h
    refine (quietly_substitute parameters harguments t ht).bind fun u hu => ?_
    refine (quietly_substituteList parameters harguments ts hts).bind fun us hus => ?_
    exact .pure (.cons hu hus)

end

/-! ### Conditionals -/

lemma quietly_conditionalNode {row : Array Tree} (hrow : QuietList loud row.toList) (start : Int)
    {taken : List Tree} (htaken : QuietList loud taken) :
    Quietly loud n (conditionalNode row start taken) (Quiet loud) := by
  unfold conditionalNode
  split
  · rename_i directive hdirective
    refine quietly_fresh.bind fun _ _ => .pure (.conditional ?_)
    exact QuietList.cons (hrow _ (mem_of_at? hdirective)) htaken
  · exact Quietly.throw _

lemma quietList_push {row : Array Tree} (hrow : QuietList loud row.toList) (ht : t.Quiet loud) :
    QuietList loud (row.push t).toList := by
  rw [Array.toList_push]
  exact QuietList.append hrow (.cons ht .nil)

lemma taken_noteOpening (c : Conditional) (t : Tree) : (c.noteOpening t).taken = c.taken := by
  unfold Conditional.noteOpening
  split <;> rfl

lemma taken_noteClosing (c : Conditional) (t : Tree) : (c.noteClosing t).taken = c.taken := by
  unfold Conditional.noteClosing
  split <;> rfl

lemma quietly_conditionalFrom {row : Array Tree} (hrow : QuietList loud row.toList)
    {inner : Int → Levels → Build (Tree × Int)}
    (hinner : ∀ i levels, Quietly loud n (inner i levels) fun r => r.1.Quiet loud) (start : Int)
    (stop : Stop) (fuel : Nat) {c : Conditional} (hc : QuietList loud c.taken.toList) :
    Quietly loud n (conditionalFrom inner row start stop fuel c) fun r => r.1.Quiet loud := by
  induction fuel generalizing c with
  | zero => exact Quietly.throw _
  | succ fuel ih =>
    unfold conditionalFrom
    refine .ite (fun _ => ?_) fun _ => ?_
    · refine .ite (fun _ => ?_) fun _ => Quietly.throw _
      exact (quietly_conditionalNode hrow start hc).bind fun _ ht => .pure ht
    · split
      · exact Quietly.throw _
      · rename_i t ht
        have ht := hrow t (mem_of_at? ht)
        have hopened : QuietList loud (c.noteOpening t).taken.toList := by rwa [taken_noteOpening]
        refine .ite (fun _ => ?_) fun _ => .ite (fun _ => ?_) fun _ => ?_
        · exact (hinner _ _).bind fun r hr => ih (quietList_push hopened hr)
        · refine (quietly_conditionalNode hrow start ?_).bind fun _ ht => .pure ht
          split
          · exact hopened
          · exact quietList_push hopened ht
        · refine ih ?_
          dsimp only
          rw [taken_noteClosing]
          exact quietList_push hopened ht

lemma quietly_conditional {row : Array Tree} (hrow : QuietList loud row.toList) (stop : Stop)
    (depth : Nat) (start : Int) (levels : Levels) :
    Quietly loud n (conditional row stop depth start levels) fun r => r.1.Quiet loud := by
  induction depth generalizing start levels with
  | zero => exact Quietly.throw _
  | succ depth ih => exact quietly_conditionalFrom hrow ih start stop _ .nil

lemma quietList_between (hts : QuietList loud ts) (i j : Nat) : QuietList loud (between ts i j) :=
  (hts.drop i).take (j - i)

lemma quietList_branch (hts : QuietList loud ts) (positive defined : Bool) (line : Nat)
    (elseAt : Option Nat) (endif : Nat) :
    QuietList loud (branch ts positive defined line elseAt endif) := by
  unfold branch
  dsimp only
  split
  · exact quietList_between hts _ _
  · split
    · exact quietList_between hts _ _
    · exact .nil

/-- A conditional stands for some of its own nodes. -/
lemma quietList_resolve (hts : QuietList loud ts) {definitions : Definitions} {before : Position}
    {r : List Tree × List Tree} (h : resolve ts definitions before = .ok r) :
    QuietList loud r.1 ∧ QuietList loud r.2 := by
  unfold resolve at h
  dsimp only at h
  split at h
  · split at h
    · split at h
      · split at h
        · cases h
          exact ⟨.append (quietList_branch hts _ _ _ _ _) (hts.drop _), hts⟩
        · split at h
          · rename_i i _ id cs hcs
            cases h
            have hcs : Quiet loud (.conditional id cs) := hts _ (mem_of_getElem? hcs)
            have hnext (k : Nat) : Quiet loud (.conditional id (cs ++ ts.drop k)) :=
              .conditional (QuietList.append hcs.children (hts.drop k))
            have hset {k j : Nat} :
                QuietList loud (ts.set j (.conditional id (cs ++ ts.drop k))) := by
              intro t ht
              obtain ht | rfl := mem_or_eq_of_mem_set ht
              · exact hts t ht
              · exact hnext k
            exact ⟨.append (quietList_branch hset _ _ _ _ _) (.cons (hnext _) .nil),
              .append (hts.take _) (.cons (hnext _) .nil)⟩
          · cases h
            exact ⟨quietList_branch hts _ _ _ _ _, hts⟩
      · cases h
    · cases h
  · cases h

/-! ### Blocks -/

structure Block.Quiet (loud : Prop) (b : Block) : Prop where
  row : QuietList loud b.row.toList
  statements : QuietList loud b.statements.toList

def Step.Quiet (loud : Prop) : Step → Prop
  | .more b => b.Quiet loud
  | .done node _ => node.Quiet loud

/-- A reader that gives quiet nodes for quiet tokens. -/
def Reader.Quiet (loud : Prop) (n : Nat) (read : Reader) : Prop :=
  ∀ ⦃row⦄, QuietList loud row.toList → ∀ start levels stop,
    Quietly loud n (read row start levels stop) fun r => r.1.Quiet loud

variable {read : Reader} {row : Array Tree} {b : Block}

lemma quietly_close (hb : b.Quiet loud) :
    Quietly loud n b.close fun ts => QuietList loud ts.toList := by
  refine .ite (fun _ => .pure hb.statements) fun _ => ?_
  exact (quietly_arrange hb.row).bind fun t ht => .pure (quietList_push hb.statements ht)

lemma quietly_stepConditional (hread : read.Quiet loud n) (hrow : QuietList loud row.toList)
    (stop : Stop) (hb : b.Quiet loud) :
    Quietly loud n (stepConditional read row stop b) (Step.Quiet loud) := by
  refine (quietly_conditional hrow _ _ _ _).bind fun node hnode => Ensures.get.bind fun σ _ => ?_
  refine (quietly_lift fun r hr => quietList_resolve hnode.children hr).bind fun r hr => ?_
  have htokens : QuietList loud (Tree.tokensList (b.row.toList ++ r.1)).toArray.toList :=
    QuietList.tokensList (.append hb.row hr.1)
  refine (hread htokens _ _ _).bind fun result hresult => quietly_fresh.bind fun _ _ => .pure ?_
  refine ⟨.nil, quietList_push hb.statements (.resolution hresult.children ?_)⟩
  exact QuietList.append hb.row hr.2

lemma quietly_firstStatement (ht : t.Quiet loud) :
    Quietly loud n (firstStatement t) (Quiet loud) := by
  unfold firstStatement
  split
  · split
    · exact .pure (ht.content _ (mem_of_mem_head? ‹_›))
    · exact Quietly.throw _
  · exact .pure ht

lemma quietly_stepUse (hread : read.Quiet loud n) (hrow : QuietList loud row.toList) (stop : Stop)
    (hb : b.Quiet loud) {definition : Tree} (hdefinition : definition.Quiet loud)
    (arguments : List Int) :
    Quietly loud n (stepUse read row stop b definition arguments) (Step.Quiet loud) := by
  have harguments : QuietList loud (arguments.filterMap (at? row)) := by
    intro t ht
    obtain ⟨i, -, hi⟩ := mem_filterMap.mp ht
    exact hrow t (mem_of_at? hi)
  unfold stepUse
  dsimp only
  refine (quietly_substituteList _ harguments _ ?_).bind fun replacing hreplacing => ?_
  · split
    · cases hdefinition with
      | define hbody _ => exact hbody
    · exact .nil
  refine (hread ?_ _ _ _).bind fun r hr => (quietly_firstStatement hr).bind fun result hresult => ?_
  · exact .append (.append (.append (hrow.slice _ _) hb.row) hreplacing) (hrow.slice _ _)
  · split
    · refine quietly_fresh.bind fun _ _ => .pure ⟨.nil, quietList_push hb.statements ?_⟩
      refine .expansion hdefinition hresult ?_
      split
      · exact (hrow.slice _ _).dropLast
      · exact hrow.slice _ _
    · exact Quietly.throw _

lemma quietly_stepOpening (hread : read.Quiet loud n) (hrow : QuietList loud row.toList)
    (hb : b.Quiet loud) (inner : Levels) (stop : Stop) :
    Quietly loud n (stepOpening read row b inner stop) (Step.Quiet loud) :=
  (hread hrow _ _ _).bind fun _ hr => .pure ⟨quietList_push hb.row hr, hb.statements⟩

lemma quietly_closeArray (row : Array Tree) (hb : b.Quiet loud) :
    Quietly loud n (closeArray row b) (Quiet loud) := by
  have hstatements := hb.statements
  unfold closeArray
  dsimp only
  split
  · exact quietly_elements hb.row _
  · rename_i id definition result written rest hlist
    rw [hlist] at hstatements
    cases hstatements _ mem_cons_self with
    | expansion hd hr hwritten =>
      rw [← bind_assoc]
      refine (quietly_elements hwritten _).bind fun u hu => ?_
      exact .pure (.expansion hd hr (QuietList.cons hu .nil))
  · exact Quietly.throw _

lemma quiet_add {σ : BuildState} (hσ : σ.Quiet loud n) (name : String) (arity : Nat)
    (ht : t.Quiet loud) :
    BuildState.Quiet loud n { σ with definitions := σ.definitions.add name arity t } := by
  have hnamed : ∀ d ∈ σ.definitions.named name, d.2.Quiet loud := by
    intro d hd
    unfold Definitions.named at hd
    cases hget : σ.definitions.get? name with
    | none =>
      rw [hget] at hd
      cases hd
    | some ds =>
      rw [hget] at hd
      obtain ⟨k, hk⟩ := Table.mem_of_get? hget
      exact hσ.definitions _ hk d hd
  refine ⟨hσ.le, fun x hx d hd => ?_⟩
  obtain hx | hx := Table.value_of_mem_put hx
  · rw [hx] at hd
    obtain hd | hd := Table.value_of_mem_put hd
    · rwa [hd]
    · exact hnamed d hd
  · exact hσ.definitions x hx d hd

lemma quietly_closeDirective (hrow : QuietList loud row.toList) (start : Int)
    (hb : b.Quiet loud) : Quietly loud n (closeDirective row start b) (Quiet loud) := by
  unfold closeDirective
  split
  · rename_i directive hdirective
    have htokens : QuietList loud (directive :: b.row.toList) :=
      .cons (hrow _ (mem_of_at? hdirective)) hb.row
    refine .ite (fun _ => ?_) fun _ => ?_
    · refine (quietly_define htokens).bind fun node hnode => ?_
      have hclose := quietly_statement (n := n) (quietList_push hb.statements hnode)
      split
      · exact (Ensures.modify fun σ hσ => quiet_add hσ _ _ hnode).bind fun _ _ => hclose
      · exact hclose
    · refine (quietly_arrange htokens).bind fun t ht => ?_
      exact quietly_statement (quietList_push hb.statements ht)
  · exact Quietly.throw _

lemma quietly_stepToken (hread : read.Quiet loud n) (hrow : QuietList loud row.toList)
    (start : Int) (stop : Stop) (hb : b.Quiet loud) (ht : t.Quiet loud) :
    Quietly loud n (stepToken read row start stop b t) (Step.Quiet loud) := by
  unfold stepToken
  dsimp only
  refine .ite (fun _ => quietly_stepOpening hread hrow hb _ _) fun _ => ?_
  refine .ite (fun _ => quietly_stepOpening hread hrow hb _ _) fun _ => ?_
  refine .ite (fun _ => quietly_stepOpening hread hrow hb _ _) fun _ => ?_
  refine .ite (fun _ => .guard (Quietly.throw _) fun _ => ?_) fun _ => ?_
  · exact (quietly_closeArray row hb).bind fun _ hu => .pure hu
  refine .ite (fun _ => .guard (Quietly.throw _) fun _ => ?_) fun _ => ?_
  · exact (quietly_close hb).bind fun _ hts => (quietly_bracketed hts).bind fun _ hu => .pure hu
  refine .ite (fun _ => .guard (Quietly.throw _) fun _ => ?_) fun _ => ?_
  · refine (quietly_close hb).bind fun _ hts => .bind (quietly_of_makes fun k =>
      closed_quiet.makes_code k.zero_le hts) fun _ hu => .pure hu
  have hpushed : Block.Quiet loud { b with row := b.row.push t } :=
    ⟨quietList_push hb.row ht, hb.statements⟩
  refine .ite (fun _ => ?_) fun _ => .ite (fun _ => ?_) fun _ => .ite (fun _ => ?_) fun _ => ?_
  · refine (quietly_close ?_).bind fun _ hts => .pure ⟨.nil, hts⟩
    split
    · exact hb
    · exact hpushed
  · refine (quietly_close hb).bind fun _ hts => (hread hrow _ _ _).bind fun _ hr => .pure ?_
    exact ⟨.nil, quietList_push hts hr⟩
  · exact (quietly_closeDirective hrow start hb).bind fun _ hu => .pure hu
  · refine .pure ⟨?_, hb.statements⟩
    dsimp only
    split
    · exact hb.row
    · exact hpushed.row

lemma quietly_step (hread : read.Quiet loud n) (hrow : QuietList loud row.toList) (start : Int)
    (stop : Stop) (hb : b.Quiet loud) (ht : t.Quiet loud) :
    Quietly loud n (step read row start stop b t) (Step.Quiet loud) := by
  refine .ite (fun _ => quietly_stepConditional hread hrow stop hb) fun _ => ?_
  refine Ensures.get.bind fun σ hσ => ?_
  dsimp only
  split
  · rename_i definition arguments huse
    obtain ⟨ds, hds, huse⟩ := Option.bind_eq_some_iff.mp huse
    obtain ⟨name, hname⟩ := Table.mem_of_get? hds
    obtain ⟨arity, harity⟩ := mem_of_findUse huse
    exact quietly_stepUse hread hrow stop hb (hσ.definitions _ hname _ harity) arguments
  · exact quietly_stepToken hread hrow start stop hb ht

lemma quietly_blockFrom (hread : read.Quiet loud n) (hrow : QuietList loud row.toList)
    (start : Int) (stop : Stop) (fuel : Nat) (hb : b.Quiet loud) :
    Quietly loud n (blockFrom read row start stop fuel b) fun r => r.1.Quiet loud := by
  induction fuel generalizing b with
  | zero => exact Quietly.throw _
  | succ fuel ih =>
    unfold blockFrom
    refine .ite (fun _ => ?_) fun _ => ?_
    · split
      · exact Quietly.throw _
      · exact (quietly_close hb).bind fun _ hts => (quietly_statement hts).bind fun _ ht => .pure ht
    · split
      · exact Quietly.throw _
      · rename_i t ht
        refine (quietly_step hread hrow start stop hb (hrow t (mem_of_at? ht))).bind fun s hs => ?_
        cases s with
        | more b => exact ih hs
        | done node size => exact .pure hs

lemma quiet_block (depth : Nat) : Reader.Quiet loud n (block depth) := by
  induction depth with
  | zero => exact fun _ _ _ _ _ => Quietly.throw _
  | succ depth ih =>
    intro row hrow start levels stop
    refine .ite (fun _ => ?_) fun _ => quietly_blockFrom ih hrow start stop _ ⟨.nil, .nil⟩
    exact (quietly_statement .nil).bind fun _ ht => .pure ht

end Build

namespace Script

open Tree

variable {loud : Prop} {n : Nat}

lemma quietList_leaves {tokens : List Atom} (h : ∀ a ∈ tokens, loud ∨ a.isPublic = false) :
    QuietList loud (leaves n tokens) := by
  induction tokens generalizing n with
  | nil => exact .nil
  | cons a as ih =>
    obtain ⟨ha, has⟩ := forall_mem_cons.mp h
    exact .cons (.atom ha) (ih has)

/-- A script without a word that sends a public variable has no node with one, and its identities
start where they are said to. -/
lemma quiet_of_read {text : String} {script : Script} {tokens : List Atom}
    (hlex : Atom.lex text = .ok tokens) (hquiet : ∀ a ∈ tokens, loud ∨ a.isPublic = false)
    (hread : read text n = .ok script) : script.tree.Quiet loud ∧ n ≤ script.nextId := by
  obtain ⟨size, σ, hblock, hnext⟩ := (read_eq_ok hlex).mp hread
  have hrow : QuietList loud (leaves n (tokens ++ [.fileEnd])) :=
    quietList_leaves (forall_mem_append.mpr ⟨hquiet, forall_mem_singleton.mpr (.inr rfl)⟩)
  have hstart : BuildState.Quiet loud n ⟨n + (tokens.length + 1), []⟩ :=
    ⟨Nat.le_add_right _ _, fun _ hx => absurd hx not_mem_nil⟩
  obtain ⟨hσ, htree⟩ := (Build.quiet_block _ hrow _ _ _).of_ok hstart hblock
  exact ⟨htree, hnext ▸ hσ.le⟩

end Script

end ArmaScript
