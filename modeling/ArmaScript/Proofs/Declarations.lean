import ArmaScript.Proofs.Delimiters
import ArmaScript.Proofs.Hygiene

/-!
# Private declarations

The statement `private _x = 1;` is run from the inside out: `private` is given the value of the
variable. If it is a text or an array, it is taken for the names of other variables, and the
assignment has nothing to assign to. Otherwise the variable is put into the top scope with the new
value, and nothing else changes.
-/

namespace ArmaScript

open Formula Build Vocabulary Numeral List

/-! ### Local names -/

variable {name : String}

lemma exists_of_isLocalName (h : isLocalName name = true) : ∃ cs, name.toList = '_' :: cs := by
  rw [isLocalName, String.startsWith_string_iff] at h
  obtain ⟨cs, hcs⟩ := h
  exact ⟨cs, hcs.symm⟩

/-- A local name is none of the words that start otherwise. -/
lemma not_mem_of_isLocalName (h : isLocalName name = true) {words : List String}
    (hwords : (words.all fun s => s.toList.head? != some '_') = true) : name ∉ words := by
  obtain ⟨cs, hcs⟩ := exists_of_isLocalName h
  intro hmem
  simpa [hcs] using all_eq_true.mp hwords name hmem

lemma Numeral.exists_strip {c : Char} (hc : Text.isPlainBlank c = false) (cs : List Char) :
    ∃ ds, strip (c :: cs) = c :: ds := by
  rw [strip, dropWhile_cons_of_neg (by simp [hc])]
  cases h : (c :: cs).rdropWhile Text.isPlainBlank with
  | nil => simp [rdropWhile_eq_nil_iff.mp h c mem_cons_self] at hc
  | cons d ds =>
    have hprefix := rdropWhile_prefix Text.isPlainBlank (c :: cs)
    rw [h] at hprefix
    obtain ⟨rfl, -⟩ := cons_prefix_cons.mp hprefix
    exact ⟨ds, h⟩

lemma Num.ofWord?_of_isLocalName (h : isLocalName name = true) : Num.ofWord? name = none := by
  obtain ⟨cs, hcs⟩ := exists_of_isLocalName h
  have hplain : plainChar '_' = '_' := by decide
  obtain ⟨ds, hds⟩ := @exists_strip '_' (by decide) (cs.map plainChar)
  have hjoin : joinDigits ' ' ('_' :: ds) = none := by
    simp [joinDigits]
  unfold Num.ofWord? whole? double?
  rw [hcs, map_cons, hplain, hds]
  simp [splitSign, hjoin]

namespace Vocabulary

lemma catalogue_underscore :
    (Catalogue.all.all fun s => (Text.bytes s.keyword).head?.all (·.toNat != 95)) = true := by
  decide +kernel

variable {name : String}

lemma word_ne_of_isLocalName (h : isLocalName name = true) {s : Signature}
    (hs : s ∈ Catalogue.all) : s.word ≠ name := by
  rintro rfl
  obtain ⟨cs, hcs⟩ := exists_of_isLocalName h
  rw [Entry.word_eq_keyword hs] at hcs
  obtain ⟨rest, hbytes⟩ := Text.bytes_cons hcs (by decide)
  have hhead := all_eq_true.mp catalogue_underscore s hs
  rw [hbytes] at hhead
  cases hhead

lemma isUnary_of_isLocalName (h : isLocalName name = true) : isUnary name = false := by
  rw [isUnary_eq, Bool.eq_false_iff]
  intro hmem
  obtain ⟨s, hs, hword⟩ := mem_map.mp (contains_iff_mem.mp hmem)
  exact word_ne_of_isLocalName h (mem_all_of_mem_unaries hs) hword

lemma isKeyword_of_isLocalName (h : isLocalName name = true) : isKeyword name = false := by
  rw [isKeyword_eq, Bool.eq_false_iff]
  intro hmem
  obtain ⟨hmem, -⟩ := mem_filter.mp (contains_iff_mem.mp hmem)
  rcases mem_append.mp hmem with hmem | hmem
  · exact not_mem_of_isLocalName h (by decide) hmem
  · obtain ⟨s, hs, hword⟩ := mem_map.mp hmem
    exact word_ne_of_isLocalName h hs hword

lemma exists_private : ∃ s ∈ Catalogue.unaries, s.keyword = "private" := by
  have hany : (Catalogue.unaries.any fun s => s.keyword == "private") = true := by
    decide +kernel
  obtain ⟨s, hs, hkeyword⟩ := any_eq_true.mp hany
  exact ⟨s, hs, beq_iff_eq.mp hkeyword⟩

end Vocabulary

lemma Text.lower_private : lower "private" = "private" := by
  decide +kernel

namespace Atom

lemma ofWord_of_isLocalName (h : isLocalName name = true) : ofWord name = .var name := by
  have hlower := (isLocalName_lower name).trans h
  rw [ofWord_eq_ofName (not_mem_of_isLocalName h (by decide)) (Num.ofWord?_of_isLocalName h), ofName]
  simp [not_mem_of_isLocalName h (show (directives.all _) = true by decide),
    not_mem_of_isLocalName hlower (show (namespaces.all _) = true by decide),
    isKeyword_of_isLocalName hlower]

lemma ofWord_private : ofWord "private" = .keyword "private" := by
  obtain ⟨s, hs, hword⟩ := exists_private
  refine ofWord_of_isKeyword (by decide) (by decide +kernel) Text.lower_private ?_
  have hkeyword := isKeyword_of_mem (mem_all_of_mem_unaries hs)
  rw [hword] at hkeyword
  exact hkeyword (by decide)

lemma ofWord_equals : ofWord "=" = .keyword "=" := by
  refine ofWord_of_isKeyword (by decide) (by decide +kernel) rfl ?_
  rw [isKeyword_eq, contains_iff_mem]
  exact mem_filter.mpr ⟨mem_append_left _ mem_cons_self, by decide⟩

end Atom

/-! ### Reading a declaration -/

namespace Declaration

def text (name : String) (digits : List Char) : String :=
  "private " ++ name ++ " = " ++ String.ofList digits ++ ";"

def tokens (name : String) (n : Nat) : List Atom :=
  [.keyword "private", .space, .var name, .space, .keyword "=", .space, .number (some (.int n)),
    .mark ";"]

variable {name : String}

lemma lex_text (hlocal : isLocalName name = true) (hname : Lexeme.split name = [name])
    {digits : List Char} (hne : digits ≠ []) (hdigits : ∀ c ∈ digits, c.isDigit = true)
    (hlength : digits.length ≤ longestWhole) :
    Atom.lex (text name digits) = .ok (tokens name (ofDigits digits)) := by
  have hlexes := LexesAlone.digits hne hdigits (ofWord?_digits hne hdigits hlength)
  have hblank : Lexeme.Lone ' ' := Lexeme.lone_of_pairs (by decide) (by decide)
  have hsemicolon : Lexeme.Lone ';' := Lexeme.lone_of_pairs (by decide) (by decide)
  have hsplit : Lexeme.split (text name digits) =
      ["private", " ", name, " ", "=", " "] ++ (Lexeme.splitChars [] digits ++ [";"]) := by
    have htext : (text name digits).toList = "private".toList ++ ' ' ::
        (name.toList ++ ' ' :: (['='] ++ ' ' :: (digits ++ [';']))) := by
      simp [text]
    have hword : Lexeme.splitChars [] name.toList = [name] := hname
    rw [Lexeme.split, htext, hblank.splitChars, hblank.splitChars, hblank.splitChars,
      hsemicolon.splitChars, hword]
    rfl
  have hstarters : ∀ s ∈ Lexeme.split (text name digits), s ∉ Lexeme.starters := by
    rw [hsplit]
    simp only [mem_append, mem_cons, not_mem_nil, or_false]
    rintro s ((rfl | rfl | rfl | rfl | rfl | rfl) | hs | rfl)
    all_goals first
      | decide
      | exact hlexes.starters s hs
      | exact not_mem_of_isLocalName hlocal (by decide)
  have htokens : (Lexeme.split (text name digits)).map Atom.ofWord =
      tokens name (ofDigits digits) := by
    rw [hsplit, map_append, map_append, hlexes.tokens]
    simp only [map_cons, map_nil, Atom.ofWord_private, Atom.ofWord_equals,
      Atom.ofWord_of_isLocalName hlocal]
    rfl
  rw [Atom.lex_of_words hstarters, htokens]

section

open Precedence

lemma opening_private (i : NodeId) (s : Ahead Tree) :
    opening items (.atom i (.keyword "private")) s = .ok .one := by
  obtain ⟨signature, hs, hword⟩ := exists_private
  have hunary := isUnary_of_mem hs
  have htext : items.text (.atom i (.keyword "private")) = "private" := rfl
  unfold opening
  simp only [htext, Text.lower_private, hword ▸ hunary, Bool.true_or, if_true]

/-- A local name in front of an equals sign stands alone, also if it is in upper case. -/
lemma opening_name (hlocal : isLocalName name = true) (i j : NodeId) (skipped rest : List Tree) :
    opening items (.atom i (.var name))
      ⟨some (.atom j (.keyword "=")), skipped, rest⟩ = .ok .alone := by
  have htext : items.text (.atom i (.var name)) = name := rfl
  have hequals : items.text (.atom j (.keyword "=")) = "=" := rfl
  have hunary := isUnary_of_isLocalName ((isLocalName_lower name).trans hlocal)
  have hdirectives : name ∉ "#define" :: unaryDirectives :=
    not_mem_of_isLocalName hlocal (by decide)
  unfold opening
  simp only [htext, hunary, hequals]
  split_ifs <;> simp_all

lemma arrange_row {p v q e : Tree} (i j k : NodeId)
    (hlayout : ∀ t ∈ [p, v, q, e], t.isLayout = false) (hp : ∀ s, opening items p s = .ok .one)
    (hv : ∀ skipped rest, opening items v ⟨some q, skipped, rest⟩ = .ok .alone)
    (hq : ∀ skipped rest, Ahead.power items ⟨some q, skipped, rest⟩ = 8)
    (he : ∀ s, opening items e s = .ok .alone) :
    arrange items [p, .atom i .space, v, .atom j .space, q, .atom k .space, e] =
      .ok (.group [.group [.leaf p, .group [.leaf (.atom i .space), .leaf v, .leaf (.atom j .space)]],
        .leaf q, .group [.leaf (.atom k .space), .leaf e]]) := by
  obtain ⟨hlp, hlv, hlq, hle⟩ : p.isLayout = false ∧ v.isLayout = false ∧ q.isLayout = false ∧
      e.isLayout = false := by simpa using hlayout
  have hname : start items 24 v (next [] [.atom j .space, q, .atom k .space, e]) =
      .ok (.leaf v, ⟨some q, [.atom j .space], [.atom k .space, e]⟩) := by
    rw [next_blank, next_item _ _ hlq, start, hv]
    rfl
  have hprivate : start items 26 p
      (next [] [.atom i .space, v, .atom j .space, q, .atom k .space, e]) =
      .ok (.group [.leaf p, .group [.leaf (.atom i .space), .leaf v, .leaf (.atom j .space)]],
        ⟨some q, [], [.atom k .space, e]⟩) := by
    rw [start, hp]
    dsimp only [bind, Except.bind]
    rw [next_blank, operand_item hlv hname, operators]
    dsimp only
    rw [hq, if_neg (by decide)]
    rfl
  have hvalue : operand items 25 8 (next [] [.atom k .space, e]) =
      .ok (.group [.leaf (.atom k .space), .leaf e], ⟨none, [], []⟩) := by
    have hstart : start items 24 e (next [] []) = .ok (.leaf e, ⟨none, [], []⟩) := by
      rw [start, he]
      rfl
    rw [next_blank, operand_item hle hstart]
    rfl
  have hnext : (next [] [.atom k .space, e]).next.isNone = false := by
    rw [next_blank, next_item _ _ hle]
    rfl
  have hequals : Ahead.advance items ⟨some q, [], [.atom k .space, e]⟩ =
      next [] [.atom k .space, e] := rfl
  rw [arrange_of_length_ne_one (by simp)]
  change Prod.fst <$> operand items 27 0 (next [] _) = _
  rw [operand_item hlp hprivate, operators]
  dsimp only
  rw [hq, if_pos (by decide), hequals, hnext, hvalue]
  rfl

end

/-- The variable of a declaration, with the blanks around it. -/
def target (k : NodeId) (name : String) : Tree :=
  .statement (k + 9) false none
    [.atom (k + 1) .space, .atom (k + 2) (.var name), .atom (k + 3) .space]

/-- The declaration without what is assigned. -/
def left (k : NodeId) (name : String) : Tree :=
  .statement (k + 10) false none [.atom k (.keyword "private"), target k name]

/-- What is assigned, with the blank before it. -/
def right (k : NodeId) (n : Nat) : Tree :=
  .statement (k + 11) false none [.atom (k + 5) .space, .atom (k + 6) (.number (some (.int n)))]

/-- The node of a private declaration, of which the first token is `k`. -/
def node (k : NodeId) (name : String) (n : Nat) : Tree :=
  .statement (k + 12) false (some .semicolon) [left k name, .atom (k + 4) (.keyword "="), right k n,
    .atom (k + 13) (.mark ";")]

lemma buildList_token {stop : Stop} {t : Tree} {is : List Item} {row statements : List Tree}
    (hend : stop.isEnd t = false) (hkind : (t.kind == .fileEnd) = false) :
    Item.buildList stop (.token t :: is) row statements =
      Item.buildList stop is (row ++ [t]) statements := by
  rw [Item.buildList_cons, Item.build_token, pure_bind, hend, rowWith, hkind]
  rfl

lemma arrange_leaves (hlocal : isLocalName name = true) (n : Nat) (k : NodeId) :
    arrange (Script.leaves k (tokens name n)) ⟨k + 9, []⟩ = .ok (node k name n) ⟨k + 14, []⟩ := by
  have hlayout : ∀ t ∈ [Tree.atom k (.keyword "private"), .atom (k + 2) (.var name),
      .atom (k + 4) (.keyword "="), .atom (k + 6) (.number (some (.int n)))], t.isLayout = false := by
    simp only [forall_mem_cons]
    exact ⟨rfl, rfl, rfl, rfl, by simp⟩
  have hpower (skipped rest : List Tree) :
      Precedence.Ahead.power items ⟨some (.atom (k + 4) (.keyword "=")), skipped, rest⟩ = 8 := by
    change Precedence.power (Text.lower "=") = 8
    decide
  have hrow := arrange_row (k + 1) (k + 3) (k + 5) hlayout (opening_private k)
    (opening_name hlocal _ _) hpower (operand_number (k + 6) 0 n).opening
  have hending : endingOf? (Script.leaves k (tokens name n)) = some .semicolon := rfl
  have hdrop : (Script.leaves k (tokens name n)).dropLast = [.atom k (.keyword "private"),
    .atom (k + 1) .space, .atom (k + 2) (.var name), .atom (k + 3) .space,
    .atom (k + 4) (.keyword "="), .atom (k + 5) .space, .atom (k + 6) (.number (some (.int n)))] := rfl
  unfold arrange
  simp only [hending, hdrop, Option.isSome_some, if_true, hrow]
  rfl

lemma read_text (hlocal : isLocalName name = true) (hname : Lexeme.split name = [name])
    {digits : List Char} (hne : digits ≠ []) (hdigits : ∀ c ∈ digits, c.isDigit = true)
    (hlength : digits.length ≤ longestWhole) (k : NodeId) : Script.read (text name digits) k =
      .ok ⟨.statement (k + 14) false none [node k name (ofDigits digits)], k + 15⟩ := by
  have hlex := lex_text hlocal hname hne hdigits hlength
  generalize ofDigits digits = n at hlex ⊢
  have hclose : closeRow (Script.leaves k (tokens name n)) [] ⟨k + 9, []⟩ =
      .ok [node k name n] ⟨k + 14, []⟩ := bind_of_eq_ok (arrange_leaves hlocal n k)
  have hreplacing : ((tokens name n).all fun a => !a.isReplacing) = true := rfl
  refine (Script.read_eq_ok_iff hlex fun a ha => by
    simpa using all_eq_true.mp hreplacing a ha).mpr
    ⟨(Script.leaves k (tokens name n)).map .token, rfl, ⟨⟨rfl, rfl⟩, ⟨rfl, rfl⟩, ⟨rfl, rfl⟩,
      ⟨rfl, rfl⟩, ⟨rfl, rfl⟩, ⟨rfl, rfl⟩, ⟨rfl, rfl⟩, ⟨rfl, rfl⟩, trivial⟩, ?_⟩
  refine Script.buildScript_eq_ok.mpr ⟨([], [node k name n]), ⟨k + 14, []⟩, _, _, ?_, rfl, rfl⟩
  change Item.buildList .both (.token _ :: .token _ :: .token _ :: .token _ :: .token _ ::
    .token _ :: .token _ :: [.token _]) [] [] _ = _
  rw [buildList_token rfl rfl, buildList_token rfl rfl, buildList_token rfl rfl,
    buildList_token rfl rfl, buildList_token rfl rfl, buildList_token rfl rfl,
    buildList_token rfl rfl, Item.buildList_cons, Item.build_token, pure_bind,
    show Stop.both.isEnd (.atom _ (.mark ";")) = true from rfl, if_pos rfl]
  exact bind_of_eq_ok hclose

end Declaration

/-! ### The value of the variable -/

/-- Texts and arrays, which `private` takes for the names of variables. -/
def Value.namesOthers : Value → Bool
  | .atom _ (.string _) => true
  | .array _ => true
  | _ => false

lemma Store.isUndefined_congr {s s' : Store} (h : s'.elements? = s.elements?) (v : Value) :
    s'.isUndefined v = s.isUndefined v := by
  fun_induction Store.isUndefined s v
  case case9 id name first last step _ _ _ =>
    cases first <;> cases last <;> simp_all [Store.isUndefined]
  all_goals simp_all [Store.isUndefined]

/-- What variables hold: nothing, or a value of which more is known than its kind. -/
structure Value.Proper (store : Store) (v : Value) : Prop where
  isValue : v.kind.isValue = true
  notVar : v.varName? = none
  known : v.kind = .nothing ∨ store.isUndefined v = .ok false

namespace Value.Proper

variable {store store' : Store} {v : Value}

lemma operand (h : v.Proper store) : v.operand = .thing v.kind := by
  have hvalue := h.isValue
  cases v with
  | atom i a => cases a <;> first | rfl | cases hvalue
  | _ => rfl

lemma congr (h : v.Proper store) (helements : store'.elements? = store.elements?) :
    v.Proper store' :=
  ⟨h.isValue, h.notVar, by rw [Store.isUndefined_congr helements]; exact h.known⟩

lemma nothing (i : NodeId) : (atom i .nothing).Proper store :=
  ⟨rfl, rfl, .inl rfl⟩

end Value.Proper

/-- The stack in which a machine looks names up. -/
abbrev Machine.stack (m : Machine) : Stack Value :=
  m.spaces.stack m.current

namespace Run

/-- On the machine that is active, the name has a value or none. -/
structure Sees (w : World) (name : String) (m : Machine) (o : Option Value) : Prop where
  machine : w.machines[w.active]? = some m
  scopes : m.stack.scopes ≠ []
  find : m.stack.find? name = .ok o
  proper : ∀ v ∈ o, v.Proper w.store

variable {w w' : World} {m : Machine} {name : String} {o : Option Value} {v : Value}

lemma Sees.mono (h : Sees w name m o) (hgrows : Grows w w') : Sees w' name m o :=
  ⟨by rw [hgrows.machines, hgrows.active, h.machine], h.scopes, h.find,
    fun v hv => (h.proper v hv).congr hgrows.elements⟩

lemma checkOutcome_eq (h : v.Proper w.store) (i : NodeId) (b : Bool) (cs : List Tree)
    (unknown : Value) : checkOutcome (.statement i b none cs) unknown (some v) w = .ok v w := by
  unfold checkOutcome
  rw [show isEnded (.statement i b none cs) = false from rfl, if_neg (by decide)]
  dsimp only
  rcases h.known with hnothing | hknown
  · rw [hnothing]
    rfl
  · have hlift : lift (w.store.isUndefined v) w = .ok false w := by
      rw [hknown]
      rfl
    split_ifs
    · exact (bind_of_eq_ok (x := get) rfl).trans (bind_eq hlift rfl)
    · rfl

/-- A variable stands for the value that it has, or for a new value nothing. -/
lemma exists_valueOf (h : Sees w name m o) (i : NodeId) :
    ∃ v w', valueOf (.atom i (.var name)) w = .ok v w' ∧ Grows w w' ∧ v.Proper w'.store ∧
      v.namesOthers = o.any Value.namesOthers := by
  have hcurrent := current_eq_ok.mpr ⟨m, h.machine, rfl, rfl⟩
  have hfound := find?_eq_ok.mpr ⟨m, h.machine, h.find, rfl⟩
  have hread (v : Value) (w' : World) (hv : v.Proper w'.store)
      (hname : valueOfName m.current name w = .ok v w') :
      valueOf (.atom i (.var name)) w = .ok v w' := by
    refine bind_eq hcurrent (bind_eq hname ?_)
    rw [if_pos hv.isValue]
    rfl
  cases o with
  | some v =>
    exact ⟨v, w, hread v w (h.proper v rfl) (bind_of_eq_ok hfound), .refl w, h.proper v rfl, rfl⟩
  | none =>
    obtain ⟨u, w', hnothing, hgrows⟩ := exists_stored_atom .nothing w
    exact ⟨_, w', hread _ w' (.nothing u) (bind_eq hfound hnothing), hgrows, .nothing u, rfl⟩

/-- If no entry has the first word and as many parts, no command fits. -/
lemma outcomeOf_eq_runOther (answer : Answer) (t : Tree) (tokens values : List Value)
    (unknown : Value) {word : String}
    (hword : Operand.firstWord? (values.map Value.operand) = some word)
    (hnil : Entry.candidates Entry.interpreted word values.length = []) :
    outcomeOf answer t tokens values unknown =
      some <$> runOther answer t t.base tokens values unknown := by
  have hlookup : Index.interpreted.lookup (values.map Value.operand) = [] := by
    rw [Index.interpreted, Index.lookup_ofEntries hword, length_map, hnil]
  unfold outcomeOf
  rw [hlookup]
  rfl

/-! ### Changing the top scope -/

def assigned (s : Stack Value) (x : String) (v : Value) : Stack Value :=
  s.assignAt (s.scopes.length - 1) x v

/-- The world with another stack for a namespace of the machine that is active. -/
def restack (w : World) (space : Space) (s : Stack Value) : World :=
  { w with
    machines := w.machines.modify w.active fun m =>
      { m with spaces := m.spaces.setStack space s } }

section

variable {s s' : Stack Value}

lemma valueAt?_assigned (hscopes : s.scopes ≠ []) (x y : String) (level : Nat) :
    (assigned s x v).valueAt? level y =
      if level + 1 = s.scopes.length ∧ Text.lower y = Text.lower x then some v
      else s.valueAt? level y := by
  have hpos := length_pos_iff.mpr hscopes
  rw [assigned, Stack.valueAt?_assignAt]
  by_cases hlevel : level + 1 = s.scopes.length
  · have hlt : level < s.scopes.length := by omega
    simp [← hlevel, eq_comm]
  · rw [if_neg (by omega), if_neg (by omega)]

lemma assign_assigned (hlocal : isLocalName name = true) (hscopes : s.scopes ≠ []) (u v : Value) :
    (assigned s name u).assign name v = .ok (assigned (assigned s name u) name v) := by
  have hpos := length_pos_iff.mpr hscopes
  have hlength : (assigned s name u).scopes.length = s.scopes.length := length_modify ..
  have htop : (assigned s name u).Highest name (s.scopes.length - 1) u := by
    refine ⟨?_, fun l hl => Stack.valueAt?_eq_none (by omega)⟩
    rw [valueAt?_assigned hscopes, if_pos ⟨Nat.sub_add_cancel hpos, rfl⟩]
  rw [Stack.assign, htop.levelOf_eq hlocal, ← hlength]
  rfl

variable {space : Space}

lemma grows_restack (h : Grows w w') : Grows (restack w space s) (restack w' space s) :=
  ⟨by rw [restack, restack, h.machines, h.active], h.active, h.elements, h.places⟩

lemma restack_restack : restack (restack w space s) space s' = restack w space s' := by
  have hmachines : (restack (restack w space s) space s').machines =
      (restack w space s').machines := by
    refine Array.ext_getElem? fun i => ?_
    simp only [restack, Array.getElem?_modify]
    split_ifs
    · rw [Option.map_map]
      refine congrArg (Option.map · _) (funext fun m => ?_)
      cases space <;> rfl
    · rfl
  exact congrArg (fun machines => { w with machines }) hmachines

lemma machine_restack (hm : w.machines[w.active]? = some m) (h : Grows (restack w space s) w') :
    w'.machines[w'.active]? = some { m with spaces := m.spaces.setStack space s } := by
  rw [h.machines, h.active, restack, Array.getElem?_modify, if_pos rfl, hm]
  rfl

lemma assignTop_eq (hm : w.machines[w.active]? = some m) (hscopes : m.stack.scopes ≠ [])
    (x : String) (v : Value) :
    assignTop x v w = .ok () (restack w m.current (assigned m.stack x v)) := by
  refine bind_eq (current_eq_ok.mpr ⟨m, hm, rfl, rfl⟩) (modifyStack_eq_ok.mpr ⟨m, _, hm, ?_, rfl⟩)
  rw [Stack.top, if_neg (by simpa using hscopes)]
  rfl

/-- A local name is put into the top scope without a value yet. -/
lemma exists_addPrivates (hm : w.machines[w.active]? = some m) (hscopes : m.stack.scopes ≠ [])
    (i : NodeId) {q : Quoted} (hlocal : isLocalName q.body = true) :
    ∃ j w', addPrivates [.atom i (.string (some q))] w = .ok () w' ∧
      Grows (restack w m.current (assigned m.stack q.body (.atom j .nothing))) w' := by
  obtain ⟨j, w1, hnothing, h1⟩ := exists_stored_atom .nothing w
  have hm1 : w1.machines[w1.active]? = some m := by rw [h1.machines, h1.active, hm]
  have hprivate : privateName (.atom i (.string (some q))) w = .ok q.body w := by
    unfold privateName
    dsimp only
    rw [if_pos hlocal]
    rfl
  have hsingle (v : Value) : addPrivates [v] = (do assignTop (← privateName v) (← nothing)) := by
    simp [addPrivates]
  refine ⟨j, _, ?_, grows_restack h1⟩
  rw [hsingle, bind_of_eq_ok hprivate]
  exact bind_eq hnothing (assignTop_eq hm1 hscopes q.body _)

end

end Run

/-! ### Running a declaration -/

namespace Declaration

open Run

variable {w w' : World} {m : Machine} {k : NodeId} {name : String} {o : Option Value}

lemma candidates_eq_nil : Entry.candidates Entry.interpreted "private" 2 = [] ∧
    Entry.candidates Entry.interpreted "=" 3 = [] := by
  decide +kernel

/-- What `private` is given is the value of the variable. -/
lemma exists_target (hplaced : Placed w (target k name)) (h : Sees w name m o) (depth : Nat) :
    ∃ v w', answerWithin (depth + 3) (.node (target k name)) w = .ok v w' ∧ Grows w w' ∧
      v.Proper w'.store ∧ v.namesOthers = o.any Value.namesOthers := by
  obtain ⟨u, w1, hnothing, h1⟩ := exists_stored_atom .nothing w
  obtain ⟨i, w2, hatom, h2⟩ := evaluates_atom
    (hplaced.child (t := .atom (k + 2) (.var name)) (by simp)) rfl rfl depth w1 h1
  have h₁2 := h1.trans h2
  obtain ⟨v, w3, hvalue, h3, hv, hnames⟩ := exists_valueOf (h.mono h₁2) i
  obtain ⟨w4, hcopy, h4⟩ := exists_copyPlace (hplaced.mono (h₁2.trans h3)).self v.id
  have hparts : ((target k name).base.mapM (part (answerWithin (depth + 1))) : Run _) w1 =
      .ok [(.atom i (.var name), v)] w3 :=
    mapM_cons_eq_ok.mpr ⟨_, w3, [], bind_eq hatom (bind_eq hvalue rfl),
      rfl, rfl⟩
  have houtcome : outcomeOf (answerWithin (depth + 1)) (target k name) [.atom i (.var name)] [v]
      (.atom u .nothing) w3 = .ok (some v) w3 := by
    unfold outcomeOf
    rw [Index.lookup_eq_nil (by rw [map_singleton, hv.operand]; rfl)]
    rfl
  have hrun : runStatement (answerWithin (depth + 1)) (target k name) w = .ok v w3 := by
    rw [runStatement_eq]
    exact bind_eq hnothing (bind_eq hparts (bind_eq houtcome (checkOutcome_eq hv _ _ _ _)))
  exact ⟨v, w4, bind_eq hrun (bind_eq hcopy rfl),
    (h₁2.trans h3).trans h4, hv.congr h4.elements, hnames⟩

/-- No command fits `private` and a value. -/
lemma exists_left (hplaced : Placed w (left k name)) (h : Sees w name m o) (depth : Nat) :
    ∃ v u w', Grows w w' ∧ v.namesOthers = o.any Value.namesOthers ∧
      runStatement (answerWithin (depth + 3)) (left k name) w =
        (declare (target k name) v (.atom u .nothing) >>= fun r =>
          checkOutcome (left k name) (.atom u .nothing) (some r)) w' := by
  obtain ⟨u, w1, hnothing, h1⟩ := exists_stored_atom .nothing w
  obtain ⟨i, w2, hatom, h2⟩ := evaluates_atom
    (hplaced.child (t := .atom k (.keyword "private")) (by simp)) rfl rfl (depth + 2) w1 h1
  have h₁2 := h1.trans h2
  obtain ⟨v, w3, htarget, h3, hv, hnames⟩ := exists_target
    ((hplaced.child (t := target k name) (by simp)).mono h₁2) (h.mono h₁2) depth
  refine ⟨v, u, w3, h₁2.trans h3, hnames, ?_⟩
  have hparts : ((left k name).base.mapM (part (answerWithin (depth + 3))) : Run _) w1 =
      .ok [(.atom i (.keyword "private"), .atom i (.keyword "private")), (v, v)] w3 :=
    mapM_cons_eq_ok.mpr ⟨_, w2, _, bind_eq hatom rfl, mapM_cons_eq_ok.mpr
      ⟨_, w3, [], bind_eq htarget (bind_of_eq_ok (valueOf_eq hv.notVar w3)), rfl,
        rfl⟩, rfl⟩
  have houtcome := outcomeOf_eq_runOther (answerWithin (depth + 3)) (left k name)
    [.atom i (.keyword "private"), v] [.atom i (.keyword "private"), v] (.atom u .nothing)
    (congrArg some Text.lower_private) candidates_eq_nil.1
  rw [runStatement_eq]
  refine bind_eq hnothing (bind_eq hparts ?_)
  simp only [map_cons, map_nil, houtcome, bind_map_left]
  rfl

section

variable {v u r : Value} {t : Tree}

lemma declare_eq (hv : v.namesOthers = false) : declare t v u = declareVariable t u := by
  cases v with
  | atom i a => cases a <;> first | rfl | cases hv
  | array i => cases hv
  | _ => rfl

/-- Of a text or an array nothing is left that could be assigned to. -/
lemma eq_of_declare (hv : v.namesOthers = true) (h : declare t v u w = .ok r w') : r = u := by
  unfold declare at h
  split at h
  · obtain ⟨⟨⟩, w1, -, hpure⟩ := bind_eq_ok.mp h
    exact (pure_eq_ok.mp hpure).1.symm
  · obtain ⟨vs, w1, -, h⟩ := bind_eq_ok.mp h
    obtain ⟨⟨⟩, w2, -, hpure⟩ := bind_eq_ok.mp h
    exact (pure_eq_ok.mp hpure).1.symm
  · simp_all [Value.namesOthers]

end

lemma exists_declareVariable (hlocal : isLocalName name = true) (h : Sees w name m o) (u : Value) :
    ∃ p j w', declareVariable (target k name) u w =
        .ok (.privateOf p (.atom (k + 2) (.var name))) w' ∧
      Grows (restack w m.current (assigned m.stack name (.atom j .nothing))) w' := by
  obtain ⟨q, w1, hstring, h1⟩ := exists_stored_atom (.string (some ⟨'"', name⟩)) w
  obtain ⟨j, w2, hadd, h2⟩ := exists_addPrivates (h.mono h1).machine h.scopes q
    (q := ⟨'"', name⟩) hlocal
  exact ⟨_, j, _, bind_eq hstring (bind_eq hadd rfl),
    (grows_restack h1).trans (h2.trans ⟨rfl, rfl, rfl, fun _ h => h⟩)⟩

lemma exists_declared (hlocal : isLocalName name = true) (hplaced : Placed w (left k name))
    (h : Sees w name m o) (ho : o.any Value.namesOthers = false) (depth : Nat) :
    ∃ p j w', answerWithin (depth + 5) (.node (left k name)) w =
        .ok (.privateOf p (.atom (k + 2) (.var name))) w' ∧
      Grows (restack w m.current (assigned m.stack name (.atom j .nothing))) w' := by
  obtain ⟨v, u, w1, h1, hv, hrun⟩ := exists_left hplaced h depth
  obtain ⟨p, j, w2, hdeclare, h2⟩ := exists_declareVariable (k := k) hlocal (h.mono h1)
    (.atom u .nothing)
  have hproper : (Value.privateOf p (.atom (k + 2) (.var name))).Proper w2.store :=
    ⟨rfl, rfl, .inr rfl⟩
  obtain ⟨w3, hcopy, h3⟩ := exists_copyPlace (h2.places _ (h1.places _ hplaced.self)) p
  rw [declare_eq (hv.trans ho), bind_of_eq_ok hdeclare] at hrun
  exact ⟨p, j, w3, bind_eq (hrun.trans (checkOutcome_eq hproper _ _ _ _))
    (bind_eq hcopy rfl), ((grows_restack h1).trans h2).trans h3⟩

lemma eq_nothing_of_left (hplaced : Placed w (left k name)) (h : Sees w name m o)
    (ho : o.any Value.namesOthers = true) {depth : Nat} {r : Value}
    (hanswer : answerWithin (depth + 5) (.node (left k name)) w = .ok r w') :
    ∃ u, r = .atom u .nothing := by
  obtain ⟨v, u, w1, -, hv, hrun⟩ := exists_left hplaced h depth
  obtain ⟨r', w2, hstatement, hanswer⟩ := bind_eq_ok.mp hanswer
  obtain ⟨⟨⟩, w3, -, hanswer⟩ := bind_eq_ok.mp hanswer
  obtain ⟨rfl, -⟩ := pure_eq_ok.mp hanswer
  obtain ⟨q, w4, hdeclare, hcheck⟩ := bind_eq_ok.mp (hrun.symm.trans hstatement)
  obtain rfl := eq_of_declare (hv.trans ho) hdeclare
  cases (checkOutcome_eq (.nothing u) _ _ _ _).symm.trans hcheck
  exact ⟨u, rfl⟩

/-- The declaration of a variable that holds neither a text nor an array. -/
lemma exists_node {n : Nat} (hlocal : isLocalName name = true) (hplaced : Placed w (node k name n))
    (h : Sees w name m o) (ho : o.any Value.namesOthers = false) (depth : Nat) :
    ∃ r i j w', answerWithin (depth + 7) (.node (node k name n)) w = .ok r w' ∧
      Grows (restack w m.current (assigned (assigned m.stack name (.atom j .nothing)) name
        (.atom i (.number (some (.int n)))))) w' := by
  obtain ⟨u, w1, hnothing, h1⟩ := exists_stored_atom .nothing w
  obtain ⟨p, j, w2, hleft, h2⟩ := exists_declared (k := k) hlocal
    ((hplaced.child (by simp)).mono h1) (h.mono h1) ho depth
  have h2 := (grows_restack h1).trans h2
  have hplaced2 : Placed w2 (node k name n) := hplaced.imp fun _ hp x hx => h2.places x.1 (hp x hx)
  obtain ⟨e, w3, hequals, h3⟩ := evaluates_atom
    (hplaced2.child (t := .atom (k + 4) (.keyword "=")) (by simp)) rfl rfl (depth + 4) w2 (.refl w2)
  obtain ⟨i, w4, hright, h4⟩ := evaluates_single rfl (hplaced2.child (t := right k n) (by simp))
    (fun hatom => evaluates_atom hatom rfl rfl (depth + 2)) w3 h3
  have h4 := h2.trans (h3.trans h4)
  have hm := machine_restack h.machine h4
  let x : Value := .atom i (.number (some (.int n)))
  let parts : List Value := [.privateOf p (.atom (k + 2) (.var name)), .atom e (.keyword "="), x]
  let s : Stack Value := assigned (assigned m.stack name (.atom j .nothing)) name x
  have hparts : ((node k name n).base.mapM (part (answerWithin (depth + 5))) : Run _) w1 =
      .ok (parts.map fun v => (v, v)) w4 :=
    mapM_cons_eq_ok.mpr ⟨_, w2, _, bind_eq hleft rfl, mapM_cons_eq_ok.mpr
      ⟨_, w3, _, bind_eq hequals rfl, mapM_cons_eq_ok.mpr
        ⟨_, w4, [], bind_eq hright rfl, rfl, rfl⟩, rfl⟩, rfl⟩
  have hassign : assign m.current name x w4 = .ok () (restack w4 m.current s) := by
    refine modifyStack_eq_ok.mpr ⟨_, s, hm, ?_, rfl⟩
    rw [Namespaces.stack_setStack, if_pos rfl]
    exact assign_assigned hlocal h.scopes _ _
  have hother : runOther (answerWithin (depth + 5)) (node k name n) (node k name n).base parts parts
      (.atom u .nothing) w4 = .ok x (restack w4 m.current s) := by
    change (current >>= fun space => assign space name x >>= fun _ => pure x : Run Value) w4 = _
    exact bind_eq (current_eq_ok.mpr ⟨_, hm, rfl, rfl⟩) (bind_eq hassign rfl)
  have houtcome := outcomeOf_eq_runOther (answerWithin (depth + 5)) (node k name n) parts parts
    (.atom u .nothing) rfl candidates_eq_nil.2
  have hrun : runStatement (answerWithin (depth + 5)) (node k name n) w =
      .ok (.atom u .nothing) (restack w4 m.current s) := by
    rw [runStatement_eq]
    refine bind_eq hnothing (bind_eq hparts ?_)
    exact bind_eq ((congrFun houtcome w4).trans (map_eq_ok.mpr ⟨_, hother, rfl⟩)) rfl
  have h5 : Grows (restack w m.current s) (restack w4 m.current s) := by
    rw [← restack_restack]
    exact grows_restack h4
  obtain ⟨w5, hcopy, h6⟩ := exists_copyPlace (h5.places _ hplaced.self) u
  exact ⟨_, i, j, w5, bind_eq hrun (bind_eq hcopy rfl), h5.trans h6⟩

/-- The declaration of a variable that holds a text or an array fails. -/
lemma node_ne_ok {n : Nat} (hplaced : Placed w (node k name n)) (h : Sees w name m o)
    (ho : o.any Value.namesOthers = true) {depth : Nat} {r : Value} :
    answerWithin (depth + 7) (.node (node k name n)) w ≠ .ok r w' := by
  intro hanswer
  obtain ⟨r', w1, hrun, -⟩ := bind_eq_ok.mp hanswer
  change runStatement (answerWithin (depth + 5)) (node k name n) w = _ at hrun
  obtain ⟨u, w2, hnothing, h2⟩ := exists_stored_atom .nothing w
  rw [runStatement_eq] at hrun
  obtain ⟨parts, w3, hparts, hrun⟩ := bind_eq_ok.mp ((bind_of_eq_ok hnothing).symm.trans hrun)
  obtain ⟨outcome, w4, houtcome, -⟩ := bind_eq_ok.mp hrun
  obtain ⟨a, w5, _, hleft, hrest, rfl⟩ := mapM_cons_eq_ok.mp hparts
  obtain ⟨b, w6, _, hequals, hrest', rfl⟩ := mapM_cons_eq_ok.mp hrest
  obtain ⟨c, w7, _, -, hnil, rfl⟩ := mapM_cons_eq_ok.mp hrest'
  cases hnil
  obtain ⟨_, w8, hleft, hpart⟩ := bind_eq_ok.mp hleft
  obtain ⟨q, rfl⟩ := eq_nothing_of_left ((hplaced.child (by simp)).mono h2) (h.mono h2) ho hleft
  cases hpart
  obtain ⟨_, w9, hequals, hpart⟩ := bind_eq_ok.mp hequals
  obtain ⟨_, w₁0, hatom, hequals⟩ := bind_eq_ok.mp hequals
  cases hatom
  obtain ⟨⟨⟩, w₁1, -, hequals⟩ := bind_eq_ok.mp hequals
  cases hequals
  cases hpart
  have hother := outcomeOf_eq_runOther (answerWithin (depth + 5)) (node k name n)
    [.atom q .nothing, .atom (k + 4) (.keyword "="), c.1]
    [.atom q .nothing, .atom (k + 4) (.keyword "="), c.2] (.atom u .nothing) rfl candidates_eq_nil.2
  obtain ⟨_, hother, -⟩ := map_eq_ok.mp ((congrFun hother w3).symm.trans houtcome)
  -- what is left of `private` is no variable, and its node starts with the keyword
  change meaningless (node k name n) _ = _ at hother
  obtain ⟨_, _, -, hthrow⟩ := bind_eq_ok.mp hother
  cases hthrow

/-- The later world has a value for the variable in the top scope of the stack in which names are
looked up. All other variables of all scopes of all machines and the elements of all arrays are as
before. -/
structure Binds (w : World) (m : Machine) (name : String) (v : Value) (w' : World) : Prop where
  active : w'.active = w.active
  elements : w'.store.elements? = w.store.elements?
  machines : ∃ s, w'.machines = (restack w m.current s).machines ∧
    s.scopes.length = m.stack.scopes.length ∧ ∀ level x, s.valueAt? level x =
      if level + 1 = m.stack.scopes.length ∧ Text.lower x = Text.lower name then some v
      else m.stack.valueAt? level x

lemma binds_of_grows {u v : Value} (hscopes : m.stack.scopes ≠ [])
    (h : Grows (restack w m.current (assigned (assigned m.stack name u) name v)) w') :
    Binds w m name v w' := by
  have hlength : (assigned m.stack name u).scopes.length = m.stack.scopes.length :=
    length_modify ..
  have hne : (assigned m.stack name u).scopes ≠ [] := by
    rwa [ne_eq, ← length_eq_zero_iff, hlength, length_eq_zero_iff]
  refine ⟨h.active, h.elements, _, h.machines, (length_modify ..).trans hlength, fun level x => ?_⟩
  rw [valueAt?_assigned hne, valueAt?_assigned hscopes, hlength]
  split_ifs <;> rfl

/-- The text of a private declaration of a whole number is read as one statement. It runs to its end
exactly if the variable holds neither a text nor an array. Then it gives the variable the number in
the top scope, and changes nothing else. -/
theorem declaration_iff {digits : List Char} (hlocal : isLocalName name = true)
    (hname : Lexeme.split name = [name]) (hne : digits ≠ [])
    (hdigits : ∀ c ∈ digits, c.isDigit = true) (hlength : digits.length ≤ longestWhole)
    (hm : w.machines[w.active]? = some m) (hscopes : m.stack.scopes ≠ [])
    (hproper : ∀ v, m.stack.find? name = .ok (some v) → v.Proper w.store) (depth : Nat) :
    ∃ script t w₁, readScript (text name digits) w = .ok script w₁ ∧ script.tree.base = [t] ∧
      ((∃ o w', answerWithin (depth + 7) (.node t) w₁ = .ok o w') ↔
        ∀ v, m.stack.find? name = .ok (some v) → v.namesOthers = false) ∧
      ∀ o w', answerWithin (depth + 7) (.node t) w₁ = .ok o w' →
        ∃ i, Binds w m name (.atom i (.number (some (.int (ofDigits digits))))) w' := by
  obtain ⟨w₁, hscript, hgrows, hplaced⟩ := exists_readScript
    (read_text hlocal hname hne hdigits hlength w.store.nextId)
  obtain ⟨o, ho⟩ : ∃ o, m.stack.find? name = .ok o := by
    unfold Stack.find? Stack.levelOf
    rw [if_neg (by simpa using hscopes), if_pos hlocal]
    exact ⟨_, rfl⟩
  have hsees : Sees w₁ name m o :=
    Sees.mono ⟨hm, hscopes, ho, fun v hv => hproper v (by rw [ho, hv])⟩ hgrows
  have hplaced := hplaced.child (mem_singleton_self _)
  refine ⟨_, _, w₁, hscript, rfl, ?_⟩
  have hvalues : (∀ v, m.stack.find? name = .ok (some v) → v.namesOthers = false) ↔
      o.any Value.namesOthers = false := by
    rw [ho]
    cases o <;> simp
  rw [hvalues]
  cases hnames : o.any Value.namesOthers with
  | true =>
    have hfails {o w'} (h : answerWithin (depth + 7) (.node _) w₁ = .ok o w') : False :=
      node_ne_ok hplaced hsees hnames h
    exact ⟨⟨fun ⟨o, w', h⟩ => (hfails h).elim, fun h => nomatch h⟩, fun o w' h => (hfails h).elim⟩
  | false =>
    obtain ⟨r, i, j, w₂, hrun, h₂⟩ := exists_node hlocal hplaced hsees hnames depth
    refine ⟨⟨fun _ => rfl, fun _ => ⟨r, w₂, hrun⟩⟩, fun o w' h => ⟨i, ?_⟩⟩
    cases hrun.symm.trans h
    exact binds_of_grows hscopes ((grows_restack hgrows).trans h₂)

/-- The declaration of a variable that has no value. -/
theorem declaration_iff_unbound :
    isLocalName "_x" = true ∧ ∃ script t w₁,
      readScript (text "_x" ['7']) (.single .empty []) = .ok script w₁ ∧ script.tree.base = [t] ∧
      ∃ o w' i, answerWithin 7 (.node t) w₁ = .ok o w' ∧
        Binds (.single .empty []) (.ofVariables []) "_x" (.atom i (.number (some (.int 7)))) w' := by
  have hlocal : isLocalName "_x" = true := by decide +kernel
  have hnone : (Machine.ofVariables []).stack.find? "_x" = .ok none := by
    unfold Stack.find? Stack.levelOf
    rw [if_neg (by decide), if_pos hlocal]
    rfl
  obtain ⟨script, t, w₁, hscript, htree, hiff, hbinds⟩ := declaration_iff (w := .single .empty [])
    (m := .ofVariables []) hlocal (by decide) (show ['7'] ≠ [] by decide)
    (forall_mem_singleton.mpr rfl) (by simp [longestWhole]) rfl (by decide) (by simp [hnone]) 0
  obtain ⟨o, w', hrun⟩ := hiff.mpr (by simp [hnone])
  obtain ⟨i, hbinds⟩ := hbinds o w' hrun
  exact ⟨hlocal, script, t, w₁, hscript, htree, o, w', i, hrun, hbinds⟩

end Declaration

end ArmaScript
