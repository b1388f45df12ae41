import ArmaScript.Proofs.Lexing
import ArmaScript.Proofs.Tokens
import ArmaScript.Value.Store

/-!
# Coordinates

The position of a node is found while the tree is walked through: each node moves it on by the lines and
columns of its text. The result is what one finds by counting in the written text. A node stands where
the text of all leaves before it ends, at whatever depth these leaves are, and whatever lines they have.
-/

namespace ArmaScript

open List

/-! ### Counting lines and columns -/

lemma Extent.ofChars_eq (cs : List Char) :
    Extent.ofChars cs = ⟨cs.count '\n', (cs.rtakeWhile (· != '\n')).length⟩ := by
  induction cs using reverseRecOn with
  | nil => rfl
  | append_singleton cs c ih =>
    rw [ofChars, foldl_append, ← ofChars, ih, foldl_cons, foldl_nil, step,
      count_append, rtakeWhile_concat]
    by_cases hc : c = '\n' <;> simp [hc]

namespace Position

/-- The place behind characters of which the first is at `p`: further on in the line if they have no
newline, and else as many lines below as they have newlines, behind what follows the last of these. -/
def behind (p : Position) (cs : List Char) : Position :=
  if '\n' ∈ cs then ⟨p.line + cs.count '\n', 1 + (cs.rtakeWhile (· != '\n')).length⟩
  else ⟨p.line, p.column + cs.length⟩

lemma advance_ofChars (p : Position) (cs : List Char) : p.advance (.ofChars cs) = p.behind cs := by
  rw [Extent.ofChars_eq, advance, behind]
  by_cases hmem : '\n' ∈ cs
  · rw [if_pos hmem, if_neg (Nat.ne_of_gt (count_pos_iff.mpr hmem))]
  · have hline : cs.rtakeWhile (· != '\n') = cs := by
      rw [rtakeWhile_eq_self_iff]
      intro c hc
      exact bne_iff_ne.mpr (ne_of_mem_of_not_mem hc hmem)
    rw [if_neg hmem, if_pos (count_eq_zero.mpr hmem), hline]

lemma afterText_eq_behind (s : String) : afterText s = start.behind s.toList := by
  rw [afterText, Extent.ofText, advance_ofChars]

@[simp] lemma behind_nil (p : Position) : p.behind [] = p := rfl

/-- To move on over two texts is to move on over the first and then over the second. -/
lemma behind_append (p : Position) (cs ds : List Char) :
    p.behind (cs ++ ds) = (p.behind cs).behind ds := by
  have happend : Extent.ofChars (cs ++ ds) = (Extent.ofChars cs).append (.ofChars ds) := by
    simpa [Extent.ofText] using Extent.ofText_append (.ofList cs) (.ofList ds)
  rw [← advance_ofChars, happend, advance_append, advance_ofChars, advance_ofChars]

/-- From the start of a text, lines and columns both count from one. -/
lemma start_behind (cs : List Char) :
    start.behind cs = ⟨cs.count '\n' + 1, (cs.rtakeWhile (· != '\n')).length + 1⟩ := by
  rw [← advance_ofChars, Extent.ofChars_eq, advance]
  split
  · rename_i hlines
    simp only at hlines
    simp [start, hlines, Nat.add_comm]
  · simp [start, Nat.add_comm]

end Position

/-! ### Nodes in a tree -/

namespace Tree

mutual

def ids : Tree → List NodeId
  | .atom id _ => [id]
  | .statement id _ _ cs => id :: idsList cs
  | .code id cs => id :: idsList cs
  | .array id cs => id :: idsList cs
  | .define id _ _ _ cs => id :: idsList cs
  | .conditional id cs => id :: idsList cs
  | .expansion id _ _ cs => id :: idsList cs
  | .resolution id _ cs => id :: idsList cs

/-- The identities of nodes in a row and of all nodes in them. -/
def idsList : List Tree → List NodeId
  | [] => []
  | t :: ts => t.ids ++ idsList ts

end

mutual

theorem map_places : ∀ (t : Tree) (p : Position), (t.places p).map Prod.fst = t.ids
  | .atom .., _ => rfl
  | .statement _ _ _ cs, p | .code _ cs, p | .array _ cs, p | .define _ _ _ _ cs, p
  | .conditional _ cs, p | .expansion _ _ _ cs, p | .resolution _ _ cs, p =>
    congrArg (cons _) (map_placesList cs p)

theorem map_placesList : ∀ (ts : List Tree) (p : Position), (placesList p ts).map Prod.fst = idsList ts
  | [], _ => rfl
  | t :: ts, p => by
    rw [placesList, map_append, map_places t p, map_placesList ts, idsList]

end

/-- A node stands in a tree, behind the leaves with the given tokens. -/
inductive Stands (u : Tree) : Tree → List Atom → Prop where
  | here : Stands u u []
  | inside {t c : Tree} {front rest : List Tree} {before : List Atom}
      (hchildren : t.children = front ++ c :: rest) (hc : Stands u c before) :
      Stands u t (atomsList front ++ before)

lemma mem_places {t : Tree} {p : Position} {x : NodeId × Position} :
    x ∈ t.places p ↔ x = (t.id, p) ∨ x ∈ placesList p t.children := by
  cases t with
  | atom id a => simp [places, placesList, children, Tree.id]
  | _ => exact mem_cons

lemma mem_placesList_append_right {front rest : List Tree} {p : Position} {x : NodeId × Position}
    (h : x ∈ placesList (p.advance (extentList front)) rest) :
    x ∈ placesList p (front ++ rest) := by
  induction front generalizing p with
  | nil => simpa [extentList, Position.advance] using h
  | cons t front ih =>
    rw [cons_append, placesList]
    refine mem_append_right _ (ih ?_)
    rwa [← Position.advance_append, ← extentList]

lemma extentList_eq_ofChars (ts : List Tree) :
    extentList ts = .ofChars (Atom.chars (atomsList ts)) := by
  rw [extentList_eq, textList_eq_join, Extent.ofText, String.toList_join, flatMap_map]
  rfl

/-- A node is given the place behind the text of the leaves before it. -/
lemma mem_places_of_stands {t u : Tree} {before : List Atom} (h : u.Stands t before) (p : Position) :
    (u.id, p.behind (Atom.chars before)) ∈ t.places p := by
  induction h generalizing p with
  | here => exact mem_places.mpr (.inl rfl)
  | @inside t c front rest before hchildren _ ih =>
    have hchars : Atom.chars (atomsList front ++ before) =
        Atom.chars (atomsList front) ++ Atom.chars before := flatMap_append
    rw [mem_places, hchildren, hchars, Position.behind_append]
    refine .inr (mem_placesList_append_right ?_)
    rw [placesList, extentList_eq_ofChars, Position.advance_ofChars]
    exact mem_append_left _ (ih _)

end Tree

/-! ### Places in a store -/

namespace Store

lemma getElem?_foldl_insert_of_notMem {places : List (NodeId × Position)} {id : NodeId}
    (h : id ∉ places.map Prod.fst) (m : Std.HashMap NodeId Position) :
    (places.foldl (fun m x => m.insert x.1 x.2) m)[id]? = m[id]? := by
  induction places generalizing m with
  | nil => rfl
  | cons x places ih =>
    rw [map_cons, mem_cons, not_or] at h
    rw [foldl_cons, ih h.2, Std.HashMap.getElem?_insert, if_neg (by simpa using Ne.symm h.1)]

/-- Where no node is given a place twice, each has the one that it was given. -/
lemma getElem?_setPlaces {places : List (NodeId × Position)} (hnodup : (places.map Prod.fst).Nodup)
    {id : NodeId} {p : Position} (h : (id, p) ∈ places) (s : Store) :
    (s.setPlaces places).places[id]? = some p := by
  change (places.foldl (fun m x => m.insert x.1 x.2) s.places)[id]? = some p
  generalize s.places = m
  induction places generalizing m with
  | nil => cases h
  | cons x places ih =>
    obtain ⟨hx, hrest⟩ := nodup_cons.mp hnodup
    obtain rfl | h := mem_cons.mp h
    · rw [foldl_cons, getElem?_foldl_insert_of_notMem hx, Std.HashMap.getElem?_insert_self]
    · exact ih hrest h _

end Store

namespace Stored

/-- When a tree in which no node stands twice is given its places from `p` on, every node in it, leaf or
not, is at the place that one comes to from `p` over the text of all leaves before it. From the start of
a text this is the line and the column of the end of that text. -/
theorem place_eq_behind {t u : Tree} {before : List Atom} (hids : t.ids.Nodup)
    (hu : u.Stands t before) (p : Position) (s : Store) :
    ∃ s', placeTree p t s = .ok () s' ∧
      s'.places[u.id]? = some (p.behind (Atom.chars before)) ∧
      (p = .start → s'.places[u.id]? =
        some ⟨(Atom.chars before).count '\n' + 1,
          ((Atom.chars before).rtakeWhile (· != '\n')).length + 1⟩) := by
  have hplace : (s.setPlaces (t.placesInOrder p)).places[u.id]? =
      some (p.behind (Atom.chars before)) := by
    rw [Tree.placesInOrder_eq]
    refine Store.getElem?_setPlaces ?_ (Tree.mem_places_of_stands hu p) s
    rwa [Tree.map_places]
  refine ⟨_, rfl, hplace, ?_⟩
  rintro rfl
  rw [hplace, Position.start_behind]

/-- An array that starts in the fifth column of a line and holds a text of two lines. -/
def longArray : Tree :=
  .array 9 [.atom 1 (.mark "["), .atom 2 (.string (some ⟨'"', "a\nbc"⟩)), .atom 3 (.mark ","),
    .statement 4 true none [.atom 5 (.mark "("), .atom 6 (.var "x"), .atom 7 (.mark ")")],
    .atom 8 (.mark "]")]

theorem place_eq_behind_longArray :
    longArray.ids.Nodup ∧ ∃ before, (Tree.atom 6 (.var "x")).Stands longArray before ∧
      Atom.chars before = "[\"a\nbc\",(".toList ∧
      ∃ s, placeTree ⟨2, 5⟩ longArray .empty = .ok () s ∧ s.places[6]? = some ⟨3, 6⟩ := by
  have hids : longArray.ids.Nodup := by decide
  have hx : (Tree.atom 6 (.var "x")).Stands longArray
      (Tree.atomsList [.atom 1 (.mark "["), .atom 2 (.string (some ⟨'"', "a\nbc"⟩)),
        .atom 3 (.mark ",")] ++ (Tree.atomsList [.atom 5 (.mark "(")] ++ [])) :=
    .inside rfl (.inside rfl .here)
  obtain ⟨s, hs, hplace, -⟩ := place_eq_behind hids hx ⟨2, 5⟩ .empty
  exact ⟨hids, _, hx, rfl, s, hs, hplace⟩

end Stored

end ArmaScript
