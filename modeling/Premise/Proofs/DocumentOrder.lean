import Mathlib.Data.List.Lex
import Mathlib.Data.List.Nodup
import Premise.Proofs.Walk

/-!
Walks over a tree against recursions over it.

An address says which child to take at each level. It tells equal elements at different places
apart, and document order is an order on addresses (`Precedes`). `located` lists the elements with
their addresses by recursion over the tree, and a stack brings the walks to the same list.

The loop of a walk takes one element off its stack in each turn. After any number of turns what has
been gathered comes from the front of the trail, and the trail of the stack is what is left of it
(`turns_trail`). So the loop ends with the trail, from whichever side it goes.
-/

namespace Premise.Element

/-! ### Recursions over a tree -/

mutual

/-- The elements with a tag: the element itself if it has it, then those of each child's tree. -/
def collect (tag : String) : Element → List Element
  | ⟨own, attributes, children, text, line⟩ =>
    (if own = tag then [⟨own, attributes, children, text, line⟩] else []) ++
      collectAll tag children

def collectAll (tag : String) : List Element → List Element
  | [] => []
  | e :: es => collect tag e ++ collectAll tag es

end

mutual

theorem findAll_eq_collect (tag : String) : ∀ e : Element, e.findAll tag = collect tag e
  | ⟨own, attributes, children, text, line⟩ => by
    rw [findAll_eq_append, collect, tagged_eq_collectAll tag children]

theorem tagged_eq_collectAll (tag : String) :
    ∀ es : List Element, tagged tag es = collectAll tag es
  | [] => rfl
  | e :: es => by
    rw [tagged_cons, collectAll, findAll_eq_collect tag e, tagged_eq_collectAll tag es]

end

mutual

theorem length_preorder : ∀ e : Element, (preorder e).length = size e
  | ⟨tag, attributes, children, text, line⟩ => by
    rw [preorder, size, List.length_cons, length_preorderAll children, Nat.add_comm]

theorem length_preorderAll : ∀ es : List Element, (preorderAll es).length = sizeAll es
  | [] => rfl
  | e :: es => by
    rw [preorderAll, sizeAll, List.length_append, length_preorder e, length_preorderAll es]

end

theorem count_eq_size (e : Element) : e.count = size e :=
  (count_eq_length e).trans (length_preorder e)

/-! ### Addresses -/

/-- The element at an address: at each level the child with that index. -/
def at? (e : Element) : List Nat → Option Element
  | [] => some e
  | i :: is => e.children[i]?.bind fun child => child.at? is

/-- Document order: an element comes before its descendants, and what is in an earlier child's tree
before what is in a later one's. -/
inductive Precedes : List Nat → List Nat → Prop
  | descendant (p : List Nat) (i : Nat) (is : List Nat) : Precedes p (p ++ i :: is)
  | sibling (p : List Nat) {i j : Nat} (less : i < j) (is js : List Nat) :
      Precedes (p ++ i :: is) (p ++ j :: js)

theorem Precedes.within {p q : List Nat} (h : Precedes p q) (i : Nat) :
    Precedes (i :: p) (i :: q) := by
  cases h with
  | descendant _ j js => exact .descendant (i :: p) j js
  | sibling r less js ks => exact .sibling (i :: r) less js ks

/-- Document order is the lexicographic order of addresses. -/
theorem precedes_iff_lt {p q : List Nat} : Precedes p q ↔ p < q := by
  constructor
  · intro h
    cases h with
    | descendant _ i is => simpa using List.append_left_lt (List.nil_lt_cons i is)
    | sibling r less is js => exact List.append_left_lt (List.Lex.rel less)
  · intro h
    induction h with
    | nil => exact .descendant [] _ _
    | rel less => exact .sibling [] less _ _
    | cons _ ih => exact ih.within _

/-- The elements with a property, with their addresses: each address once and in document order. -/
structure Listing (e : Element) (P : Element → Prop) (xs : List (List Nat × Element)) : Prop where
  complete : ∀ p x, (p, x) ∈ xs ↔ e.at? p = some x ∧ P x
  once : (xs.map Prod.fst).Nodup
  ordered : xs.Pairwise fun x y => Precedes x.1 y.1

mutual

/-- The elements of a tree with their addresses, in document order. -/
def located : Element → List (List Nat × Element)
  | ⟨tag, attributes, children, text, line⟩ =>
    ([], ⟨tag, attributes, children, text, line⟩) :: locatedFrom 0 children

/-- The elements in the trees of children whose indices count up from a number. -/
def locatedFrom (i : Nat) : List Element → List (List Nat × Element)
  | [] => []
  | e :: es => (located e).map (Prod.map (i :: ·) id) ++ locatedFrom (i + 1) es

end

theorem located_eq (e : Element) : located e = ([], e) :: locatedFrom 0 e.children := by
  cases e
  rfl

theorem mem_locatedFrom {i : Nat} {es : List Element} {p : List Nat} {x : Element} :
    (p, x) ∈ locatedFrom i es ↔
      ∃ j child is, es[j]? = some child ∧ p = (i + j) :: is ∧ (is, x) ∈ located child := by
  induction es generalizing i with
  | nil => simp [locatedFrom]
  | cons e es ih =>
    rw [locatedFrom, List.mem_append, List.mem_map, ih]
    constructor
    · rintro (⟨⟨is, x⟩, hx, heq⟩ | ⟨j, child, is, hchild, rfl, hx⟩)
      · cases heq
        exact ⟨0, e, is, rfl, rfl, hx⟩
      · exact ⟨j + 1, child, is, hchild, by rw [Nat.add_right_comm, Nat.add_assoc], hx⟩
    · rintro ⟨j, child, is, hchild, rfl, hx⟩
      cases j with
      | zero =>
        cases hchild
        exact .inl ⟨(is, x), hx, rfl⟩
      | succ j => exact .inr ⟨j, child, is, hchild, by rw [Nat.add_right_comm, Nat.add_assoc], hx⟩

theorem mem_located {e x : Element} {p : List Nat} : (p, x) ∈ located e ↔ e.at? p = some x := by
  -- along the address and not the tree: its first index says in which child's list to look on
  induction p generalizing e with
  | nil =>
    rw [located_eq, List.mem_cons, mem_locatedFrom]
    simp [at?, eq_comm]
  | cons i is ih =>
    rw [located_eq, List.mem_cons, mem_locatedFrom, at?, Option.bind_eq_some_iff]
    simp [ih]

mutual

theorem pairwise_located : ∀ e : Element, (located e).Pairwise fun x y => Precedes x.1 y.1
  | ⟨tag, attributes, children, text, line⟩ => by
    refine List.pairwise_cons.mpr ⟨fun ⟨p, x⟩ hx => ?_, pairwise_locatedFrom 0 children⟩
    obtain ⟨j, _, is, -, rfl, -⟩ := mem_locatedFrom.mp hx
    exact .descendant [] _ is

theorem pairwise_locatedFrom (i : Nat) :
    ∀ es : List Element, (locatedFrom i es).Pairwise fun x y => Precedes x.1 y.1
  | [] => .nil
  | e :: es => by
    refine List.pairwise_append.mpr
      ⟨List.pairwise_map.mpr ((pairwise_located e).imp fun h => h.within i),
        pairwise_locatedFrom (i + 1) es, fun x hx ⟨q, y⟩ hy => ?_⟩
    obtain ⟨⟨is, x⟩, -, rfl⟩ := List.mem_map.mp hx
    obtain ⟨j, _, js, -, rfl, -⟩ := mem_locatedFrom.mp hy
    exact .sibling [] (by omega) is js

end

mutual

theorem map_snd_located : ∀ e : Element, (located e).map Prod.snd = preorder e
  | ⟨tag, attributes, children, text, line⟩ => by
    rw [located, preorder, List.map_cons, map_snd_locatedFrom 0 children]

theorem map_snd_locatedFrom (i : Nat) :
    ∀ es : List Element, (locatedFrom i es).map Prod.snd = preorderAll es
  | [] => rfl
  | e :: es => by
    rw [locatedFrom, preorderAll, List.map_append, List.map_map,
      map_snd_locatedFrom (i + 1) es, ← map_snd_located e]
    rfl

end

theorem listing_located (e : Element) (P : Element → Prop) [DecidablePred P] :
    Listing e P ((located e).filter fun x => P x.2) where
  complete := by
    intro p x
    rw [List.mem_filter, mem_located, decide_eq_true_iff]
  once := by
    refine List.pairwise_map.mpr (((pairwise_located e).filter _).imp fun {x y} h heq => ?_)
    exact absurd (precedes_iff_lt.mp h) (heq ▸ lt_irrefl x.1)
  ordered := (pairwise_located e).filter _

/-! ### The loop of a walk -/

section

variable {β : Type} (side : Side) (f : β → Element → β)

/-- What a walk has gathered and what is on its stack after so many turns of its loop. -/
def turns : Nat → β → List Element → β × List Element
  | 0, b, pending => (b, pending)
  | _ + 1, b, [] => (b, [])
  | n + 1, b, e :: pending => turns n (f b e) (e.stacked side ++ pending)

/-- The elements that have been visited are the front of the trail, and the stack holds the rest. -/
theorem turns_trail (n : Nat) (b : β) (pending : List Element) :
    (turns side f n b pending).1 = ((trail side pending).take n).foldl f b ∧
      trail side (turns side f n b pending).2 = (trail side pending).drop n := by
  induction n generalizing b pending with
  | zero => exact ⟨rfl, rfl⟩
  | succ n ih =>
    cases pending with
    | nil => simp [turns, trail]
    | cons e pending =>
      -- the top of the stack is the next element of the trail
      rw [turns, trail]
      exact ih (f b e) (e.stacked side ++ pending)

theorem trail_eq_nil {pending : List Element} : trail side pending = [] ↔ pending = [] := by
  cases pending <;> simp [trail]

/-- The loop ends after exactly so many turns, and this is what it has gathered by then. -/
structure Ends (b : β) (pending : List Element) (n : Nat) (result : β) : Prop where
  ended : turns side f n b pending = (result, [])
  running : ∀ m < n, (turns side f m b pending).2 ≠ []

theorem ends_visit (b : β) (pending : List Element) :
    Ends side f b pending (sizeAll pending) (visit side f b pending) := by
  have hlength : (trail side pending).length = sizeAll pending :=
    (trail_perm side pending).length_eq.trans (length_preorderAll pending)
  have hstack : ∀ n, (turns side f n b pending).2 = [] ↔ sizeAll pending ≤ n := by
    intro n
    rw [← trail_eq_nil side, (turns_trail side f n b pending).2, List.drop_eq_nil_iff, hlength]
  refine ⟨Prod.ext ?_ ((hstack _).mpr (Nat.le_refl _)), fun m hm hnil => ?_⟩
  · rw [(turns_trail side f _ b pending).1, ← hlength, List.take_length, visit_eq_foldl]
  · exact Nat.not_le_of_lt hm ((hstack m).mp hnil)

end

/-- Looking for a tag gives what the recursion over the tree gives: the elements with that tag, each
once and in document order. Counting gives the size, the number of all addresses. Both loops take
one turn for each element and then end. -/
theorem walks_in_document_order (e : Element) (tag : String) :
    (e.findAll tag = collect tag e ∧ e.count = size e) ∧
    (∃ xs, Listing e (fun x => x.tag = tag) xs ∧ e.findAll tag = xs.map Prod.snd) ∧
    (∃ xs, Listing e (fun _ => True) xs ∧ e.count = xs.length) ∧
    Ends .left (fun found x => if x.tag = tag then x :: found else found) [] [e] (size e)
      (e.findAll tag).reverse ∧
    Ends .right (fun n _ => n + 1) 0 [e] (size e) e.count := by
  refine ⟨⟨findAll_eq_collect tag e, count_eq_size e⟩, ⟨_, listing_located e _, ?_⟩,
    ⟨_, listing_located e _, ?_⟩, ?_, ?_⟩
  · rw [findAll_eq_filter, ← map_snd_located, List.filter_map]
    rfl
  · rw [count_eq_length, ← map_snd_located, List.length_map]
    simp
  · rw [findAll, List.reverse_reverse]
    exact ends_visit .left _ [] [e]
  · exact ends_visit .right _ 0 [e]

end Premise.Element
