import Premise.Element

/-!
Walks through a tree, as lists.

A walk comes to the elements in the order of its `trail`, so what it gathers is a fold over that
list. What it has not come to yet is the trail of the stack. From the left the trail is `preorder`,
and `findAll` a part of it; from the right it has the same elements, and `count` is their number.
-/

namespace Premise.Element

theorem preorder_eq (e : Element) : preorder e = e :: preorderAll e.children := by
  cases e
  rfl

theorem preorderAll_eq_flatMap (es : List Element) : preorderAll es = es.flatMap preorder := by
  induction es with
  | nil => rfl
  | cons e es ih => rw [preorderAll, ih, List.flatMap_cons]

theorem preorderAll_append (xs ys : List Element) :
    preorderAll (xs ++ ys) = preorderAll xs ++ preorderAll ys := by
  rw [preorderAll_eq_flatMap, List.flatMap_append, preorderAll_eq_flatMap, preorderAll_eq_flatMap]

theorem mem_preorderAll {x : Element} {es : List Element} :
    x ∈ preorderAll es ↔ ∃ e ∈ es, x ∈ preorder e := by
  rw [preorderAll_eq_flatMap, List.mem_flatMap]

theorem preorderAll_perm {xs ys : List Element} (h : xs.Perm ys) :
    (preorderAll xs).Perm (preorderAll ys) := by
  rw [preorderAll_eq_flatMap, preorderAll_eq_flatMap]
  exact h.flatMap_right preorder

/-- The elements that a walk comes to from a stack, in its order. -/
def trail (side : Side) : List Element → List Element
  | [] => []
  | e :: pending => e :: trail side (e.stacked side ++ pending)
termination_by pending => sizeAll pending
decreasing_by
  rw [sizeAll_stacked side e pending]
  exact Nat.lt_succ_self _

theorem visit_eq_foldl {β : Type} (side : Side) (f : β → Element → β) (b : β)
    (pending : List Element) : visit side f b pending = (trail side pending).foldl f b := by
  fun_induction visit side f b pending with
  | case1 b => rw [trail, List.foldl_nil]
  | case2 b e pending ih => rw [ih, trail, List.foldl_cons]

theorem trail_left (pending : List Element) : trail .left pending = preorderAll pending := by
  fun_induction trail .left pending with
  | case1 => rfl
  | case2 e pending ih =>
    rw [ih, preorderAll_append, preorderAll, preorder_eq]
    rfl

/-- From either side a walk comes to every element, and to each of them once. -/
theorem trail_perm (side : Side) (pending : List Element) :
    (trail side pending).Perm (preorderAll pending) := by
  fun_induction trail side pending with
  | case1 => exact .refl _
  | case2 e pending ih =>
    have hchildren := preorderAll_perm ((stacked_perm side e).append_right pending)
    rw [preorderAll, preorder_eq, List.cons_append, ← preorderAll_append]
    exact (ih.trans hchildren).cons e

theorem findAll_eq_filter (e : Element) (tag : String) :
    e.findAll tag = (preorder e).filter fun x => x.tag = tag := by
  have hgather : ∀ (xs found : List Element),
      (xs.foldl (fun found x => if x.tag = tag then x :: found else found) found).reverse =
        found.reverse ++ xs.filter fun x => x.tag = tag := by
    intro xs
    induction xs with
    | nil => exact fun found => (List.append_nil _).symm
    | cons x xs ih =>
      intro found
      rw [List.foldl_cons, ih]
      by_cases h : x.tag = tag
      · simp [h]
      · simp [h]
  rw [findAll, visit_eq_foldl, trail_left, hgather, preorderAll, preorderAll, List.append_nil]
  rfl

theorem count_eq_length (e : Element) : e.count = (preorder e).length := by
  rw [count, visit_eq_foldl, List.foldl_add_const, (trail_perm .right [e]).length_eq, preorderAll,
    preorderAll, List.append_nil, Nat.zero_add, Nat.one_mul]

/-- The elements with a tag among those of the trees, in document order. -/
def tagged (tag : String) (es : List Element) : List Element :=
  (preorderAll es).filter fun x => x.tag = tag

@[simp] theorem tagged_nil (tag : String) : tagged tag [] = [] := rfl

theorem tagged_append (tag : String) (xs ys : List Element) :
    tagged tag (xs ++ ys) = tagged tag xs ++ tagged tag ys := by
  unfold tagged
  rw [preorderAll_append, List.filter_append]

theorem tagged_cons (tag : String) (e : Element) (es : List Element) :
    tagged tag (e :: es) = e.findAll tag ++ tagged tag es := by
  rw [findAll_eq_filter]
  unfold tagged
  rw [preorderAll, List.filter_append]

theorem findAll_of_tag {e : Element} {tag : String} (h : e.tag = tag) :
    e.findAll tag = e :: tagged tag e.children := by
  rw [findAll_eq_filter, preorder_eq]
  exact List.filter_cons_of_pos (by simpa using h)

theorem findAll_of_ne {e : Element} {tag : String} (h : e.tag ≠ tag) :
    e.findAll tag = tagged tag e.children := by
  rw [findAll_eq_filter, preorder_eq]
  exact List.filter_cons_of_neg (by simpa using h)

theorem findAll_eq_append (e : Element) (tag : String) :
    e.findAll tag = (if e.tag = tag then [e] else []) ++ tagged tag e.children := by
  by_cases h : e.tag = tag
  · rw [findAll_of_tag h, if_pos h]
    rfl
  · rw [findAll_of_ne h, if_neg h]
    rfl

theorem tag_of_mem_findAll {e x : Element} {tag : String} (h : x ∈ e.findAll tag) :
    x.tag = tag := by
  rw [findAll_eq_filter] at h
  simpa using (List.mem_filter.mp h).2

end Premise.Element
