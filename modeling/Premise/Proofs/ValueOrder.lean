import Premise.Proofs.Number
import Premise.Value.Membership

/-!
The order of values is total, and lets no two values be the same that differ.

Values of different shapes are ordered by rank, so everything else is about two values of one shape:
there the order is that of the contents, lexicographically down to numbers, texts and graphs. What
sets are built by keeps their elements ascending and leaves out only what is there already.
-/

namespace Premise

/-- Things are in order by one of their parts and, where it is the same, by another. -/
theorem transCmp_by {α β γ : Type} (f : α → β) (cmp : β → β → Ordering) [Std.TransCmp cmp]
    (g : α → γ) (cmp' : γ → γ → Ordering) [Std.TransCmp cmp'] :
    Std.TransCmp fun a b => (cmp (f a) (f b)).then (cmp' (g a) (g b)) :=
  have : Std.TransCmp fun a b => cmp (f a) (f b) :=
    { eq_swap := Std.OrientedCmp.eq_swap, isLE_trans := Std.TransCmp.isLE_trans }
  have : Std.TransCmp fun a b => cmp' (g a) (g b) :=
    { eq_swap := Std.OrientedCmp.eq_swap, isLE_trans := Std.TransCmp.isLE_trans }
  inferInstanceAs (Std.TransCmp
    (compareLex (fun a b => cmp (f a) (f b)) fun a b => cmp' (g a) (g b)))

namespace Graph

instance : Std.TransCmp compareTargets := transCmp_by Prod.fst Ord.compare Prod.snd Ord.compare

instance : Std.LawfulEqCmp compareTargets where
  eq_of_compare {a b} h := by
    obtain ⟨hlabel, htarget⟩ := Ordering.then_eq_eq.mp h
    exact Prod.ext (Std.LawfulEqOrd.eq_of_compare hlabel) (Std.LawfulEqOrd.eq_of_compare htarget)

instance : Std.TransCmp compareSources :=
  transCmp_by Prod.fst Ord.compare (fun a : String × Table String => a.2.toList)
    (List.compareLex compareTargets)

theorem eq_of_toList {α : Type} {s t : Table α} (h : s.toList = t.toList) : s = t := by
  obtain ⟨es, hes⟩ := s
  obtain ⟨fs, hfs⟩ := t
  cases (h : es = fs)
  rfl

theorem eq_of_names {s t : NameSet} (h : s.names = t.names) : s = t := by
  have hmap : s.toList.map Prod.fst = t.toList.map Prod.fst := h
  refine eq_of_toList ((List.map_inj_right fun a b hab => Prod.ext hab rfl).mp hmap)

instance : Std.LawfulEqCmp compareSources where
  eq_of_compare {a b} h := by
    obtain ⟨hsource, hedges⟩ := Ordering.then_eq_eq.mp h
    have hlist : a.2.toList = b.2.toList := Std.LawfulEqCmp.eq_of_compare hedges
    exact Prod.ext (Std.LawfulEqOrd.eq_of_compare hsource) (eq_of_toList hlist)

instance : Std.TransCmp Graph.compare :=
  transCmp_by (fun g : Graph => g.nodes.names) (List.compareLex Ord.compare)
    (fun g : Graph => g.edges.toList) (List.compareLex compareSources)

instance : Std.LawfulEqCmp Graph.compare where
  eq_of_compare {g k} h := by
    obtain ⟨hnodes, hedges⟩ := Ordering.then_eq_eq.mp h
    have hnames : g.nodes.names = k.nodes.names := Std.LawfulEqCmp.eq_of_compare hnodes
    have hlist : g.edges.toList = k.edges.toList := Std.LawfulEqCmp.eq_of_compare hedges
    cases g
    cases k
    cases eq_of_names hnames
    cases eq_of_toList hlist
    rfl

end Graph

namespace Value

theorem compare_of_rank_ne {v w : Value} (h : v.rank ≠ w.rank) :
    compare v w = Ord.compare v.rank w.rank := by
  cases v <;> cases w <;> first | rfl | exact absurd rfl h

mutual

theorem compare_swap (v w : Value) : compare v w = (compare w v).swap := by
  cases v with
  | null => cases w <;> rfl
  | boolean b => cases w with
    | boolean c => exact Std.OrientedOrd.eq_swap
    | _ => rfl
  | number x => cases w with
    | number y => exact @Std.OrientedCmp.eq_swap _ Number.compareTotal _ x y
    | _ => rfl
  | text s => cases w with
    | text t => exact Std.OrientedOrd.eq_swap
    | _ => rfl
  | list vs => cases w with
    | list ws => exact compareAll_swap vs ws
    | _ => rfl
  | set vs => cases w with
    | set ws => exact compareAll_swap vs ws
    | _ => rfl
  | object fs => cases w with
    | object gs => exact compareFields_swap fs gs
    | _ => rfl
  | graph g => cases w with
    | graph k => exact @Std.OrientedCmp.eq_swap _ Graph.compare _ g k
    | _ => rfl
  | error s => cases w with
    | error t => exact Std.OrientedOrd.eq_swap
    | _ => rfl

theorem compareAll_swap (vs ws : List Value) : compareAll vs ws = (compareAll ws vs).swap := by
  cases vs with
  | nil => cases ws <;> rfl
  | cons v vs => cases ws with
    | nil => rfl
    | cons w ws =>
      rw [compareAll, compareAll, Ordering.swap_then, ← compare_swap v w, ← compareAll_swap vs ws]

theorem compareFields_swap (fs gs : List (String × Value)) :
    compareFields fs gs = (compareFields gs fs).swap := by
  match fs, gs with
  | [], [] => rfl
  | [], _ :: _ => rfl
  | _ :: _, [] => rfl
  | (m, v) :: fs, (n, w) :: gs =>
    rw [compareFields, compareFields, Ordering.swap_then, Ordering.swap_then, ← compare_swap v w,
      ← compareFields_swap fs gs, ← Std.OrientedOrd.eq_swap (a := m) (b := n)]

end

mutual

theorem eq_of_compare {v w : Value} (h : compare v w = .eq) : v = w := by
  cases v with
  | null => cases w with
    | null => rfl
    | _ => cases h
  | boolean b => cases w with
    | boolean c => rw [Std.LawfulEqOrd.eq_of_compare (show Ord.compare b c = .eq from h)]
    | _ => cases h
  | number x => cases w with
    | number y => rw [Std.LawfulEqCmp.eq_of_compare (show Number.compareTotal x y = .eq from h)]
    | _ => cases h
  | text s => cases w with
    | text t => rw [Std.LawfulEqOrd.eq_of_compare (show Ord.compare s t = .eq from h)]
    | _ => cases h
  | list vs => cases w with
    | list ws => rw [eq_of_compareAll (show compareAll vs ws = .eq from h)]
    | _ => cases h
  | set vs => cases w with
    | set ws => rw [eq_of_compareAll (show compareAll vs ws = .eq from h)]
    | _ => cases h
  | object fs => cases w with
    | object gs => rw [eq_of_compareFields (show compareFields fs gs = .eq from h)]
    | _ => cases h
  | graph g => cases w with
    | graph k => rw [Std.LawfulEqCmp.eq_of_compare (show g.compare k = .eq from h)]
    | _ => cases h
  | error s => cases w with
    | error t => rw [Std.LawfulEqOrd.eq_of_compare (show Ord.compare s t = .eq from h)]
    | _ => cases h

theorem eq_of_compareAll {vs ws : List Value} (h : compareAll vs ws = .eq) : vs = ws := by
  match vs, ws with
  | [], [] => rfl
  | [], _ :: _ => cases h
  | _ :: _, [] => cases h
  | v :: vs, w :: ws =>
    obtain ⟨hv, hvs⟩ := Ordering.then_eq_eq.mp h
    rw [eq_of_compare hv, eq_of_compareAll hvs]

theorem eq_of_compareFields {fs gs : List (String × Value)} (h : compareFields fs gs = .eq) :
    fs = gs := by
  match fs, gs with
  | [], [] => rfl
  | [], _ :: _ => cases h
  | _ :: _, [] => cases h
  | (m, v) :: fs, (n, w) :: gs =>
    obtain ⟨hfield, hfs⟩ := Ordering.then_eq_eq.mp h
    obtain ⟨hname, hv⟩ := Ordering.then_eq_eq.mp hfield
    rw [Std.LawfulEqOrd.eq_of_compare hname, eq_of_compare hv, eq_of_compareFields hfs]

end

theorem rank_le_of_compare {v w : Value} (h : compare v w = .lt) : v.rank ≤ w.rank := by
  by_cases hrank : v.rank = w.rank
  · exact Nat.le_of_eq hrank
  · rw [compare_of_rank_ne hrank] at h
    exact Nat.le_of_lt (Nat.compare_eq_lt.mp h)

theorem then_lt_trans {α β : Type} {cmp : α → α → Ordering} {cmp' : β → β → Ordering}
    (lawful : ∀ {a b : α}, cmp a b = .eq → a = b) {a b c : α} {x y z : β}
    (trans : cmp a b = .lt → cmp b c = .lt → cmp a c = .lt)
    (trans' : cmp' x y = .lt → cmp' y z = .lt → cmp' x z = .lt)
    (h : (cmp a b).then (cmp' x y) = .lt) (k : (cmp b c).then (cmp' y z) = .lt) :
    (cmp a c).then (cmp' x z) = .lt := by
  refine Ordering.then_eq_lt.mpr ?_
  rcases Ordering.then_eq_lt.mp h with hlt | ⟨heq, hlt⟩
  · rcases Ordering.then_eq_lt.mp k with klt | ⟨keq, -⟩
    · exact .inl (trans hlt klt)
    · rw [← lawful keq]
      exact .inl hlt
  · rw [lawful heq]
    rcases Ordering.then_eq_lt.mp k with klt | ⟨keq, klt⟩
    · exact .inl klt
    · exact .inr ⟨keq, trans' hlt klt⟩

/-- Fields are compared by their names first. -/
def compareField (a b : String × Value) : Ordering := (Ord.compare a.1 b.1).then (compare a.2 b.2)

theorem eq_of_compareField {a b : String × Value} (h : compareField a b = .eq) : a = b := by
  obtain ⟨hname, hvalue⟩ := Ordering.then_eq_eq.mp h
  exact Prod.ext (Std.LawfulEqOrd.eq_of_compare hname) (eq_of_compare hvalue)

mutual

theorem compare_trans {u v w : Value} (h : compare u v = .lt) (k : compare v w = .lt) :
    compare u w = .lt := by
  have huv := rank_le_of_compare h
  have hvw := rank_le_of_compare k
  by_cases hrank : u.rank = w.rank
  case neg =>
    rw [compare_of_rank_ne hrank]
    exact Nat.compare_eq_lt.mpr (by omega)
  have hv : v.rank = u.rank := by omega
  cases u with
  | null => cases v with
    | null => cases h
    | _ => cases hv
  | boolean a => cases v with
    | boolean b => cases w with
      | boolean c => exact @Std.TransCmp.lt_trans _ Ord.compare _ a b c h k
      | _ => cases hrank
    | _ => cases hv
  | number x => cases v with
    | number y => cases w with
      | number z => exact @Std.TransCmp.lt_trans _ Number.compareTotal _ x y z h k
      | _ => cases hrank
    | _ => cases hv
  | text r => cases v with
    | text s => cases w with
      | text t => exact @Std.TransCmp.lt_trans _ Ord.compare _ r s t h k
      | _ => cases hrank
    | _ => cases hv
  | list us => cases v with
    | list vs => cases w with
      | list ws => exact @compareAll_trans us vs ws h k
      | _ => cases hrank
    | _ => cases hv
  | set us => cases v with
    | set vs => cases w with
      | set ws => exact @compareAll_trans us vs ws h k
      | _ => cases hrank
    | _ => cases hv
  | object fs => cases v with
    | object gs => cases w with
      | object hs => exact @compareFields_trans fs gs hs h k
      | _ => cases hrank
    | _ => cases hv
  | graph g => cases v with
    | graph g' => cases w with
      | graph g'' => exact @Std.TransCmp.lt_trans _ Graph.compare _ g g' g'' h k
      | _ => cases hrank
    | _ => cases hv
  | error r => cases v with
    | error s => cases w with
      | error t => exact @Std.TransCmp.lt_trans _ Ord.compare _ r s t h k
      | _ => cases hrank
    | _ => cases hv

theorem compareAll_trans {us vs ws : List Value} (h : compareAll us vs = .lt)
    (k : compareAll vs ws = .lt) : compareAll us ws = .lt := by
  match us, vs, ws with
  | _, [], [] => cases k
  | [], [], _ :: _ => rfl
  | [], _ :: _, [] => cases k
  | [], _ :: _, _ :: _ => rfl
  | _ :: _, [], _ :: _ => cases h
  | _ :: _, _ :: _, [] => cases k
  | u :: us, v :: vs, w :: ws =>
    exact then_lt_trans eq_of_compare compare_trans compareAll_trans h k

theorem compareFields_trans {fs gs hs : List (String × Value)} (h : compareFields fs gs = .lt)
    (k : compareFields gs hs = .lt) : compareFields fs hs = .lt := by
  match fs, gs, hs with
  | _, [], [] => cases k
  | [], [], _ :: _ => rfl
  | [], _ :: _, [] => cases k
  | [], _ :: _, _ :: _ => rfl
  | _ :: _, [], _ :: _ => cases h
  | _ :: _, _ :: _, [] => cases k
  | (l, u) :: fs, (m, v) :: gs, (n, w) :: hs =>
    have hfield : compareField (l, u) (m, v) = .lt → compareField (m, v) (n, w) = .lt →
        compareField (l, u) (n, w) = .lt :=
      then_lt_trans Std.LawfulEqOrd.eq_of_compare Std.TransCmp.lt_trans compare_trans
    exact @then_lt_trans _ _ compareField compareFields eq_of_compareField (l, u) (m, v) (n, w)
      fs gs hs hfield compareFields_trans h k

end

/-! ### Elements of sets -/

instance (items : List Value) : Decidable (Ascending items) :=
  inferInstanceAs (Decidable (items.Pairwise fun v w => compare v w = .lt))

instance : Std.TransCmp compare where
  eq_swap {v w} := compare_swap v w
  isLE_trans {u v w} h k := by
    cases huv : compare u v with
    | gt => rw [huv] at h; cases h
    | eq => rwa [eq_of_compare huv]
    | lt =>
      cases hvw : compare v w with
      | gt => rw [hvw] at k; cases k
      | eq => rwa [← eq_of_compare hvw]
      | lt => rw [compare_trans huv hvw]; rfl

instance : Std.LawfulEqCmp compare where
  eq_of_compare := eq_of_compare

instance : LawfulBEq Value where
  rfl {v} := by
    show (compare v v == .eq) = true
    rw [show compare v v = .eq from Std.ReflCmp.compare_self]
    rfl
  eq_of_beq {v w} h := eq_of_compare (eq_of_beq (show (compare v w == .eq) = true from h))

instance : DecidableEq Value := fun v w => decidable_of_iff ((v == w) = true) beq_iff_eq

theorem mem_insertElement {items : List Value} {v w : Value} :
    w ∈ insertElement items v ↔ w = v ∨ w ∈ items := by
  induction items with
  | nil => simp [insertElement]
  | cons u us ih =>
    rw [insertElement]
    split
    · exact List.mem_cons
    · rename_i h
      rw [eq_of_compare h, List.mem_cons, ← or_assoc, or_self]
    · rw [List.mem_cons, ih, List.mem_cons, or_left_comm]

theorem ascending_insertElement {items : List Value} (h : Ascending items) (v : Value) :
    Ascending (insertElement items v) := by
  induction items with
  | nil => exact List.pairwise_singleton _ v
  | cons u us ih =>
    obtain ⟨hu, hus⟩ := List.pairwise_cons.mp h
    rw [insertElement]
    split
    · rename_i hlt
      refine List.pairwise_cons.mpr ⟨fun w hw => ?_, h⟩
      rcases List.mem_cons.mp hw with rfl | hw
      · exact hlt
      · exact compare_trans hlt (hu w hw)
    · exact h
    · rename_i hgt
      refine List.pairwise_cons.mpr ⟨fun w hw => ?_, ih hus⟩
      rcases mem_insertElement.mp hw with rfl | hw
      · exact Std.OrientedCmp.lt_of_gt hgt
      · exact hu w hw

theorem mem_foldl_insertElement {items vs : List Value} {w : Value} :
    w ∈ vs.foldl insertElement items ↔ w ∈ items ∨ w ∈ vs := by
  induction vs generalizing items with
  | nil => simp
  | cons v vs ih =>
    rw [List.foldl_cons, ih, mem_insertElement, List.mem_cons, or_assoc, or_left_comm]

theorem ascending_foldl_insertElement {items : List Value} (h : Ascending items)
    (vs : List Value) : Ascending (vs.foldl insertElement items) := by
  induction vs generalizing items with
  | nil => exact h
  | cons v vs ih => exact ih (ascending_insertElement h v)

theorem ascending_sortedElements (vs : List Value) : Ascending (sortedElements vs) :=
  ascending_foldl_insertElement .nil vs

theorem mem_sortedElements {vs : List Value} {v : Value} : v ∈ sortedElements vs ↔ v ∈ vs := by
  rw [sortedElements, mem_foldl_insertElement]
  simp

theorem occursIn_iff {v : Value} {items : List Value} : occursIn v items = true ↔ v ∈ items := by
  rw [occursIn, List.any_eq_true]
  constructor
  · rintro ⟨w, hw, heq⟩
    rwa [← eq_of_beq heq]
  · exact fun hv => ⟨v, hv, beq_self_eq_true v⟩

theorem mem_union {xs ys : List Value} {v : Value} :
    v ∈ combine .union xs ys ↔ v ∈ xs ∨ v ∈ ys := mem_foldl_insertElement

theorem mem_intersect {xs ys : List Value} {v : Value} :
    v ∈ combine .intersect xs ys ↔ v ∈ xs ∧ v ∈ ys := by
  rw [combine, List.mem_filter, occursIn_iff]

theorem mem_diff {xs ys : List Value} {v : Value} :
    v ∈ combine .diff xs ys ↔ v ∈ xs ∧ v ∉ ys := by
  rw [combine, List.mem_filter, Bool.not_eq_true', ← Bool.not_eq_true, occursIn_iff]

theorem ascending_combine {xs : List Value} (h : Ascending xs) (op : SetOperator)
    (ys : List Value) : Ascending (combine op xs ys) := by
  cases op with
  | union => exact ascending_foldl_insertElement h ys
  | intersect | diff => exact List.Pairwise.filter _ h

/-- The order of values is total, two values of it are the same only if they are one value, and so
sets hold each of the values put into them once. -/
theorem compare_total :
    (∀ v w : Value, compare v w = (compare w v).swap) ∧
    (∀ u v w : Value, (compare u v).isLE = true → (compare v w).isLE = true →
      (compare u w).isLE = true ∧
        (compare u w = .eq → compare u v = .eq ∧ compare v w = .eq)) ∧
    (∀ v w : Value, compare v w = .eq ↔ v = w) ∧
    (∀ x y : Number, compare (.number x) (.number y) = .lt ↔
      x < y ∨ (x == y ∧ Number.signBit x = true ∧ Number.signBit y = false) ∨
        (Number.isNaNBelow x = true ∧ Number.isNaNBelow y = false) ∨
        (Number.isNaNAbove x = false ∧ Number.isNaNAbove y = true) ∨
        (Number.isNaNBelow x = true ∧ Number.isNaNBelow y = true ∧
          Number.fractionField y < Number.fractionField x) ∨
        (Number.isNaNAbove x = true ∧ Number.isNaNAbove y = true ∧
          Number.fractionField x < Number.fractionField y)) ∧
    (∀ vs v, Ascending vs → Ascending (insertElement vs v) ∧
      ∀ w, w ∈ insertElement vs v ↔ w = v ∨ w ∈ vs) ∧
    (∀ vs, Ascending (sortedElements vs) ∧ ∀ w, w ∈ sortedElements vs ↔ w ∈ vs) ∧
    (∀ op xs ys, Ascending xs → Ascending (combine op xs ys) ∧
      ∀ w, w ∈ combine op xs ys ↔ match op with
        | .union => w ∈ xs ∨ w ∈ ys
        | .intersect => w ∈ xs ∧ w ∈ ys
        | .diff => w ∈ xs ∧ w ∉ ys) := by
  refine ⟨compare_swap, fun u v w huv hvw => ⟨Std.TransCmp.isLE_trans huv hvw, fun huw => ?_⟩,
    fun v w => Std.LawfulEqCmp.compare_eq_iff_eq, Number.compareTotal_eq_lt_iff,
    fun vs v h => ⟨ascending_insertElement h v, fun w => mem_insertElement⟩,
    fun vs => ⟨ascending_foldl_insertElement .nil vs, fun w => ?_⟩,
    fun op xs ys h => ⟨ascending_combine h op ys, fun w => ?_⟩⟩
  · cases eq_of_compare huw
    have heq : compare u v = .eq := by
      rw [compare_swap v u, Ordering.isLE_swap] at hvw
      exact Ordering.isLE_iff_eq_lt_or_eq_eq.mp huv |>.resolve_left fun h => by simp [h] at hvw
    exact ⟨heq, by rw [compare_swap, heq]; rfl⟩
  · rw [sortedElements, mem_foldl_insertElement]
    simp
  · cases op with
    | union => exact mem_union
    | intersect => exact mem_intersect
    | diff => exact mem_diff

theorem compare_total_zeros_nan :
    let below := Value.list [.number (-Number.nan), .null]
    let less := Value.list [.number (-0.0), .null]
    let zero := Value.list [.number 0.0]
    let above := Value.list [.number Number.nan]
    let beyond := Value.list [.number ⟨Number.nan.bits + 1⟩]
    (compare below less).isLE = true ∧ (compare less zero).isLE = true ∧
      (compare below zero).isLE = true ∧ (compare zero above).isLE = true ∧
      (compare above beyond).isLE = true ∧ (compare zero beyond).isLE = true ∧
      compare zero zero = .eq ∧ Ascending [below, less, zero] ∧
      Ascending (insertElement [below, less, zero] beyond) ∧
      Ascending (combine .union [below, less, zero] [above, beyond, below]) :=
  ⟨by decide, by decide,
    (compare_total.2.1 _ (.list [.number (-0.0), .null]) _ (by decide) (by decide)).1,
    by decide, by decide,
    (compare_total.2.1 _ (.list [.number Number.nan]) _ (by decide) (by decide)).1,
    ((compare_total.2.1 _ (.list [.number 0.0]) (.list [.number 0.0]) (by decide)
      (by decide)).2 (by decide)).1,
    by decide, (compare_total.2.2.2.2.1 _ _ (by decide)).1,
    (compare_total.2.2.2.2.2.2 _ _ _ (by decide)).1⟩

end Value

end Premise
