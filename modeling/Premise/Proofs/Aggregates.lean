import Premise.Proofs.Construct
import Premise.Proofs.Number

/-!
Aggregates over mixed collections.

An aggregate sees nothing of a collection but the numbers among its elements, NaN not among them
(`Value.numbers`). Minimum and maximum are folds that start from an infinity. A step of theirs
yields one of the two numbers it is given and never the worse of them, so of the seed and all
numbers the fold yields a best one (`Aggregate.Prefers.foldl`). No number is worse than the seed:
where the seed itself comes out, every number is as good as it is, and the result is still equal to
one of them.
-/

namespace Premise

/-! ### The numbers among values -/

namespace Value

/-- The numbers among values, in their order; NaN is none. -/
def numbers (items : List Value) : List Number :=
  (items.filterMap number?).filter fun x => !x.isNaN

/-- Whether a value is no number, or NaN. -/
def isSilent (v : Value) : Bool := v.number?.all Number.isNaN

theorem numbers_append (items others : List Value) :
    numbers (items ++ others) = numbers items ++ numbers others := by
  unfold numbers
  rw [List.filterMap_append, List.filter_append]

theorem numbers_of_silent {items : List Value} (h : ∀ v ∈ items, v.isSilent = true) :
    numbers items = [] := by
  refine List.filter_eq_nil_iff.mpr fun x hx => ?_
  obtain ⟨v, hv, hnumber⟩ := List.mem_filterMap.mp hx
  have hnan : x.isNaN = true := by simpa [isSilent, hnumber] using h v hv
  rw [hnan]
  decide

theorem isNaN_of_mem_numbers {items : List Value} {x : Number} (h : x ∈ numbers items) :
    x.isNaN = false := by
  simpa using (List.mem_filter.mp h).2

end Value

/-! ### The order of numbers -/

namespace Number

theorem le_iff (x y : Number) :
    x ≤ y ↔ x.isNaN = false ∧ y.isNaN = false ∧ signedSize x ≤ signedSize y := by
  show decide (Option.any (fun o => o.isLE)
    (x.toFloat.toModel.compare y.toFloat.toModel) = true) = true ↔ _
  rw [decide_eq_true_iff, compare_eq]
  cases x.isNaN <;> cases y.isNaN <;> simp [Std.isLE_compare]

theorem signedSize_infinity : signedSize infinity = 2047 * 2 ^ 52 := by decide

theorem signedSize_neg_infinity : signedSize (-infinity) = -(2047 * 2 ^ 52) := by decide

/-- The infinities are the ends of the order. -/
theorem signedSize_between_infinities {x : Number} (h : x.isNaN = false) :
    signedSize (-infinity) ≤ signedSize x ∧ signedSize x ≤ signedSize infinity := by
  rw [signedSize_infinity, signedSize_neg_infinity]
  exact signedSize_bounds x h

end Number

/-! ### Folds that look for the best -/

namespace Aggregate

open Number

/-- A choice that yields one of two numbers, of numbers apart from NaN none of greater size. -/
structure Prefers (size : Number → Int) (choose : Number → Number → Number) : Prop where
  eq_or_eq : ∀ x y, choose x y = x ∨ choose x y = y
  le_left : ∀ {x y}, x.isNaN = false → y.isNaN = false → size (choose x y) ≤ size x
  le_right : ∀ {x y}, x.isNaN = false → y.isNaN = false → size (choose x y) ≤ size y

namespace Prefers

variable {size : Number → Int} {choose : Number → Number → Number}

/-- Of a seed and numbers that a fold goes through it yields one of the least size. -/
theorem foldl (h : Prefers size choose) {seed : Number} {xs : List Number}
    (hseed : seed.isNaN = false) (hxs : ∀ x ∈ xs, x.isNaN = false) :
    xs.foldl choose seed ∈ seed :: xs ∧
      ∀ y ∈ seed :: xs, size (xs.foldl choose seed) ≤ size y := by
  induction xs generalizing seed with
  | nil => exact ⟨List.mem_singleton_self _, by simp⟩
  | cons x xs ih =>
    have hx := hxs x List.mem_cons_self
    have hnext : (choose seed x).isNaN = false := by
      rcases h.eq_or_eq seed x with heq | heq <;> rw [heq] <;> assumption
    obtain ⟨hmem, hle⟩ := ih hnext fun y hy => hxs y (List.mem_cons_of_mem x hy)
    refine ⟨?_, ?_⟩
    · rw [List.foldl_cons]
      rcases List.mem_cons.mp hmem with heq | hlater
      · rw [heq]
        rcases h.eq_or_eq seed x with heq | heq <;> simp [heq]
      · exact List.mem_cons_of_mem _ (List.mem_cons_of_mem _ hlater)
    · intro y hy
      have hfirst := hle _ List.mem_cons_self
      rcases List.mem_cons.mp hy with rfl | hy
      · exact le_trans hfirst (h.le_left hseed hx)
      rcases List.mem_cons.mp hy with rfl | hy
      · exact le_trans hfirst (h.le_right hseed hx)
      · exact hle y (List.mem_cons_of_mem _ hy)

/-- From a seed that no number is worse than, what comes out is as good as one of the numbers, also
where it is the seed. -/
theorem exists_eq_foldl (h : Prefers size choose) {seed : Number} {xs : List Number}
    (hseed : seed.isNaN = false) (hxs : ∀ x ∈ xs, x.isNaN = false)
    (hworst : ∀ x ∈ xs, size x ≤ size seed) (hne : xs ≠ []) :
    ∃ x ∈ xs, size (xs.foldl choose seed) = size x := by
  obtain ⟨hmem, hle⟩ := h.foldl hseed hxs
  rcases List.mem_cons.mp hmem with heq | hmem
  · obtain ⟨x, hx⟩ := List.exists_mem_of_ne_nil xs hne
    have hbest := hle x (List.mem_cons_of_mem _ hx)
    have hleast := hworst x hx
    rw [heq] at hbest ⊢
    exact ⟨x, hx, by omega⟩
  · exact ⟨_, hmem, rfl⟩

/-- What comes out is no NaN, as neither the seed nor one of the numbers is. -/
theorem isNaN_foldl (h : Prefers size choose) {seed : Number} {xs : List Number}
    (hseed : seed.isNaN = false) (hxs : ∀ x ∈ xs, x.isNaN = false) :
    (xs.foldl choose seed).isNaN = false := by
  rcases List.mem_cons.mp (h.foldl hseed hxs).1 with heq | hmem
  · rw [heq]
    exact hseed
  · exact hxs _ hmem

end Prefers

theorem prefers_lesser : Prefers signedSize lesser where
  eq_or_eq x y := by
    unfold lesser
    split_ifs <;> simp
  le_left {x y} hx hy := by
    rw [lesser, if_neg (by rw [hx]; decide)]
    split_ifs with hless
    · exact ((lt_iff y x).mp hless).2.2.le
    · exact le_rfl
  le_right {x y} hx hy := by
    rw [lesser, if_neg (by rw [hx]; decide)]
    split_ifs with hless
    · exact le_rfl
    · exact not_lt.mp fun h => hless ((lt_iff y x).mpr ⟨hy, hx, h⟩)

theorem prefers_greater : Prefers (fun x => -signedSize x) greater where
  eq_or_eq x y := by
    unfold greater
    split_ifs <;> simp
  le_left {x y} hx hy := by
    rw [greater, if_neg (by rw [hx]; decide)]
    split_ifs with hless
    · exact neg_le_neg ((lt_iff x y).mp hless).2.2.le
    · exact le_rfl
  le_right {x y} hx hy := by
    rw [greater, if_neg (by rw [hx]; decide)]
    split_ifs with hless
    · exact le_rfl
    · exact neg_le_neg (not_lt.mp fun h => hless ((lt_iff x y).mpr ⟨hx, hy, h⟩))

variable {xs : List Number} (hxs : ∀ x ∈ xs, x.isNaN = false)

include hxs

theorem apply_min (hne : xs ≠ []) : (min.apply xs).isNaN = false ∧
    (∃ x ∈ xs, (min.apply xs == x) = true) ∧ ∀ x ∈ xs, min.apply xs ≤ x := by
  have hseed : infinity.isNaN = false := by decide
  have hnan := prefers_lesser.isNaN_foldl hseed hxs
  refine ⟨hnan, ?_, fun x hx => ?_⟩
  · obtain ⟨x, hx, heq⟩ := prefers_lesser.exists_eq_foldl hseed hxs
      (fun x hx => (signedSize_between_infinities (hxs x hx)).2) hne
    exact ⟨x, hx, (beq_iff _ _).mpr ⟨hnan, hxs x hx, heq⟩⟩
  · have hleast := (prefers_lesser.foldl hseed hxs).2 x (List.mem_cons_of_mem _ hx)
    exact (le_iff _ _).mpr ⟨hnan, hxs x hx, hleast⟩

theorem apply_max (hne : xs ≠ []) : (max.apply xs).isNaN = false ∧
    (∃ x ∈ xs, (max.apply xs == x) = true) ∧ ∀ x ∈ xs, x ≤ max.apply xs := by
  have hseed : (-infinity).isNaN = false := by decide
  have hnan := prefers_greater.isNaN_foldl hseed hxs
  refine ⟨hnan, ?_, fun x hx => ?_⟩
  · obtain ⟨x, hx, heq⟩ := prefers_greater.exists_eq_foldl hseed hxs
      (fun x hx => neg_le_neg (signedSize_between_infinities (hxs x hx)).1) hne
    exact ⟨x, hx, (beq_iff _ _).mpr ⟨hnan, hxs x hx, neg_injective heq⟩⟩
  · have hgreatest := (prefers_greater.foldl hseed hxs).2 x (List.mem_cons_of_mem _ hx)
    exact (le_iff _ _).mpr ⟨hxs x hx, hnan, neg_le_neg_iff.mp hgreatest⟩

end Aggregate

/-! ### The construct -/

namespace Construct

variable {f : Frame} {e : Element} {a : Aggregate} {target : String} {items : List Value}

/-- The construct as a function of the numbers it sees. -/
theorem aggregate_of_binds (hfunction : e.trimmed? "function" = some a.name)
    (htarget : e.trimmed? "target" = some target) (hbound : f.Binds target items) :
    aggregate f e =
      if (Value.numbers items).isEmpty then .wrong (.noNumbers a.name target)
      else
        (Run.trace (.binding (a.name ++ "(" ++ target ++ ")")
          (.number (a.apply (Value.numbers items))))).andThen fun _ =>
            .value (.number (a.apply (Value.numbers items))) := by
  unfold aggregate
  rw [hfunction, htarget]
  simp only [Option.getD_some, Aggregate.ofName?_name, hbound.collection]
  rfl

/-- An aggregate sees the numbers of its target and nothing else. It fails if there are none.
Otherwise neither the frame nor what else is in the collection makes a difference, and of the
numbers themselves `count` yields how many there are, `min` and `max` one that no other is below or
above. -/
theorem aggregate_sees_numbers (hfunction : e.trimmed? "function" = some a.name)
    (htarget : e.trimmed? "target" = some target) (hbound : f.Binds target items) :
    ((∃ fault, (aggregate f e).outcome = .error fault) ↔ Value.numbers items = []) ∧
    (∀ g others, g.Binds target others → Value.numbers others = Value.numbers items →
      aggregate g e = aggregate f e) ∧
    (∀ g before silent after, items = before ++ silent ++ after →
      (∀ v ∈ silent, v.isSilent = true) → g.Binds target (before ++ after) →
        aggregate g e = aggregate f e) ∧
    (Value.numbers items ≠ [] → ∃ x, (aggregate f e).outcome = .ok (.number x) ∧
      x = a.apply (Value.numbers items) ∧
      (a = .count → x = Number.ofNat (Value.numbers items).length) ∧
      (a = .min → x.isNaN = false ∧ (∃ y ∈ Value.numbers items, (x == y) = true) ∧
        ∀ y ∈ Value.numbers items, x ≤ y) ∧
      (a = .max → x.isNaN = false ∧ (∃ y ∈ Value.numbers items, (x == y) = true) ∧
        ∀ y ∈ Value.numbers items, y ≤ x)) := by
  have hrun := aggregate_of_binds hfunction htarget hbound
  have hsame : ∀ g others, g.Binds target others → Value.numbers others = Value.numbers items →
      aggregate g e = aggregate f e := by
    intro g others hothers hnumbers
    rw [hrun, aggregate_of_binds hfunction htarget hothers, hnumbers]
  refine ⟨?_, hsame, ?_, ?_⟩
  · rw [hrun, ← List.isEmpty_iff]
    split_ifs with hempty
    · exact ⟨fun _ => hempty, fun _ => ⟨_, rfl⟩⟩
    · refine ⟨fun hfails => ?_, fun h => absurd h hempty⟩
      obtain ⟨_, hfault⟩ := hfails
      cases hfault
  · intro g before silent after hitems hsilent hothers
    refine hsame g _ hothers ?_
    rw [hitems, Value.numbers_append, Value.numbers_append, Value.numbers_append,
      Value.numbers_of_silent hsilent, List.append_nil]
  · intro hne
    have hnan : ∀ x ∈ Value.numbers items, x.isNaN = false := fun _ => Value.isNaN_of_mem_numbers
    rw [hrun, if_neg (by simpa using hne)]
    refine ⟨_, rfl, rfl, ?_, ?_, ?_⟩
    · rintro rfl
      rfl
    · rintro rfl
      exact Aggregate.apply_min hnan hne
    · rintro rfl
      exact Aggregate.apply_max hnan hne

/-- A list in which numbers, both infinities among them, stand between a text, NaN, a boolean and a
list; and a set of the numbers and null. -/
theorem aggregate_sees_numbers_mixed :
    let mixed : List Value := [.text "7", .number 3, .number Number.nan, .number Number.infinity,
      .boolean true, .number (-Number.infinity), .list [.number 0]]
    let few : List Value := [.null, .number 3, .number Number.infinity, .number (-Number.infinity)]
    let f : Frame := .ofDocument (.ofTable (.ofList [("mixed", .list mixed)])) none
    let g : Frame := .ofDocument (.ofTable (.ofList [("mixed", .set few)])) (some "a")
    let e := ((Element.leaf "aggregate").setAttribute "function" " min ").setAttribute
      "target" "mixed"
    Value.numbers mixed = [3, Number.infinity, -Number.infinity] ∧
      aggregate g e = aggregate f e ∧
      ∃ x, (aggregate f e).outcome = .ok (.number x) ∧ x.isNaN = false ∧
        (∃ y ∈ Value.numbers mixed, (x == y) = true) ∧ ∀ y ∈ Value.numbers mixed, x ≤ y := by
  intro mixed few f g e
  have hnumbers : Value.numbers mixed = [3, Number.infinity, -Number.infinity] := by rfl
  have hfunction : e.trimmed? "function" = some Aggregate.min.name := by decide
  have htarget : e.trimmed? "target" = some "mixed" := by decide
  have hbound : f.Binds "mixed" mixed := .inl rfl
  have hbound' : g.Binds "mixed" few := .inr rfl
  obtain ⟨-, hsame, -, hvalue⟩ := aggregate_sees_numbers hfunction htarget hbound
  obtain ⟨x, hx, -, -, hmin, -⟩ := hvalue (by rw [hnumbers]; simp)
  exact ⟨hnumbers, hsame g few hbound' rfl, x, hx, hmin rfl⟩

end Construct

end Premise
