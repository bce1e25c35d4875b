import Premise.Proofs.ValueOrder
import Premise.Value.Equality

/-!
The equality of the expression language is a partial equivalence.

It asks three things, by the shapes of what it compares: numeric equality of two numbers, itself of
two lists element by element, and sameness in the order of values of everything else. The three do
not mix. What equals a number is a number, what equals a list is a list, and any other value equals
only itself; so symmetry and transitivity go through lists down to numbers (`equals_comm`,
`equals_trans`). Reflexivity fails where a NaN is compared with itself, which a set or an object
keeps from happening to what it holds (`equals_self_iff`).
-/

namespace Premise

namespace Number

variable {x y z : Number}

theorem beq_comm : (x == y) = (y == x) := by
  refine Bool.eq_iff_iff.mpr ?_
  rw [beq_iff, beq_iff, and_left_comm, @eq_comm _ (signedSize x)]

theorem beq_trans (h : (x == y) = true) (k : (y == z) = true) : (x == z) = true := by
  obtain ⟨hx, -, hxy⟩ := (beq_iff x y).mp h
  obtain ⟨-, hz, hyz⟩ := (beq_iff y z).mp k
  exact (beq_iff x z).mpr ⟨hx, hz, hxy.trans hyz⟩

theorem beq_self_iff : (x == x) = true ↔ x.isNaN = false := by
  rw [beq_iff]
  exact ⟨fun h => h.1, fun h => ⟨h, h, rfl⟩⟩

end Number

namespace Value

/-- The second value is an element of the first, or of a list that is. Sets, objects and graphs are
not looked into. -/
inductive ListHolds : Value → Value → Prop
  | element {items : List Value} {v : Value} (mem : v ∈ items) : ListHolds (.list items) v
  | deeper {items : List Value} {v w : Value} (mem : v ∈ items) (inner : ListHolds v w) :
      ListHolds (.list items) w

/-- Whether neither the value nor what lists in it hold is NaN. -/
def WithoutNaN (v : Value) : Prop := v.isNaN = false ∧ ∀ w, ListHolds v w → w.isNaN = false

theorem withoutNaN_list {items : List Value} :
    WithoutNaN (.list items) ↔ ∀ v ∈ items, WithoutNaN v := by
  constructor
  · rintro ⟨-, h⟩ v hv
    exact ⟨h v (.element hv), fun w hw => h w (.deeper hv hw)⟩
  · intro h
    refine ⟨rfl, fun w hw => ?_⟩
    cases hw with
    | element hmem => exact (h w hmem).1
    | deeper hmem hinner => exact (h _ hmem).2 w hinner

/-- Values that are no lists hold nothing through lists. -/
theorem withoutNaN_of_not_list {v : Value} (h : ∀ items, v ≠ .list items) :
    WithoutNaN v ↔ v.isNaN = false := by
  refine ⟨fun hv => hv.1, fun hv => ⟨hv, fun w hw => ?_⟩⟩
  cases hw with
  | element | deeper => exact absurd rfl (h _)

mutual

theorem equals_comm (v w : Value) : equals v w = equals w v := by
  cases v with
  | number x => cases w with
    | number y => exact Number.beq_comm
    | _ => exact BEq.comm
  | list vs => cases w with
    | list ws => exact equalsAll_comm vs ws
    | _ => exact BEq.comm
  | _ => cases w <;> exact BEq.comm

theorem equalsAll_comm (vs ws : List Value) : equalsAll vs ws = equalsAll ws vs := by
  match vs, ws with
  | [], [] => rfl
  | [], _ :: _ => rfl
  | _ :: _, [] => rfl
  | v :: vs, w :: ws => rw [equalsAll, equalsAll, equals_comm v w, equalsAll_comm vs ws]

end

mutual

theorem equals_trans {u v w : Value} (h : equals u v = true) (k : equals v w = true) :
    equals u w = true := by
  cases u with
  | number x => cases v with
    | number y => cases w with
      | number z => exact Number.beq_trans h k
      | _ => cases eq_of_beq k
    | _ => cases eq_of_beq h
  | list us => cases v with
    | list vs => cases w with
      | list ws =>
        have hall : equalsAll us vs = true := h
        exact equalsAll_trans hall k
      | _ => cases eq_of_beq k
    | _ => cases eq_of_beq h
  | _ =>
    rw [eq_of_beq h]
    exact k

theorem equalsAll_trans {us vs ws : List Value} (h : equalsAll us vs = true)
    (k : equalsAll vs ws = true) : equalsAll us ws = true := by
  match us, vs, ws with
  | [], [], _ => exact k
  | [], _ :: _, _ => cases h
  | _ :: _, [], _ => cases h
  | _ :: _, _ :: _, [] => cases k
  | u :: us, v :: vs, w :: ws =>
    obtain ⟨huv, hall⟩ := Bool.and_eq_true_iff.mp h
    obtain ⟨hvw, kall⟩ := Bool.and_eq_true_iff.mp k
    exact Bool.and_eq_true_iff.mpr ⟨equals_trans huv hvw, equalsAll_trans hall kall⟩

end

mutual

theorem equals_self_iff (v : Value) : equals v v = true ↔ WithoutNaN v := by
  cases v with
  | number x => exact Number.beq_self_iff.trans (Iff.symm (withoutNaN_of_not_list nofun))
  | list vs =>
    rw [withoutNaN_list]
    exact equalsAll_self_iff vs
  | _ => exact iff_of_true (beq_self_eq_true _) (Iff.mpr (withoutNaN_of_not_list nofun) rfl)

theorem equalsAll_self_iff (vs : List Value) :
    equalsAll vs vs = true ↔ ∀ v ∈ vs, WithoutNaN v := by
  match vs with
  | [] => exact iff_of_true rfl (fun _ hv => absurd hv List.not_mem_nil)
  | v :: vs =>
    rw [equalsAll, Bool.and_eq_true_iff, equals_self_iff v, equalsAll_self_iff vs,
      List.forall_mem_cons]

end

/-- The equality is symmetric and transitive; a value equals itself unless it is NaN or lists in it
hold a NaN; and where it does, it equals every value that is the same in the order. -/
theorem equals_partial_equivalence :
    (∀ v w : Value, v.equals w = w.equals v) ∧
    (∀ u v w : Value, u.equals v = true → v.equals w = true → u.equals w = true) ∧
    (∀ v : Value, v.equals v = true ↔
      v.isNaN = false ∧ ∀ w, ListHolds v w → w.isNaN = false) ∧
    ∀ v w : Value, (v == w) = true → v.equals v = true → v.equals w = true := by
  refine ⟨equals_comm, fun u v w => equals_trans, equals_self_iff, fun v w h hself => ?_⟩
  rw [← eq_of_beq h]
  exact hself

/-- A zero of either sign, next to a set that holds a NaN. A list that holds the NaN itself does not
equal itself. -/
theorem equals_partial_equivalence_zeros :
    let nan := Value.number (0.0 / 0.0)
    let pair := fun x => Value.list [.number x, .list [.set [nan]]]
    (pair 0.0).equals (pair (-0.0)) = true ∧ (pair (-0.0)).equals (pair 0.0) = true ∧
    (pair 0.0).equals (pair 0.0) = true ∧ ((pair 0.0) == (pair 0.0)) = true ∧
    ListHolds (pair 0.0) (.set [nan]) ∧ (Value.set [nan]).isNaN = false ∧
    (Value.list [.list [nan]]).equals (.list [.list [nan]]) = false := by
  intro nan pair
  obtain ⟨hcomm, htrans, hself, hsame⟩ := equals_partial_equivalence
  have hzeros : (pair 0.0).equals (pair (-0.0)) = true := by decide +kernel
  have hback : (pair (-0.0)).equals (pair 0.0) = true := (hcomm _ _).trans hzeros
  have hsquare : (pair 0.0).equals (pair 0.0) = true := htrans _ _ _ hzeros hback
  have hbeq : ((pair 0.0) == (pair 0.0)) = true := beq_self_eq_true _
  have hholds : ListHolds (pair 0.0) (.set [nan]) :=
    .deeper (List.mem_cons_of_mem _ (List.mem_singleton_self _)) (.element (.head _))
  refine ⟨hzeros, hback, hsame _ _ hbeq hsquare, hbeq, hholds,
    ((hself _).mp hsquare).2 _ hholds, ?_⟩
  rw [Bool.eq_false_iff, ne_eq, hself]
  exact fun h => Bool.noConfusion (h.2 nan (.deeper (.head _) (.element (.head _))))

end Value

end Premise
