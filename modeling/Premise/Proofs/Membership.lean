import Premise.Proofs.ValueOrder

/-!
What set algebra means for `in`.

Algebra keeps or drops an element by the order of values, and `in` looks for one by the equality of
the language. The two differ on zeros: 0 and −0 are two elements of a set, and each is found where
the other is. Where `in` takes an element of the one set and another element of the other set for
the value it looks for, an intersection or a difference tells them apart; elsewhere it cannot.
-/

namespace Premise.Value

mutual

/-- Whether a value is zero, of either sign, or a list that holds such a value. -/
def hasZero : Value → Bool
  | .number x => x == 0
  | .list items => anyHasZero items
  | _ => false

def anyHasZero : List Value → Bool
  | [] => false
  | v :: vs => hasZero v || anyHasZero vs

end

mutual

theorem eq_of_equals {v w : Value} (h : equals v w = true) (hzero : w.hasZero = false) :
    v = w := by
  cases v with
  | number x => cases w with
    | number y => rw [Number.eq_of_beq_of_ne_zero h hzero]
    | _ => exact eq_of_beq h
  | list vs => cases w with
    | list ws => rw [eq_of_equalsAll h hzero]
    | _ => exact eq_of_beq h
  | _ => exact eq_of_beq h

theorem eq_of_equalsAll {vs ws : List Value} (h : equalsAll vs ws = true)
    (hzero : anyHasZero ws = false) : vs = ws := by
  match vs, ws with
  | [], [] => rfl
  | [], _ :: _ => cases h
  | _ :: _, [] => cases h
  | v :: vs, w :: ws =>
    obtain ⟨hv, hvs⟩ := Bool.and_eq_true_iff.mp h
    obtain ⟨hw, hws⟩ := Bool.or_eq_false_iff.mp hzero
    rw [eq_of_equals hv hw, eq_of_equalsAll hvs hws]

end

/-- That a value is found in a collection. -/
def Holds (element collection : Value) : Prop :=
  membership element collection = ⟨.boolean true, none⟩

theorem holds_set {x : Value} {items : List Value} :
    Holds x (.set items) ↔ ∃ v ∈ items, v.equals x = true := by
  rw [← List.any_eq_true, Holds, membership]
  cases items.any fun v => v.equals x
  · exact iff_of_false nofun nofun
  · exact iff_of_true rfl rfl

/-- That a value is taken for two: for an element of one set, and for another one of another. -/
def Blurred (x : Value) (xs ys : List Value) : Prop :=
  ∃ v ∈ xs, ∃ w ∈ ys, v.equals x = true ∧ w.equals x = true ∧ v ≠ w

theorem hasZero_of_blurred {x : Value} {xs ys : List Value} (h : Blurred x xs ys) :
    x.hasZero = true := by
  obtain ⟨v, -, w, -, hv, hw, hne⟩ := h
  by_contra hzero
  rw [Bool.not_eq_true] at hzero
  exact hne ((eq_of_equals hv hzero).trans (eq_of_equals hw hzero).symm)

section

variable {x : Value} {xs ys : List Value}

theorem holds_union : Holds x (setOperation .union (.set xs) (.set ys)).value ↔
    Holds x (.set xs) ∨ Holds x (.set ys) := by
  simp only [setOperation, holds_set, mem_union]
  constructor
  · rintro ⟨v, hv | hv, hx⟩
    · exact .inl ⟨v, hv, hx⟩
    · exact .inr ⟨v, hv, hx⟩
  · rintro (⟨v, hv, hx⟩ | ⟨v, hv, hx⟩)
    · exact ⟨v, .inl hv, hx⟩
    · exact ⟨v, .inr hv, hx⟩

theorem holds_of_intersect (h : Holds x (setOperation .intersect (.set xs) (.set ys)).value) :
    Holds x (.set xs) ∧ Holds x (.set ys) := by
  simp only [setOperation, holds_set, mem_intersect] at h ⊢
  obtain ⟨v, ⟨hxs, hys⟩, hx⟩ := h
  exact ⟨⟨v, hxs, hx⟩, v, hys, hx⟩

theorem holds_intersect (h : ¬Blurred x xs ys) (hxs : Holds x (.set xs))
    (hys : Holds x (.set ys)) : Holds x (setOperation .intersect (.set xs) (.set ys)).value := by
  simp only [setOperation, holds_set, mem_intersect] at hxs hys ⊢
  obtain ⟨v, hv, hvx⟩ := hxs
  obtain ⟨w, hw, hwx⟩ := hys
  by_cases heq : v = w
  · exact ⟨v, ⟨hv, heq ▸ hw⟩, hvx⟩
  · exact absurd ⟨v, hv, w, hw, hvx, hwx, heq⟩ h

theorem holds_diff (hxs : Holds x (.set xs)) (hys : ¬Holds x (.set ys)) :
    Holds x (setOperation .diff (.set xs) (.set ys)).value := by
  simp only [setOperation, holds_set, mem_diff] at hxs hys ⊢
  obtain ⟨v, hv, hx⟩ := hxs
  exact ⟨v, ⟨hv, fun hys' => hys ⟨v, hys', hx⟩⟩, hx⟩

theorem holds_of_diff (h : Holds x (setOperation .diff (.set xs) (.set ys)).value) :
    Holds x (.set xs) ∧ (¬Blurred x xs ys → ¬Holds x (.set ys)) := by
  simp only [setOperation, holds_set, mem_diff] at h ⊢
  obtain ⟨v, ⟨hv, hnot⟩, hx⟩ := h
  refine ⟨⟨v, hv, hx⟩, ?_⟩
  rintro hclear ⟨w, hw, hwx⟩
  exact hclear ⟨v, hv, w, hw, hx, hwx, fun heq => hnot (heq ▸ hw)⟩

end

/-- A union holds what one of the sets holds. What an intersection holds, both sets hold, and what
the first set holds and the second does not, their difference holds. The converses are true of
every value that is not taken for two, as one without a zero never is. -/
theorem holds_setOperation (x : Value) (xs ys : List Value) :
    let result := fun op => (setOperation op (.set xs) (.set ys)).value
    (Holds x (result .union) ↔ Holds x (.set xs) ∨ Holds x (.set ys)) ∧
    (Holds x (result .intersect) → Holds x (.set xs) ∧ Holds x (.set ys)) ∧
    (Holds x (.set xs) ∧ ¬Holds x (.set ys) → Holds x (result .diff)) ∧
    (¬Blurred x xs ys →
      (Holds x (result .intersect) ↔ Holds x (.set xs) ∧ Holds x (.set ys)) ∧
      (Holds x (result .diff) ↔ Holds x (.set xs) ∧ ¬Holds x (.set ys))) ∧
    (Blurred x xs ys → x.hasZero = true) :=
  ⟨holds_union, holds_of_intersect, fun h => holds_diff h.1 h.2,
    fun hclear => ⟨⟨holds_of_intersect, fun h => holds_intersect hclear h.1 h.2⟩,
      fun h => ⟨(holds_of_diff h).1, (holds_of_diff h).2 hclear⟩, fun h => holds_diff h.1 h.2⟩,
    hasZero_of_blurred⟩

theorem holds_setOperation_nested :
    let one := Value.list [.number 1.0]
    let zero := Value.number 0.0
    let less := Value.number (-0.0)
    let result := fun op => (setOperation op (.set [less, zero, one]) (.set [less, one])).value
    Holds one (result .union) ∧ Holds one (result .intersect) ∧ ¬Holds one (result .diff) ∧
      Holds one (.set [less, zero, one]) ∧
      Holds zero (setOperation .diff (.set [zero]) (.set [one])).value ∧ zero.hasZero = true := by
  intro one zero less result
  have hfirst : Holds one (.set [less, zero, one]) := rfl
  have hsecond : Holds one (.set [less, one]) := rfl
  have hclear : ¬Blurred one [less, zero, one] [less, one] := by
    intro h
    cases hasZero_of_blurred h
  have hblurred : Blurred zero [zero] [less] :=
    ⟨zero, .head _, less, .head _, rfl, rfl, by decide⟩
  obtain ⟨hunion, hmeet, -, hexact, -⟩ := holds_setOperation one [less, zero, one] [less, one]
  obtain ⟨hintersect, hdiff⟩ := hexact hclear
  have hboth := hintersect.mpr ⟨hfirst, hsecond⟩
  have hrest := (holds_setOperation zero [zero] [one]).2.2.1 ⟨rfl, nofun⟩
  have hzero := (holds_setOperation zero [zero] [less]).2.2.2.2 hblurred
  exact ⟨hunion.mpr (.inl hfirst), hboth, fun h => (hdiff.mp h).2 hsecond, (hmeet hboth).1, hrest,
    hzero⟩

/-- Of 0 and −0 each is found where the other is, and neither is left by an intersection. -/
theorem zeros_not_combined : ¬∀ (x : Value) (xs ys : List Value), Ascending xs → Ascending ys →
    let result := fun op => (setOperation op (.set xs) (.set ys)).value
    (Holds x (result .union) ↔ Holds x (.set xs) ∨ Holds x (.set ys)) ∧
    (Holds x (result .intersect) ↔ Holds x (.set xs) ∧ Holds x (.set ys)) ∧
    (Holds x (result .diff) ↔ Holds x (.set xs) ∧ ¬Holds x (.set ys)) := by
  intro h
  obtain ⟨-, hintersect, -⟩ :=
    h (.number 0.0) [.number 0.0] [.number (-0.0)] (by decide) (by decide)
  cases hintersect.mpr ⟨rfl, rfl⟩

end Premise.Value
