import Premise.Proofs.Declarations
import Premise.Proofs.ValueOrder
import Premise.Symbol.Override

/-!
Overrides read a text as declarations do.

A declaration and an override take the same text apart into the same literal, and part ways where
it is no value by itself: the declaration reports a number it cannot read and a name it does not
know, and a value whose shape is not the declared one; the override refuses numbers and booleans it
cannot read, and takes any other text for itself. So whatever is declared without a fault the
override reads as the same value.
-/

namespace Premise

namespace Symbol

variable {s : Surroundings} {e : Element} {expected : Shape} {name raw : String} {n : Noted}
  {d : Declared}

/-- The value of the symbol that a reference means. -/
def Surroundings.value? (s : Surroundings) (reference : String) : Option Value :=
  (s.lookup? reference).map Symbol.value

/-- Text that nothing else is known of is fine as a value where neither a number nor a boolean is
expected. -/
theorem overrideText_of_ne {content : String} (hnumber : expected ≠ .number)
    (hboolean : expected ≠ .boolean) : overrideText expected content = .ok (.text content) := by
  unfold overrideText
  split
  · exact absurd rfl hnumber
  · exact absurd rfl hboolean
  · rfl

/-- What is left to report of a value is its shape. -/
theorem accepts_of_mismatch_eq_nil (h : mismatch name expected n = []) :
    n.failedNumber = true ∨ n.value.isNull = true ∨ expected.accepts n.value = true := by
  unfold mismatch at h
  split at h
  · rename_i hor
    rw [Bool.or_eq_true, Bool.or_eq_true, or_assoc] at hor
    exact hor
  · cases h

theorem override_of_scalar (h : scalar s name expected raw = .ok n) (herrors : n.errors = [])
    (hmismatch : mismatch name expected n = []) :
    override expected s.value? raw = .ok n.value := by
  unfold scalar Meaning.ofLiteral at h
  unfold override
  cases hliteral : Literal.classify raw with
  | quoted content | boolean b | number x =>
    rw [hliteral] at h
    cases h
    rfl
  | reference reference =>
    rw [hliteral] at h
    cases hlookup : s.lookup? reference with
    | none =>
      simp only [hlookup] at h
      cases h
    | some found =>
      have hvalue : s.value? reference = some found.value := by
        rw [Surroundings.value?, hlookup]
        rfl
      simp only [hlookup] at h
      split at h
      · cases h
      · cases h
        simp only [hvalue]
  | bare content =>
    rw [hliteral] at h
    simp only at h ⊢
    by_cases hnumber : expected = .number
    · rw [if_pos hnumber] at h
      cases h
      cases herrors
    · rw [if_neg hnumber] at h
      cases h
      refine overrideText_of_ne hnumber ?_
      -- text is no boolean, and that has not been reported
      rintro rfl
      rcases accepts_of_mismatch_eq_nil hmismatch with h | h | h <;> cases h

theorem override_of_declare (hvar : e.tag = SymbolKind.var.tag)
    (hraw : e.attribute? "init" = some raw) (h : declare s e = .ok d) (herrors : d.errors = []) :
    override d.symbol.shape s.value? raw = .ok d.symbol.value := by
  obtain ⟨short, kind, declared, n, -, -, hkind, -, hvalue, rfl⟩ := declare_eq_ok h
  rw [hvar, SymbolKind.ofTag?_tag] at hkind
  cases hkind
  have hinit : e.attributeOrContent? ["init", "value"] = some raw := by
    simp [Element.attributeOrContent?, hraw]
  simp only [valueOf, hinit] at hvalue
  obtain ⟨hnoted, hmismatch⟩ := List.append_eq_nil_iff.mp herrors
  exact override_of_scalar hvalue hnoted hmismatch

/-- The shape of a declared symbol is the one that is written, and any shape where none is. -/
theorem shape_of_declare (hvar : e.tag = SymbolKind.var.tag) (h : declare s e = .ok d)
    (hshape : (e.attribute? "type").bind Text.nonBlank? = some expected.name ∨
      (expected = .any ∧ (e.attribute? "type").bind Text.nonBlank? = none)) :
    d.symbol.shape = expected := by
  obtain ⟨short, kind, declared, n, -, -, hkind, hdeclared, -, rfl⟩ := declare_eq_ok h
  rw [hvar, SymbolKind.ofTag?_tag] at hkind
  cases hkind
  show declared.getD .any = expected
  unfold declaredShape at hdeclared
  rcases hshape with hwritten | ⟨rfl, hnone⟩
  · simp only [hwritten, Shape.ofName?_name] at hdeclared
    cases hdeclared
    rfl
  · simp only [hnone] at hdeclared
    cases hdeclared
    rfl

end Symbol

namespace Element

/-- The element declares a variable of that shape with that text as its value. No shape is written
only where any will do. -/
structure DeclaresVariable (e : Element) (expected : Shape) (raw : String) : Prop where
  tag : e.tag = SymbolKind.var.tag
  shape : (e.attribute? "type").bind Text.nonBlank? = some expected.name ∨
    (expected = .any ∧ (e.attribute? "type").bind Text.nonBlank? = none)
  init : e.attribute? "init" = some raw

end Element

namespace Resolution

variable {scope : Option String} {external : SymbolTable} {r : Resolution} {e : Element}

/-- Where a declaration is taken without a fault, there is a symbol of it. -/
theorem declare_of_faults_eq (h : (add scope external r e).faults = r.faults) :
    ∃ d, Symbol.declare ⟨scope, r.table, external⟩ e = .ok d ∧ d.errors = [] := by
  cases hdeclare : Symbol.declare ⟨scope, r.table, external⟩ e with
  | error error =>
    rw [add_error hdeclare] at h
    cases List.append_right_eq_self.mp h
  | ok d =>
    rw [add_ok hdeclare] at h
    exact ⟨d, rfl, List.map_eq_nil_iff.mp (List.append_right_eq_self.mp h)⟩

/-- A variable that is declared without a fault is bound to what an override of its shape reads in
the same text, where both look references up in the same tables. -/
theorem override_reads_declared {expected : Shape} {raw : String}
    (hdeclares : e.DeclaresVariable expected raw)
    (hquiet : (add scope external r e).faults = r.faults) :
    ∃ short s, e.name? = some short ∧
      (add scope external r e).table.get? (Name.qualify scope short) = some s ∧
      s.shape = expected ∧
      Symbol.override expected (Symbol.Surroundings.value? ⟨scope, r.table, external⟩) raw =
        .ok s.value := by
  obtain ⟨d, hdeclare, herrors⟩ := declare_of_faults_eq hquiet
  obtain ⟨short, hshort, hname, -, -⟩ := Symbol.declare_ok hdeclare
  have hshape := Symbol.shape_of_declare hdeclares.tag hdeclare hdeclares.shape
  have hoverride := Symbol.override_of_declare hdeclares.tag hdeclares.init hdeclare herrors
  refine ⟨short, d.symbol, hshort, ?_, hshape, ?_⟩
  · rw [add_ok hdeclare, ← hname]
    exact Table.get?_insert_self ..
  · rwa [hshape] at hoverride

/-- A number of another document, declared without a shape. -/
def openLimit : SymbolTable := (∅ : SymbolTable).insert "lib.limit" ⟨.const, .any, .number 2, none⟩

/-- A variable that refers to it. -/
def boundary : Element :=
  (((Element.leaf "var").setAttribute "name" "bound").setAttribute "type" " number ").setAttribute
    "init" " limit "

theorem override_reads_declared_reference :
    boundary.DeclaresVariable .number " limit " ∧
      (add (some "lib") openLimit {} boundary).faults = [] ∧
      Symbol.override .number (Symbol.Surroundings.value? ⟨some "lib", ∅, openLimit⟩) " limit " =
        .ok (.number 2) := by
  have hdeclares : boundary.DeclaresVariable .number " limit " :=
    ⟨by decide, .inl (by decide), by decide⟩
  have hquiet : (add (some "lib") openLimit {} boundary).faults = [] := by decide +kernel
  obtain ⟨short, s, hshort, hs, -, hoverride⟩ := override_reads_declared hdeclares hquiet
  have hname : boundary.name? = some "bound" := by decide
  have hvalue : ((add (some "lib") openLimit {} boundary).table.get? "lib.bound").map
      Symbol.value = some (.number 2) := by decide +kernel
  rw [hname, Option.some_inj] at hshort
  subst hshort
  rw [show Name.qualify (some "lib") "bound" = "lib.bound" by decide] at hs
  rw [hs, Option.map_some, Option.some_inj] at hvalue
  rw [hvalue] at hoverride
  exact ⟨hdeclares, hquiet, hoverride⟩

end Resolution

end Premise
