import Mathlib.Data.String.Basic
import Premise.Proofs.Alias
import Premise.Proofs.Resolution

/-!
Resolving under a namespace is renaming.

A table behind a namespace keeps its order, so looking a name up and binding one are the same there
as they were (`Table.get?_inside`, `Table.insert_inside`). A reference that does not begin with the
namespace means the same symbol in both tables: the namespace is put in front of it, and as it is
written it meets no name. So each declaration comes to the same behind the namespace, and its errors
differ by the name of the declaration alone (`Resolution.add_inside`).
-/

namespace Premise

/-! ### Tables -/

namespace Name

theorem qualify_lt {space : Option String} {a b : String} :
    qualify space a < qualify space b ↔ a < b := by
  have hfront : ∀ front : String, front ++ a < front ++ b ↔ a < b := by
    intro front
    rw [String.lt_iff_toList_lt, String.lt_iff_toList_lt, String.toList_append,
      String.toList_append]
    induction front.toList with
    | nil => exact Iff.rfl
    | cons c cs ih =>
      rw [List.cons_append, List.cons_append, List.cons_lt_cons_self, ih]
  unfold qualify
  split
  · split
    · exact Iff.rfl
    · exact hfront _
  · exact Iff.rfl

theorem inside_iff {space name : String} :
    Inside space name ↔ (space ++ ".").toList <+: name.toList := by
  constructor
  · rintro ⟨rest, rfl⟩
    exact ⟨rest.toList, String.toList_append.symm⟩
  · rintro ⟨rest, hrest⟩
    refine ⟨String.ofList rest, String.toList_inj.mp ?_⟩
    rw [String.toList_append, String.toList_ofList, hrest]

instance (space name : String) : Decidable (Inside space name) :=
  decidable_of_iff _ inside_iff.symm

theorem qualify_inj {space : Option String} {a b : String} :
    qualify space a = qualify space b ↔ a = b :=
  ⟨qualify_injective, fun h => by rw [h]⟩

end Name

namespace Entries

variable {α : Type}

def inside (space : Option String) (es : List (String × α)) : List (String × α) :=
  es.map fun e => (Name.qualify space e.1, e.2)

theorem get?_inside (space : Option String) (es : List (String × α)) (name : String) :
    get? (inside space es) (Name.qualify space name) = get? es name := by
  induction es with
  | nil => rfl
  | cons e rest ih =>
    unfold inside at ih ⊢
    simp only [List.map_cons, get?, Name.qualify_inj, ih]

theorem insert_inside (space : Option String) (es : List (String × α)) (name : String) (a : α) :
    insert (inside space es) (Name.qualify space name) a = inside space (insert es name a) := by
  induction es with
  | nil => rfl
  | cons e rest ih =>
    unfold inside at ih ⊢
    simp only [List.map_cons, insert, Name.qualify_lt, Name.qualify_inj, ih]
    split
    · rfl
    · split <;> rfl

end Entries

namespace Table

variable {α : Type}

/-- The table with all its names behind a namespace. -/
def inside (space : Option String) (t : Table α) : Table α :=
  ⟨Entries.inside space t.entries,
    List.pairwise_map.mpr (t.ascending.imp fun h => Name.qualify_lt.mpr h)⟩

theorem get?_inside (space : Option String) (t : Table α) (name : String) :
    (t.inside space).get? (Name.qualify space name) = t.get? name :=
  Entries.get?_inside space t.entries name

theorem contains_inside (space : Option String) (t : Table α) (name : String) :
    (t.inside space).contains (Name.qualify space name) = t.contains name := by
  unfold contains
  rw [get?_inside]

theorem insert_inside (space : Option String) (t : Table α) (name : String) (a : α) :
    (t.inside space).insert (Name.qualify space name) a = (t.insert name a).inside space := by
  unfold insert inside
  simp only [Entries.insert_inside]

theorem get?_inside_of_outside {space name : String} (h : space ≠ "")
    (houtside : ¬Name.Inside space name) (t : Table α) :
    (t.inside (some space)).get? name = none := by
  cases hget : (t.inside (some space)).get? name with
  | none => rfl
  | some a =>
    have hmem : (name, a) ∈ (t.inside (some space)).toList := mem_toList.mpr hget
    obtain ⟨e, -, heq⟩ := List.mem_map.mp hmem
    cases heq
    exact absurd (Name.inside_qualify h e.1) houtside

end Table

/-! ### Errors -/

/-- The error of a declaration whose name is behind a namespace. References stay as written. -/
def SymbolError.inside (space : Option String) : SymbolError → SymbolError
  | .unnamed tag => .unnamed tag
  | .duplicate name => .duplicate (Name.qualify space name)
  | .unknownKind tag => .unknownKind tag
  | .invalidShape written name => .invalidShape written (Name.qualify space name)
  | .mismatch name declared found => .mismatch (Name.qualify space name) declared found
  | .referenceMismatch name declared reference found =>
    .referenceMismatch (Name.qualify space name) declared reference found
  | .invalidNumber written name => .invalidNumber written (Name.qualify space name)
  | .unresolved reference name => .unresolved reference (Name.qualify space name)
  | .malformedEdge written name => .malformedEdge written (Name.qualify space name)
  | .malformedProperty written name => .malformedProperty written (Name.qualify space name)

theorem SymbolError.advice_inside (space : Option String) (error : SymbolError) :
    (error.inside space).advice = error.advice := by
  cases error <;> rfl

/-- The fault with the names of its declaration behind a namespace. -/
def Fault.inside (space : Option String) (f : Fault) : Fault :=
  match f.cause with
  | .symbol error => { f with cause := .symbol (error.inside space) }
  | _ => f

theorem Fault.kind_inside (space : Option String) (f : Fault) : (f.inside space).kind = f.kind := by
  obtain ⟨cause, suggestion, line⟩ := f
  cases cause <;> rfl

theorem Fault.line_inside (space : Option String) (f : Fault) : (f.inside space).line = f.line := by
  obtain ⟨cause, suggestion, line⟩ := f
  cases cause <;> rfl

/-! ### One declaration -/

namespace Symbol

/-- The literals that a declaration of a kind is read from. -/
def literals (e : Element) : SymbolKind → List Literal
  | .var | .const => ((e.attributeOrContent? ["init", "value"]).map Literal.classify).toList
  | .set => (Text.entries ((e.attribute? "elements").getD "")).map Literal.classify
  | .graph | .entity => []

/-- The names that the literals of a declaration refer to. -/
def references (e : Element) : List String :=
  ((SymbolKind.ofTag? e.tag).elim [] (literals e)).filterMap fun
    | .reference name => some name
    | .quoted _ | .boolean _ | .number _ | .bare _ => none

theorem mem_references {e : Element} {kind : SymbolKind} {reference : String}
    (hkind : SymbolKind.ofTag? e.tag = some kind)
    (h : .reference reference ∈ literals e kind) : reference ∈ references e := by
  unfold references
  rw [hkind]
  exact List.mem_filterMap.mpr ⟨.reference reference, h, rfl⟩

def Noted.inside (space : Option String) (n : Noted) : Noted :=
  { n with errors := n.errors.map (SymbolError.inside space) }

def Declared.inside (space : Option String) (d : Declared) : Declared :=
  ⟨Name.qualify space d.name, d.symbol, d.errors.map (SymbolError.inside space)⟩

variable {space : String} {t : SymbolTable} {e : Element}

theorem lookup?_inside (h : space ≠ "") {reference : String}
    (houtside : ¬Name.Inside space reference) (t : SymbolTable) :
    Surroundings.lookup? ⟨some space, t.inside (some space), ∅⟩ reference =
      Surroundings.lookup? ⟨none, t, ∅⟩ reference := by
  unfold Surroundings.lookup? Surroundings.exactly?
  simp only [Table.get?_inside, Table.get?_inside_of_outside h houtside]
  show ((t.get? reference).or none).or none = ((t.get? reference).or none).or _
  cases t.get? reference <;> rfl

theorem ofLiteral_inside (h : space ≠ "") {l : Literal}
    (houtside : ∀ reference, l = .reference reference → ¬Name.Inside space reference)
    (t : SymbolTable) (expected : Shape) :
    Meaning.ofLiteral ⟨some space, t.inside (some space), ∅⟩ expected l =
      Meaning.ofLiteral ⟨none, t, ∅⟩ expected l := by
  cases l with
  | reference name => simp only [Meaning.ofLiteral, lookup?_inside h (houtside name rfl)]
  | quoted content | boolean b | number x | bare content => rfl

/-- The outcome with the names in it behind a namespace. -/
def outcomeInside {α : Type} (space : Option String) (rename : Option String → α → α) :
    Except SymbolError α → Except SymbolError α
  | .error error => .error (error.inside space)
  | .ok a => .ok (rename space a)

theorem scalar_inside (h : space ≠ "") (name raw : String) (declared : Shape)
    (houtside : ∀ reference, Literal.classify raw = .reference reference →
      ¬Name.Inside space reference) :
    scalar ⟨some space, t.inside (some space), ∅⟩ (Name.qualify (some space) name) declared raw =
      outcomeInside (some space) Noted.inside (scalar ⟨none, t, ∅⟩ name declared raw) := by
  unfold scalar
  rw [ofLiteral_inside h houtside]
  cases Meaning.ofLiteral ⟨none, t, ∅⟩ declared (Literal.classify raw) with
  | value v | invalidNumber written | unresolved reference => rfl
  | symbol reference found =>
    simp only
    split <;> rfl

theorem error?_inside (name : String) (m : Meaning) :
    m.error? (Name.qualify (some space) name) =
      (m.error? name).map (SymbolError.inside (some space)) := by
  cases m <;> rfl

theorem setOf_inside (h : space ≠ "") (name elements : String)
    (houtside : ∀ raw ∈ Text.entries elements, ∀ reference,
      Literal.classify raw = .reference reference → ¬Name.Inside space reference) :
    setOf ⟨some space, t.inside (some space), ∅⟩ (Name.qualify (some space) name) elements =
      (setOf ⟨none, t, ∅⟩ name elements).inside (some space) := by
  have hmeanings : ((Text.entries elements).map fun e =>
      Meaning.ofLiteral ⟨some space, t.inside (some space), ∅⟩ .number (Literal.classify e)) =
      (Text.entries elements).map fun e =>
        Meaning.ofLiteral ⟨none, t, ∅⟩ .number (Literal.classify e) :=
    List.map_congr_left fun raw hraw => ofLiteral_inside h (houtside raw hraw) t .number
  unfold setOf Noted.inside
  simp only [hmeanings, List.map_filterMap]
  refine congrArg (fun errors => Noted.mk _ errors _) (List.filterMap_congr fun m _ => ?_)
  exact error?_inside name m

theorem graphOf_inside (name nodes edges : String) :
    graphOf (Name.qualify (some space) name) nodes edges =
      (graphOf name nodes edges).inside (some space) := by
  unfold graphOf Noted.inside
  simp only [List.map_map]
  rfl

theorem entityOf_inside (name properties : String) :
    entityOf (Name.qualify (some space) name) properties =
      (entityOf name properties).inside (some space) := by
  unfold entityOf Noted.inside
  simp only [List.map_map]
  rfl

theorem valueOf_inside (h : space ≠ "") {kind : SymbolKind}
    (hkind : SymbolKind.ofTag? e.tag = some kind)
    (houtside : ∀ reference ∈ references e, ¬Name.Inside space reference) (name : String)
    (declared : Option Shape) :
    valueOf ⟨some space, t.inside (some space), ∅⟩ e (Name.qualify (some space) name) kind
        declared =
      outcomeInside (some space) Noted.inside (valueOf ⟨none, t, ∅⟩ e name kind declared) := by
  cases kind with
  | var | const =>
    unfold valueOf
    cases hraw : e.attributeOrContent? ["init", "value"] with
    | none => rfl
    | some raw =>
      refine scalar_inside h name raw _ fun reference hliteral => houtside reference ?_
      exact mem_references hkind (by simp [literals, hraw, hliteral])
  | set =>
    unfold valueOf outcomeInside
    refine congrArg Except.ok (setOf_inside h name _ fun raw hraw reference hliteral => ?_)
    exact houtside reference (mem_references hkind (List.mem_map.mpr ⟨raw, hraw, hliteral⟩))
  | graph => exact congrArg Except.ok (graphOf_inside name _ _)
  | entity => exact congrArg Except.ok (entityOf_inside name _)

theorem declaredShape_inside (e : Element) (name : String) :
    declaredShape e (Name.qualify (some space) name) =
      outcomeInside (some space) (fun _ shape => shape) (declaredShape e name) := by
  unfold declaredShape
  split
  · rfl
  · split <;> rfl

theorem mismatch_inside (name : String) (shape : Shape) (n : Noted) :
    mismatch (Name.qualify (some space) name) shape (n.inside (some space)) =
      (mismatch name shape n).map (SymbolError.inside (some space)) := by
  unfold mismatch Noted.inside
  simp only
  split <;> rfl

theorem declare_inside (h : space ≠ "") (t : SymbolTable) {e : Element}
    (houtside : ∀ reference ∈ references e, ¬Name.Inside space reference) :
    declare ⟨some space, t.inside (some space), ∅⟩ e =
      outcomeInside (some space) Declared.inside (declare ⟨none, t, ∅⟩ e) := by
  unfold declare
  cases e.name? with
  | none => rfl
  | some short =>
    have hplain : Name.qualify none short = short := rfl
    simp only [Table.contains_inside, hplain]
    split
    · rfl
    · cases hkind : SymbolKind.ofTag? e.tag with
      | none => rfl
      | some kind =>
        simp only [declaredShape_inside]
        cases declaredShape e short with
        | error error => rfl
        | ok declared =>
          simp only [outcomeInside, bind, Except.bind, valueOf_inside h hkind houtside]
          cases valueOf ⟨none, t, ∅⟩ e short kind declared with
          | error error => rfl
          | ok noted =>
            simp only [mismatch_inside]
            unfold Declared.inside
            rw [List.map_append]
            rfl

end Symbol

/-! ### Whole documents -/

namespace Resolution

variable {space : String}

def inside (space : Option String) (r : Resolution) : Resolution :=
  ⟨r.table.inside space, r.faults.map (Fault.inside space)⟩

theorem fault_inside (space : Option String) (e : Element) (error : SymbolError) :
    fault e (error.inside space) = (fault e error).inside space := by
  unfold fault Fault.of Fault.atLine Fault.inside
  simp only [Cause.advice, SymbolError.advice_inside]

theorem add_inside (h : space ≠ "") (r : Resolution) {e : Element}
    (houtside : ∀ reference ∈ Symbol.references e, ¬Name.Inside space reference) :
    add (some space) ∅ (r.inside (some space)) e = (add none ∅ r e).inside (some space) := by
  have hdeclare := Symbol.declare_inside h r.table houtside
  cases hplain : Symbol.declare ⟨none, r.table, ∅⟩ e with
  | error error =>
    rw [hplain] at hdeclare
    rw [add_error hplain, add_error hdeclare]
    unfold inside
    simp only [List.map_append, List.map_cons, List.map_nil, fault_inside]
  | ok d =>
    rw [hplain] at hdeclare
    rw [add_ok hplain, add_ok hdeclare]
    unfold inside Symbol.Declared.inside
    simp only [Table.insert_inside, List.map_append, List.map_map, Function.comp_def, fault_inside]

theorem foldl_inside (h : space ≠ "") {ds : List Element} (r : Resolution)
    (houtside : ∀ reference ∈ ds.flatMap Symbol.references, ¬Name.Inside space reference) :
    ds.foldl (add (some space) ∅) (r.inside (some space)) =
      (ds.foldl (add none ∅) r).inside (some space) := by
  induction ds generalizing r with
  | nil => rfl
  | cons d ds ih =>
    rw [List.flatMap_cons] at houtside
    rw [List.foldl_cons, List.foldl_cons,
      add_inside h r fun x hx => houtside x (List.mem_append_left _ hx)]
    exact ih _ fun x hx => houtside x (List.mem_append_right _ hx)

/-- Under a namespace with which no reference begins, a document resolves to the same symbols behind
the namespace, and to the same faults at the same lines, with the names of the declarations behind
the namespace. -/
theorem resolve_renames {space : String} (h : space ≠ "") {root : Element}
    (houtside : ∀ reference ∈ (declarations root).flatMap Symbol.references,
      ¬Name.Inside space reference) :
    (resolve (some space) ∅ root).table.toList =
      (resolve none ∅ root).table.toList.map (fun e => (space ++ "." ++ e.1, e.2)) ∧
    (resolve (some space) ∅ root).faults =
      (resolve none ∅ root).faults.map (Fault.inside (some space)) ∧
    (resolve (some space) ∅ root).faults.map (fun f => (f.kind, f.line)) =
      (resolve none ∅ root).faults.map fun f => (f.kind, f.line) := by
  have hwhole : resolve (some space) ∅ root = (resolve none ∅ root).inside (some space) :=
    foldl_inside h {} houtside
  rw [hwhole]
  refine ⟨?_, rfl, ?_⟩
  · unfold inside Table.inside Entries.inside Table.toList
    simp only [Name.qualify_some h]
  · unfold inside
    simp only [List.map_map, Function.comp_def, Fault.kind_inside, Fault.line_inside]

theorem resolve_renames_mixed :
    (∀ reference ∈ (declarations mixed).flatMap Symbol.references, ¬Name.Inside "n" reference) ∧
    (resolve (some "n") ∅ mixed).table.toList.map (·.1) = ["n.a", "n.b", "n.c", "n.s"] ∧
    (resolve (some "n") ∅ mixed).faults.map (fun f => (f.kind, f.line)) =
      [3, 4, 5, 6, 7].map fun line => (.semantic, some line) := by
  have houtside : ∀ reference ∈ (declarations mixed).flatMap Symbol.references,
      ¬Name.Inside "n" reference := by decide +kernel
  obtain ⟨htable, -, hfaults⟩ := resolve_renames (by decide) houtside
  refine ⟨houtside, ?_, hfaults.trans (by decide +kernel)⟩
  rw [htable, List.map_map]
  decide +kernel

end Resolution

end Premise
