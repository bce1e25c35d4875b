import Premise.Proofs.Decimal
import Premise.Proofs.Resolution
import Premise.Proofs.ValueOrder

/-!
A table of symbols is well typed, or the fault that says otherwise has been reported.

No second fault is made of a value in which a number could not be read. Nothing is lost by that: a
number is only expected of a symbol whose shape is `number`, which accepts the NaN in its place, and
of the elements of a set (`accepts_of_failedNumber`). NaN itself comes from such a number or from
another symbol, since no decimal is read as NaN; so without faults there is none, unless it came
from another document.
-/

namespace Premise

namespace Value

mutual

/-- Whether a value is NaN or holds it, however deep. -/
def hasNaN : Value → Bool
  | .number x => x.isNaN
  | .list items | .set items => anyHasNaN items
  | .object fields => fieldsHaveNaN fields
  | .null | .text _ | .boolean _ | .graph _ | .error _ => false

def anyHasNaN : List Value → Bool
  | [] => false
  | v :: vs => hasNaN v || anyHasNaN vs

def fieldsHaveNaN : List (String × Value) → Bool
  | [] => false
  | (_, v) :: fields => hasNaN v || fieldsHaveNaN fields

end

theorem anyHasNaN_iff {vs : List Value} : anyHasNaN vs = true ↔ ∃ v ∈ vs, v.hasNaN = true := by
  induction vs with
  | nil => simp [anyHasNaN]
  | cons v vs ih => simp [anyHasNaN, ih]

theorem fieldsHaveNaN_iff {fields : List (String × Value)} :
    fieldsHaveNaN fields = true ↔ ∃ f ∈ fields, f.2.hasNaN = true := by
  induction fields with
  | nil => simp [fieldsHaveNaN]
  | cons f fields ih =>
    obtain ⟨name, v⟩ := f
    simp [fieldsHaveNaN, ih]

theorem hasNaN_ofSet {vs : List Value} : (ofSet vs).hasNaN = true ↔ ∃ v ∈ vs, v.hasNaN = true := by
  show anyHasNaN (vs.foldl insertElement []) = true ↔ _
  rw [anyHasNaN_iff]
  simp [mem_foldl_insertElement]

theorem hasNaN_ofFields {fields : List (String × Value)} (h : (ofFields fields).hasNaN = true) :
    ∃ f ∈ fields, f.2.hasNaN = true := by
  obtain ⟨f, hf, hnan⟩ := fieldsHaveNaN_iff.mp h
  rcases Entries.mem_foldl_insert hf with hf | hf
  · cases hf
  · exact ⟨f, hf, hnan⟩

end Value

theorem Literal.isNaN_of_classify {raw : String} {x : Number}
    (h : Literal.classify raw = .number x) : x.isNaN = false := by
  unfold classify classifyTrimmed at h
  split at h
  · cases h
  split at h
  · cases h
  split at h
  · cases h
  split at h
  · rename_i y hy
    cases h
    exact Number.isNaN_of_decimal? hy
  · split at h <;> cases h

namespace Symbol

variable {s : Surroundings} {e : Element} {name raw : String} {kind : SymbolKind}
  {declared : Option Shape} {n : Noted} {d : Declared}

/-- NaN is the value of some symbol that can be referred to, or holds it. -/
def SeesNaN (s : Surroundings) : Prop :=
  ∃ reference found, s.lookup? reference = some found ∧ found.value.hasNaN = true

/-! ### Literals -/

namespace Meaning

variable {expected : Shape} {v : Value}

theorem hasNaN_value? (name : String)
    (h : (ofLiteral s expected (Literal.classify raw)).value? = some v)
    (hnan : v.hasNaN = true) : SeesNaN s ∨ ∃ written,
      (ofLiteral s expected (Literal.classify raw)).error? name =
        some (.invalidNumber written name) := by
  cases hliteral : Literal.classify raw with
  | quoted content | boolean b =>
    rw [hliteral] at h
    cases h
    cases hnan
  | number x =>
    rw [hliteral] at h
    cases h
    have hnumber : x.isNaN = true := hnan
    rw [Literal.isNaN_of_classify hliteral] at hnumber
    cases hnumber
  | reference reference =>
    rw [hliteral] at h
    simp only [ofLiteral] at h ⊢
    split at h
    · rename_i found hfound
      cases h
      exact .inl ⟨reference, found, hfound, hnan⟩
    · cases h
  | bare content =>
    rw [hliteral] at h
    simp only [ofLiteral] at h ⊢
    split at h
    · rename_i hnumber
      rw [if_pos hnumber]
      exact .inr ⟨content, rfl⟩
    · cases h
      cases hnan

/-- Text is only taken for a number that cannot be read where a number is expected. -/
theorem expected_of_isInvalidNumber {l : Literal}
    (h : (ofLiteral s expected l).isInvalidNumber = true) : expected = .number := by
  cases l with
  | quoted content | boolean b | number x => cases h
  | reference reference =>
    simp only [ofLiteral] at h
    split at h <;> cases h
  | bare content =>
    simp only [ofLiteral] at h
    split at h
    · assumption
    · cases h

theorem value?_of_isInvalidNumber {m : Meaning} (h : m.isInvalidNumber = true) :
    m.value? = some (.number Number.nan) := by
  cases m with
  | invalidNumber written => rfl
  | value v | symbol reference found | unresolved reference => cases h

end Meaning

/-! ### Values -/

theorem hasNaN_property (raw : String) : (property raw).hasNaN = false := by
  unfold property
  cases hliteral : Literal.classify raw with
  | number x => exact Literal.isNaN_of_classify hliteral
  | quoted content | boolean b | reference content | bare content => rfl

/-- Where the NaN in a value is from: another symbol, or a number that cannot be read. -/
theorem hasNaN_valueOf (h : valueOf s e name kind declared = .ok n) (hnan : n.value.hasNaN = true) :
    SeesNaN s ∨ ∃ written, .invalidNumber written name ∈ n.errors := by
  cases kind with
  | var | const =>
    simp only [valueOf] at h
    split at h
    · cases h
      cases hnan
    · obtain ⟨hvalue, herror, -⟩ := scalar_ok h
      rcases Meaning.hasNaN_value? name hvalue hnan with hsees | ⟨written, hwritten⟩
      · exact .inl hsees
      · exact .inr ⟨written, List.mem_of_mem_head? (herror.symm.trans hwritten)⟩
  | set =>
    cases h
    obtain ⟨v, hv, hnan⟩ := Value.hasNaN_ofSet.mp hnan
    obtain ⟨m, hm, hvalue⟩ := List.mem_filterMap.mp hv
    obtain ⟨written, hwritten, rfl⟩ := List.mem_map.mp hm
    rcases Meaning.hasNaN_value? name hvalue hnan with hsees | ⟨invalid, hinvalid⟩
    · exact .inl hsees
    · exact .inr ⟨invalid, List.mem_filterMap.mpr ⟨_, hm, hinvalid⟩⟩
  | graph =>
    cases h
    cases hnan
  | entity =>
    cases h
    obtain ⟨f, hf, hnan⟩ := Value.hasNaN_ofFields hnan
    obtain ⟨p, -, rfl⟩ := List.mem_map.mp hf
    dsimp only at hnan
    rw [hasNaN_property] at hnan
    cases hnan

/-- Where a number could not be read, the shape accepts what stands in its place. -/
theorem accepts_of_failedNumber (h : valueOf s e name kind declared = .ok n)
    (hfailed : n.failedNumber = true) : (kind.shape declared).accepts n.value = true := by
  have hscalar : ∀ raw, scalar s name (declared.getD .any) raw = .ok n →
      (declared.getD .any).accepts n.value = true := by
    intro raw hraw
    obtain ⟨hvalue, -, hinvalid⟩ := scalar_ok hraw
    rw [hfailed] at hinvalid
    rw [Meaning.value?_of_isInvalidNumber hinvalid, Option.some_inj] at hvalue
    rw [Meaning.expected_of_isInvalidNumber hinvalid, ← hvalue]
    rfl
  cases kind with
  | var | const =>
    simp only [valueOf] at h
    split at h
    · cases h
      cases hfailed
    · exact hscalar _ h
  | set | graph | entity =>
    cases h
    rfl

/-- A declared symbol has a value that its shape accepts, or none, or there is an error. -/
theorem fits_of_declare (h : declare s e = .ok d) :
    d.symbol.shape.accepts d.symbol.value = true ∨ d.symbol.value.isNull = true ∨
      .mismatch d.name d.symbol.shape d.symbol.value.typeName ∈ d.errors := by
  obtain ⟨short, kind, declared, n, -, -, -, -, hvalue, rfl⟩ := declare_eq_ok h
  by_cases hfailed : n.failedNumber = true
  · exact .inl (accepts_of_failedNumber hvalue hfailed)
  by_cases hnull : n.value.isNull = true
  · exact .inr (.inl hnull)
  by_cases haccepts : (kind.shape declared).accepts n.value = true
  · exact .inl haccepts
  · refine .inr (.inr (List.mem_append_right _ ?_))
    rw [mismatch, if_neg (by simp [hfailed, hnull, haccepts])]
    exact List.mem_singleton_self _

theorem hasNaN_of_declare (h : declare s e = .ok d) (hnan : d.symbol.value.hasNaN = true) :
    SeesNaN s ∨ ∃ written, .invalidNumber written d.name ∈ d.errors := by
  obtain ⟨short, kind, declared, n, -, -, -, -, hvalue, rfl⟩ := declare_eq_ok h
  exact (hasNaN_valueOf hvalue hnan).imp_right fun ⟨written, hwritten⟩ =>
    ⟨written, List.mem_append_left _ hwritten⟩

end Symbol

namespace Resolution

variable {scope : Option String} {external : SymbolTable} {r r' : Resolution}

def Reports (faults : List Fault) (error : SymbolError) : Prop :=
  ∃ f ∈ faults, f.cause = .symbol error

/-- The shape of a symbol accepts its value, or it has none, or the mismatch is among the faults. -/
def Fits (name : String) (s : Symbol) (faults : List Fault) : Prop :=
  s.shape.accepts s.value = true ∨ s.value.isNull = true ∨
    Reports faults (.mismatch name s.shape s.value.typeName)

/-- A symbol has the shape that its declaration gives and its kind dictates, and it can change if it
is a variable. -/
structure WellTyped (scope : Option String) (ds : List Element) (name : String) (s : Symbol)
    (faults : List Fault) : Prop where
  declared : ∃ d ∈ ds, (∃ short, d.name? = some short ∧ name = Name.qualify scope short) ∧
    SymbolKind.ofTag? d.tag = some s.kind ∧
    ∃ declared, Symbol.declaredShape d name = .ok declared ∧ s.shape = s.kind.shape declared
  set : s.kind = .set → s.shape = .set
  graph : s.kind = .graph → s.shape = .graph
  entity : s.kind = .entity → s.shape = .object
  changes : s.isMutable = true ↔ s.kind = .var
  fits : Fits name s faults

/-- No value in the table is or holds NaN. -/
def NaNFree (t : SymbolTable) : Prop := ∀ name s, t.get? name = some s → s.value.hasNaN = false

/-- A number that cannot be read is among the faults. -/
def ReportsUnread (faults : List Fault) : Prop :=
  ∃ written name, Reports faults (.invalidNumber written name)

/-- Every symbol fits its shape, and where there is NaN, which no other document has brought in, a
number that cannot be read is reported. -/
structure Sound (external : SymbolTable) (r : Resolution) : Prop where
  fits : ∀ name s, r.table.get? name = some s → Fits name s r.faults
  unread : NaNFree external → ∀ name s, r.table.get? name = some s → s.value.hasNaN = true →
    ReportsUnread r.faults

theorem Reports.mono {fs gs : List Fault} {error : SymbolError} (h : Reports fs error)
    (hsub : fs ⊆ gs) : Reports gs error := by
  obtain ⟨f, hf, hcause⟩ := h
  exact ⟨f, hsub hf, hcause⟩

theorem ReportsUnread.mono {fs gs : List Fault} (h : ReportsUnread fs) (hsub : fs ⊆ gs) :
    ReportsUnread gs := by
  obtain ⟨written, name, hreports⟩ := h
  exact ⟨written, name, hreports.mono hsub⟩

theorem Fits.mono {name : String} {s : Symbol} {fs gs : List Fault} (h : Fits name s fs)
    (hsub : fs ⊆ gs) : Fits name s gs :=
  h.imp_right fun h => h.imp_right fun h => h.mono hsub

/-- A reference is to a symbol of the document or to an external one. -/
theorem exists_of_lookup? {s : Symbol.Surroundings} {reference : String} {found : Symbol}
    (h : s.lookup? reference = some found) :
    ∃ name, s.table.get? name = some found ∨ s.external.get? name = some found := by
  rcases Option.or_eq_some_iff.mp h with h | ⟨-, h⟩
  · exact ⟨_, (Option.or_eq_some_iff.mp h).imp_right And.right⟩
  · exact ⟨_, (Option.or_eq_some_iff.mp h).imp_right And.right⟩

theorem reports_of_declared {e : Element} {d : Symbol.Declared} {error : SymbolError}
    (fs : List Fault) (h : error ∈ d.errors) : Reports (fs ++ d.errors.map (fault e)) error :=
  ⟨fault e error, List.mem_append_right fs (List.mem_map_of_mem h), rfl⟩

theorem Sound.add (h : Sound external r) (e : Element) : Sound external (add scope external r e) := by
  cases hdeclare : Symbol.declare ⟨scope, r.table, external⟩ e with
  | error error =>
    rw [add_error hdeclare]
    have hsub : r.faults ⊆ r.faults ++ [fault e error] := List.subset_append_left _ _
    exact ⟨fun name s hs => (h.fits name s hs).mono hsub,
      fun hfree name s hs hnan => (h.unread hfree name s hs hnan).mono hsub⟩
  | ok d =>
    rw [add_ok hdeclare]
    have hsub : r.faults ⊆ r.faults ++ d.errors.map (fault e) := List.subset_append_left _ _
    refine ⟨fun name s hs => ?_, fun hfree name s hs hnan => ?_⟩
    · rcases Table.get?_insert_eq_some hs with ⟨rfl, rfl⟩ | hs
      · exact (Symbol.fits_of_declare hdeclare).imp_right fun h =>
          h.imp_right (reports_of_declared r.faults)
      · exact (h.fits name s hs).mono hsub
    · rcases Table.get?_insert_eq_some hs with ⟨rfl, rfl⟩ | hs
      · rcases Symbol.hasNaN_of_declare hdeclare hnan with ⟨reference, found, hfound, hnan⟩ |
          ⟨written, hwritten⟩
        · obtain ⟨other, hother | hother⟩ := exists_of_lookup? hfound
          · exact (h.unread hfree other found hother hnan).mono hsub
          · rw [hfree other found hother] at hnan
            cases hnan
        · exact ⟨written, d.name, reports_of_declared r.faults hwritten⟩
      · exact (h.unread hfree name s hs hnan).mono hsub

theorem Sound.foldl (h : Sound external r) (ds : List Element) :
    Sound external (ds.foldl (Resolution.add scope external) r) := by
  induction ds generalizing r with
  | nil => exact h
  | cons d ds ih => exact ih (h.add d)

theorem Adds.shape_eq {e : Element} {name : String} {s : Symbol} (h : Adds scope e name s r r') :
    (s.kind = .set → s.shape = .set) ∧ (s.kind = .graph → s.shape = .graph) ∧
      (s.kind = .entity → s.shape = .object) := by
  obtain ⟨declared, -, hshape⟩ := h.shape
  refine ⟨?_, ?_, ?_⟩ <;>
    · intro hkind
      rw [hshape, hkind]
      rfl

/-- Every symbol of a document is well typed, or its mismatch is reported; and where nothing is
reported and no NaN comes from other documents, there is none. -/
theorem resolve_wellTyped (scope : Option String) (external : SymbolTable) (root : Element) :
    (∀ name s, (resolve scope external root).table.get? name = some s →
      WellTyped scope (declarations root) name s (resolve scope external root).faults) ∧
    ((resolve scope external root).faults = [] → NaNFree external →
      NaNFree (resolve scope external root).table) := by
  have hempty : Sound external {} := by
    constructor
    · intro name s hs
      cases hs
    · intro hfree name s hs
      cases hs
  have hsound : Sound external (resolve scope external root) := hempty.foldl (declarations root)
  refine ⟨fun name s hs => ?_, fun hnone hfree name s hs => ?_⟩
  · obtain ⟨before, e, rest, hsplit, hadds⟩ :=
      @exists_adds scope external name s (declarations root) hs
    have hmem : e ∈ declarations root := by
      rw [hsplit]
      exact List.mem_append_right before List.mem_cons_self
    obtain ⟨hset, hgraph, hentity⟩ := hadds.shape_eq
    exact ⟨⟨e, hmem, hadds.named, hadds.kind, hadds.shape⟩, hset, hgraph, hentity,
      decide_eq_true_iff, hsound.fits name s hs⟩
  · by_contra hnan
    obtain ⟨-, -, f, hf, -⟩ :=
      hsound.unread hfree name s hs (Bool.eq_true_of_not_eq_false hnan)
    rw [hnone] at hf
    cases hf

/-- A number of another document. -/
def limit : SymbolTable := (∅ : SymbolTable).insert "limit" ⟨.const, .number, .number 2, none⟩

/-- A document that refers to that number, in a variable and in a set. -/
def limited : Element :=
  (Element.leaf "tenet").addChild ((Element.leaf sectionTag).addChildren
    [((((Element.leaf "var").setAttribute "name" "a").setAttribute "type" "number").setAttribute
        "init" "limit"),
      ((Element.leaf "set").setAttribute "name" "s").setAttribute "elements" "a, limit, 2.5"])

/-- The mismatch of `c` is reported, and the numbers of the other document are no NaN. -/
theorem resolve_wellTyped_mixed :
    (∃ s, (resolve none ∅ mixed).table.get? "c" = some s ∧
      Reports (resolve none ∅ mixed).faults (.mismatch "c" s.shape s.value.typeName)) ∧
    (resolve none limit limited).table.names = ["a", "s"] ∧
    NaNFree limit ∧ NaNFree (resolve none limit limited).table := by
  have hlimit : NaNFree limit := by
    intro name s hs
    rcases Table.get?_insert_eq_some hs with ⟨-, rfl⟩ | hs
    · decide +kernel
    · cases hs
  have hfaults : (resolve none limit limited).faults = [] := by decide +kernel
  refine ⟨?_, by decide +kernel, hlimit, (resolve_wellTyped none limit limited).2 hfaults hlimit⟩
  have hmismatched : ((resolve none ∅ mixed).table.get? "c").map
      (fun s => s.shape.accepts s.value || s.value.isNull) = some false := by decide +kernel
  obtain ⟨s, hs, hother⟩ := Option.map_eq_some_iff.mp hmismatched
  obtain ⟨haccepts, hnull⟩ := Bool.or_eq_false_iff.mp hother
  refine ⟨s, hs, ?_⟩
  rcases ((resolve_wellTyped none ∅ mixed).1 "c" s hs).fits with h | h | h
  · rw [haccepts] at h
    cases h
  · rw [hnull] at h
    cases h
  · exact h

end Resolution

end Premise
