import Premise.Proofs.Branches
import Premise.Proofs.Declarations
import Premise.Proofs.ValueOrder

/-!
Quotes protect text in the lists that attributes hold.

Lists are cut at their commas, trimmed, and in some of them cut again at the first `=` and trimmed
once more. A text in quotes has no blank at its ends, so none of its own is lost, and it is a
literal by its quotes alone, whatever it looks like inside. Commas are all that it must not hold.
What is read then is what was written, in the elements of a set, in the properties of an entity and
in the overrides of a branch.
-/

namespace Premise

/-- What is written entry by entry and read back in each of them is read back as a whole. -/
theorem filterMap_map_of_forall {α β γ : Type} {write : α → β} {read : β → Option γ} {f : α → γ}
    {as : List α} (h : ∀ a ∈ as, read (write a) = some (f a)) :
    (as.map write).filterMap read = as.map f := by
  induction as with
  | nil => rfl
  | cons a as ih =>
    rw [List.map_cons, List.filterMap_cons, h a List.mem_cons_self,
      ih fun x hx => h x (List.mem_cons_of_mem a hx)]
    rfl

namespace Text

/-- A text in single quotes. -/
def inQuotes (t : String) : String := "'" ++ t ++ "'"

/-- A text in single quotes behind its key. -/
def assigned (p : String × String) : String := p.1 ++ "=" ++ inQuotes p.2

/-- A key that stays in one piece: neither a comma nor `=` is in it, and it is not blank. -/
def IsKey (key : String) : Prop :=
  ',' ∉ key.toList ∧ '=' ∉ key.toList ∧ isAllBlank key = false

instance (key : String) : Decidable (IsKey key) := inferInstanceAs (Decidable (_ ∧ _ ∧ _))

variable {t key : String}

theorem toList_inQuotes (t : String) : (inQuotes t).toList = '\'' :: (t.toList ++ ['\'']) := by
  simp [inQuotes]

theorem toList_assigned (key t : String) :
    (assigned (key, t)).toList = key.toList ++ '=' :: (inQuotes t).toList := by
  simp [assigned]

/-- The quotes stand at the ends. -/
theorem getLast?_inQuotes (t : String) : (inQuotes t).toList.getLast? = some '\'' := by
  rw [toList_inQuotes, ← List.cons_append]
  exact List.getLast?_concat

theorem trimChars_inQuotes (t : String) : trimChars (inQuotes t).toList = (inQuotes t).toList := by
  refine trimChars_of_ends ?_ ?_
  · rw [toList_inQuotes]
    rintro c hc
    cases hc
    decide
  · rw [getLast?_inQuotes]
    rintro c hc
    cases hc
    decide

theorem trim_inQuotes (t : String) : trim (inQuotes t) = inQuotes t := by
  rw [trim, trimChars_inQuotes, String.ofList_toList]

theorem isAllBlank_inQuotes (t : String) : isAllBlank (inQuotes t) = false := by
  rw [isAllBlank, toList_inQuotes]
  rfl

theorem comma_not_mem_inQuotes (h : ',' ∉ t.toList) : ',' ∉ (inQuotes t).toList := by
  rw [toList_inQuotes]
  simpa using h

/-- Whatever the text looks like, in quotes it is text. -/
theorem classify_inQuotes (t : String) : Literal.classify (inQuotes t) = .quoted t := by
  have hunquote : Literal.unquote? (inQuotes t) = some t := by
    unfold Literal.unquote?
    rw [toList_inQuotes]
    cases hchars : t.toList ++ ['\''] with
    | nil => exact absurd hchars (by simp)
    | cons c cs =>
      have hlast : (c :: cs).getLast? = some '\'' := by rw [← hchars]; exact List.getLast?_concat
      have hinner : (c :: cs).dropLast = t.toList := by rw [← hchars]; exact List.dropLast_concat
      simp only [hlast, hinner, String.ofList_toList]
      rfl
  unfold Literal.classify Literal.classifyTrimmed
  rw [trim_inQuotes, hunquote]

/-- The key ends at the first `=`, and the blanks around it are gone. -/
theorem keyed?_assigned (h : IsKey key) (t : String) :
    keyed? (trim (assigned (key, t))) = some (trim key, inQuotes t) := by
  obtain ⟨-, hequals, hblank⟩ := h
  have hlast : ∀ c ∈ ('=' :: (inQuotes t).toList).getLast?, isBlank c = false := by
    rw [List.getLast?_cons, getLast?_inQuotes]
    rintro c hc
    cases hc
    decide
  have hchars : (trim (assigned (key, t))).toList =
      key.toList.dropWhile isBlank ++ '=' :: (inQuotes t).toList := by
    rw [trim, String.toList_ofList, toList_assigned]
    exact trimChars_append (by decide) key.toList hlast
  have hfree : '=' ∉ key.toList.dropWhile isBlank :=
    fun hmem => hequals ((List.dropWhile_sublist _).subset hmem)
  have hkey : (trimChars key.toList).isEmpty = false := by
    refine List.isEmpty_eq_false_iff.mpr fun hnil => ?_
    rw [isAllBlank, List.all_eq_true.mpr (trimChars_eq_nil hnil)] at hblank
    cases hblank
  unfold keyed?
  rw [hchars, splitAtFirst_append hfree]
  simp only [trimChars_dropWhile, hkey, trimChars_inQuotes, String.ofList_toList]
  rfl

theorem entries_assigned {ps : List (String × String)}
    (h : ∀ p ∈ ps, IsKey p.1 ∧ ',' ∉ p.2.toList) :
    entries (joined ", " (ps.map assigned)) = ps.map fun p => trim (assigned p) := by
  have hpieces : ∀ s ∈ ps.map assigned, ',' ∉ s.toList ∧ isAllBlank s = false := by
    intro s hs
    obtain ⟨⟨key, t⟩, hp, rfl⟩ := List.mem_map.mp hs
    obtain ⟨⟨hcomma, -, -⟩, ht⟩ := h _ hp
    refine ⟨?_, ?_⟩
    · rw [toList_assigned, List.mem_append, List.mem_cons]
      rintro (hmem | hmem | hmem)
      · exact hcomma hmem
      · cases hmem
      · exact comma_not_mem_inQuotes ht hmem
    · rw [isAllBlank, toList_assigned, List.all_append, List.all_cons]
      simp [show isBlank '=' = false by decide]
  rw [entries_joined hpieces, List.map_map]
  rfl

end Text

/-! ### Declarations -/

namespace Symbol

variable (s : Surroundings) (name : String)

/-- What a text means as an element of a set. -/
def Surroundings.element (s : Surroundings) (written : String) : Meaning :=
  Meaning.ofLiteral s .number (Literal.classify written)

/-- A literal means its value, whatever is known around it. -/
theorem element_of_value? {t : String} {v : Value} (h : (Literal.classify t).value? = some v) :
    s.element t = .value v := by
  unfold Surroundings.element
  cases hliteral : Literal.classify t with
  | quoted content | boolean b | number x =>
    rw [hliteral] at h
    cases h
    rfl
  | reference reference | bare content =>
    rw [hliteral] at h
    cases h

/-- The blanks around the elements make no difference. -/
theorem setOf_joined {ts : List String}
    (h : ∀ t ∈ ts, ',' ∉ t.toList ∧ Text.isAllBlank t = false) :
    setOf s name (Text.joined ", " ts) =
      ⟨.ofSet (ts.filterMap fun t => (s.element t).value?),
        ts.filterMap fun t => (s.element t).error? name,
        ts.any fun t => (s.element t).isInvalidNumber⟩ := by
  have htrim : ∀ t, Literal.classify (Text.trim t) = Literal.classify t := fun t => by
    rw [Literal.classify, Text.trim_trim, Literal.classify]
  have hfound : (Text.entries (Text.joined ", " ts)).map
      (fun e => Meaning.ofLiteral s .number (Literal.classify e)) = ts.map s.element := by
    rw [Text.entries_joined h, List.map_map]
    exact List.map_congr_left fun t _ => by rw [Function.comp_apply, htrim, Surroundings.element]
  unfold setOf
  simp only [hfound, List.filterMap_map, List.any_map, Function.comp_def]

/-- Literals are elements without a fault. -/
theorem setOf_of_literals {ts : List String}
    (h : ∀ t ∈ ts, ',' ∉ t.toList ∧ Text.isAllBlank t = false)
    (hliteral : ∀ t ∈ ts, (Literal.classify t).value?.isSome) :
    setOf s name (Text.joined ", " ts) =
      { value := .ofSet (ts.filterMap fun t => (Literal.classify t).value?), errors := [] } := by
  have helement : ∀ t ∈ ts, ∃ v, (Literal.classify t).value? = some v ∧
      s.element t = .value v := by
    intro t ht
    obtain ⟨v, hv⟩ := Option.isSome_iff_exists.mp (hliteral t ht)
    exact ⟨v, hv, element_of_value? s hv⟩
  have hvalues : ts.filterMap (fun t => (s.element t).value?) =
      ts.filterMap fun t => (Literal.classify t).value? := by
    refine List.filterMap_congr fun t ht => ?_
    obtain ⟨v, hv, hmeaning⟩ := helement t ht
    rw [hv, hmeaning]
    rfl
  have herrors : ts.filterMap (fun t => (s.element t).error? name) = [] := by
    refine List.filterMap_eq_nil_iff.mpr fun t ht => ?_
    obtain ⟨v, -, hmeaning⟩ := helement t ht
    rw [hmeaning]
    rfl
  have hnumbers : ts.any (fun t => (s.element t).isInvalidNumber) = false := by
    refine List.any_eq_false.mpr fun t ht => ?_
    obtain ⟨v, -, hmeaning⟩ := helement t ht
    rw [hmeaning]
    exact Bool.false_ne_true
  rw [setOf_joined s name h, hvalues, herrors, hnumbers]

theorem setOf_inQuotes {ts : List String} (h : ∀ t ∈ ts, ',' ∉ t.toList) :
    setOf s name (Text.joined ", " (ts.map Text.inQuotes)) =
      { value := Value.ofSet (ts.map .text), errors := [] } := by
  have hvalue : ∀ t, (Literal.classify (Text.inQuotes t)).value? = some (.text t) := by
    intro t
    rw [Text.classify_inQuotes]
    rfl
  have hquoted : ∀ q ∈ ts.map Text.inQuotes, ',' ∉ q.toList ∧ Text.isAllBlank q = false :=
    List.forall_mem_map.mpr fun t ht =>
      ⟨Text.comma_not_mem_inQuotes (h t ht), Text.isAllBlank_inQuotes t⟩
  have hliteral : ∀ q ∈ ts.map Text.inQuotes, (Literal.classify q).value?.isSome :=
    List.forall_mem_map.mpr fun t _ => by rw [hvalue t]; rfl
  have hvalues : (ts.map Text.inQuotes).filterMap (fun q => (Literal.classify q).value?) =
      ts.map .text := filterMap_map_of_forall fun t _ => hvalue t
  rw [setOf_of_literals s name hquoted hliteral, hvalues]

theorem property_inQuotes (t : String) : property (Text.inQuotes t) = .text t := by
  unfold property
  rw [Text.classify_inQuotes]

theorem entityOf_assigned {ps : List (String × String)}
    (h : ∀ p ∈ ps, Text.IsKey p.1 ∧ ',' ∉ p.2.toList) :
    entityOf name (Text.joined ", " (ps.map Text.assigned)) =
      { value := Value.ofFields (ps.map fun p => (Text.trim p.1, .text p.2)), errors := [] } := by
  have hkeyed : ∀ p ∈ ps, Text.keyed? (Text.trim (Text.assigned p)) =
      some (Text.trim p.1, Text.inQuotes p.2) := fun p hp => Text.keyed?_assigned (h p hp).1 p.2
  have hfields : (ps.map fun p => Text.trim (Text.assigned p)).filterMap Text.keyed? =
      ps.map fun p => (Text.trim p.1, Text.inQuotes p.2) := filterMap_map_of_forall hkeyed
  have hmalformed : (ps.map fun p => Text.trim (Text.assigned p)).filter
      (fun p => (Text.keyed? p).isNone) = [] := by
    refine List.filter_eq_nil_iff.mpr fun s hs => ?_
    obtain ⟨p, hp, rfl⟩ := List.mem_map.mp hs
    rw [hkeyed p hp]
    exact Bool.false_ne_true
  unfold entityOf
  rw [Text.entries_assigned h]
  simp only [hfields, hmalformed, List.map_map, List.map_nil, Function.comp_def, property_inQuotes]

end Symbol

namespace Resolution

variable {scope : Option String} {external : SymbolTable} {r : Resolution} {e : Element}
  {kind : SymbolKind} {short : String}

/-- All of a declaration but its value is in order: it has a name that is free, its kind is known,
and so is its shape if one is written. -/
structure Ready (scope : Option String) (r : Resolution) (e : Element) (kind : SymbolKind)
    (short : String) : Prop where
  name : e.name? = some short
  free : r.table.contains (Name.qualify scope short) = false
  kind : SymbolKind.ofTag? e.tag = some kind
  shape : ∃ declared, Symbol.declaredShape e (Name.qualify scope short) = .ok declared

/-- A declaration that is ready adds what its value comes to, and the faults of that. -/
theorem add_of_valueOf (h : Ready scope r e kind short) {declared : Option Shape}
    {n : Symbol.Noted}
    (hdeclared : Symbol.declaredShape e (Name.qualify scope short) = .ok declared)
    (hvalue : Symbol.valueOf ⟨scope, r.table, external⟩ e (Name.qualify scope short) kind declared =
      .ok n) :
    add scope external r e =
      ⟨r.table.insert (Name.qualify scope short) ⟨kind, kind.shape declared, n.value, e.line⟩,
        r.faults ++ (n.errors ++ Symbol.mismatch (Name.qualify scope short) (kind.shape declared)
          n).map (fault e)⟩ := by
  have hdeclare : Symbol.declare ⟨scope, r.table, external⟩ e =
      .ok ⟨Name.qualify scope short, ⟨kind, kind.shape declared, n.value, e.line⟩,
        n.errors ++ Symbol.mismatch (Name.qualify scope short) (kind.shape declared) n⟩ := by
    unfold Symbol.declare
    simp only [h.name, h.free, h.kind, hdeclared, hvalue, bind, Except.bind]
    rfl
  exact add_ok hdeclare

/-- A declaration whose value is of the shape that its kind dictates is taken as it is. -/
theorem add_of_ready (h : Ready scope r e kind short) {shape : Shape} {v : Value}
    (hshape : ∀ declared, kind.shape declared = shape)
    (hvalue : ∀ declared, Symbol.valueOf ⟨scope, r.table, external⟩ e (Name.qualify scope short)
      kind declared = .ok { value := v })
    (haccepts : shape.accepts v = true) :
    add scope external r e =
      ⟨r.table.insert (Name.qualify scope short) ⟨kind, shape, v, e.line⟩, r.faults⟩ := by
  obtain ⟨declared, hdeclared⟩ := h.shape
  have hmismatch : Symbol.mismatch (Name.qualify scope short) shape { value := v } = [] := by
    simp only [Symbol.mismatch, haccepts, Bool.or_true, if_true]
  rw [add_of_valueOf h hdeclared (hvalue declared), hshape, hmismatch, List.append_nil,
    List.map_nil, List.append_nil]

theorem add_set_inQuotes (h : Ready scope r e .set short) {ts : List String}
    (helements : e.attribute? "elements" = some (Text.joined ", " (ts.map Text.inQuotes)))
    (hts : ∀ t ∈ ts, ',' ∉ t.toList) :
    add scope external r e =
      ⟨r.table.insert (Name.qualify scope short)
        ⟨.set, .set, Value.ofSet (ts.map .text), e.line⟩, r.faults⟩ := by
  refine add_of_ready h (fun _ => rfl) (fun declared => ?_) rfl
  rw [Symbol.valueOf, helements, Option.getD_some, Symbol.setOf_inQuotes _ _ hts]

theorem add_entity_assigned (h : Ready scope r e .entity short) {ps : List (String × String)}
    (hproperties : e.attribute? "properties" = some (Text.joined ", " (ps.map Text.assigned)))
    (hps : ∀ p ∈ ps, Text.IsKey p.1 ∧ ',' ∉ p.2.toList) :
    add scope external r e =
      ⟨r.table.insert (Name.qualify scope short)
        ⟨.entity, .object, Value.ofFields (ps.map fun p => (Text.trim p.1, .text p.2)), e.line⟩,
        r.faults⟩ := by
  refine add_of_ready h (fun _ => rfl) (fun declared => ?_) rfl
  rw [Symbol.valueOf, hproperties, Option.getD_some, Symbol.entityOf_assigned _ hps]

end Resolution

/-! ### Branches -/

namespace Construct

theorem literal?_assigned {key : String} (h : Text.IsKey key) (t : String) :
    literal? (Text.trim (Text.assigned (key, t))) = some (Text.trim key, .text t) := by
  unfold literal?
  rw [Text.keyed?_assigned h, Option.bind_some, Text.classify_inQuotes]
  rfl

theorem overrides_assigned (p : Program) (f : Frame) {e : Element} {ps : List (String × String)}
    (hif : e.attribute? "if" = some (Text.joined ", " (ps.map Text.assigned)))
    (hps : ∀ b ∈ ps, Text.IsKey b.1 ∧ ',' ∉ b.2.toList) :
    overrides p f e =
      (ps.map fun b => (Name.qualify f.space (Text.trim b.1), .text b.2), []) := by
  have hentries := Text.entries_assigned hps
  have hliteral : ∀ b ∈ ps, literal? (Text.trim (Text.assigned b)) =
      some (Text.trim b.1, .text b.2) := fun b hb => literal?_assigned (hps b hb).1 b.2
  have hall : AllLiteral (Text.joined ", " (ps.map Text.assigned)) := by
    intro entry hentry
    rw [hentries] at hentry
    obtain ⟨b, hb, rfl⟩ := List.mem_map.mp hentry
    rw [hliteral b hb]
    rfl
  have hbindings : (ps.map fun b => Text.trim (Text.assigned b)).filterMap literal? =
      ps.map fun b => (Text.trim b.1, .text b.2) := filterMap_map_of_forall hliteral
  rw [overrides_of_literals p f hif hall, literals, hentries, hbindings, List.map_map]
  rfl

end Construct

/-- Texts without commas are read back from quotes as they are, blank or not, whatever they look
like: the elements of a set are exactly the texts; an object has each trimmed key of its properties,
with the last text that is written for it; and the overrides of a branch are the texts under the
trimmed keys inside the namespace, in order. Nothing is reported of any of them. -/
theorem quoted_texts_read :
    (∀ (scope : Option String) (external : SymbolTable) (r : Resolution) (e : Element)
      (short : String) (ts : List String), Resolution.Ready scope r e .set short →
      e.attribute? "elements" = some (Text.joined ", " (ts.map Text.inQuotes)) →
      (∀ t ∈ ts, ',' ∉ t.toList) →
      ∃ items, Resolution.add scope external r e =
          ⟨r.table.insert (Name.qualify scope short) ⟨.set, .set, .set items, e.line⟩, r.faults⟩ ∧
        Value.Ascending items ∧ ∀ v, v ∈ items ↔ ∃ t ∈ ts, .text t = v) ∧
    (∀ (scope : Option String) (external : SymbolTable) (r : Resolution) (e : Element)
      (short : String) (ps : List (String × String)), Resolution.Ready scope r e .entity short →
      e.attribute? "properties" = some (Text.joined ", " (ps.map Text.assigned)) →
      (∀ p ∈ ps, Text.IsKey p.1 ∧ ',' ∉ p.2.toList) →
      ∃ fields, Resolution.add scope external r e =
          ⟨r.table.insert (Name.qualify scope short) ⟨.entity, .object, .object fields, e.line⟩,
            r.faults⟩ ∧
        Entries.Ascending fields ∧ ∀ key, Entries.get? fields key =
          (ps.reverse.find? fun p => Text.trim p.1 = key).map fun p => .text p.2) ∧
    ∀ (p : Program) (f : Frame) (e : Element) (ps : List (String × String)),
      e.attribute? "if" = some (Text.joined ", " (ps.map Text.assigned)) →
      (∀ b ∈ ps, Text.IsKey b.1 ∧ ',' ∉ b.2.toList) →
      Construct.overrides p f e =
        (ps.map fun b => (Name.qualify f.space (Text.trim b.1), .text b.2), []) := by
  refine ⟨fun scope external r e short ts hready helements hts => ?_,
    fun scope external r e short ps hready hproperties hps => ?_,
    fun p f e ps hif hps => Construct.overrides_assigned p f hif hps⟩
  · refine ⟨_, Resolution.add_set_inQuotes hready helements hts,
      Value.ascending_sortedElements _, fun v => ?_⟩
    rw [Value.mem_sortedElements, List.mem_map]
  · refine ⟨_, Resolution.add_entity_assigned hready hproperties hps,
      Entries.ascending_foldl_insert .nil _, fun key => ?_⟩
    rw [Entries.get?_foldl_insert, ← List.map_reverse, List.find?_map, Option.map_map]
    simp only [Function.comp_def]
    exact Option.or_none

/-- A set of texts that would be read as something else without their quotes. -/
def lookalikes : Element :=
  ((Element.leaf "set").setAttribute "name" "s").setAttribute "elements"
    "'', ' 2 ', 'true', 'a=b', '''"

/-- An entity that has one of its keys twice. -/
def repeatedKeys : Element :=
  ((Element.leaf "entity").setAttribute "name" "o").setAttribute "properties"
    " k ='1', k='=x', m=' '"

/-- A branch with the same assignments. -/
def assumingTexts : Element :=
  ((Element.leaf "branch").setAttribute "name" "b").setAttribute "if" " k ='1', k='=x', m=' '"

theorem quoted_texts_read_lookalikes :
    (∃ items, Resolution.add none ∅ {} lookalikes =
        ⟨(∅ : SymbolTable).insert "s" ⟨.set, .set, .set items, none⟩, []⟩ ∧
      .text "" ∈ items ∧ .text " 2 " ∈ items ∧ .text "'" ∈ items ∧ .number 2 ∉ items) ∧
    (∃ fields, Resolution.add none ∅ {} repeatedKeys =
        ⟨(∅ : SymbolTable).insert "o" ⟨.entity, .object, .object fields, none⟩, []⟩ ∧
      Entries.get? fields "k" = some (.text "=x") ∧ Entries.get? fields " k " = none) ∧
    Construct.overrides ⟨∅, ∅, ∅, {}⟩ (.ofDocument ⟨∅, ∅⟩ (some "lib")) assumingTexts =
      ([("lib.k", .text "1"), ("lib.k", .text "=x"), ("lib.m", .text " ")], []) := by
  let ts := ["", " 2 ", "true", "a=b", "'"]
  let ps := [(" k ", "1"), ("k", "=x"), ("m", " ")]
  have hset : Resolution.Ready none {} lookalikes .set "s" :=
    ⟨by decide, by decide, by decide, none, rfl⟩
  have hentity : Resolution.Ready none {} repeatedKeys .entity "o" :=
    ⟨by decide, by decide, by decide, none, rfl⟩
  obtain ⟨hread, hobject, hoverrides⟩ := quoted_texts_read
  obtain ⟨items, hitems, -, hmem⟩ :=
    hread none ∅ {} lookalikes "s" ts hset (by decide) (by decide)
  obtain ⟨fields, hfields, -, hget⟩ :=
    hobject none ∅ {} repeatedKeys "o" ps hentity (by decide) (by decide)
  refine ⟨⟨items, hitems, ?_, ?_, ?_, ?_⟩, ⟨fields, hfields, ?_, ?_⟩, ?_⟩
  · exact (hmem _).mpr ⟨"", by simp [ts], rfl⟩
  · exact (hmem _).mpr ⟨" 2 ", by simp [ts], rfl⟩
  · exact (hmem _).mpr ⟨"'", by simp [ts], rfl⟩
  · rw [hmem]
    rintro ⟨t, -, ht⟩
    cases ht
  · rw [hget]
    rfl
  · rw [hget]
    rfl
  · exact hoverrides _ _ assumingTexts ps (by decide) (by decide)

end Premise
