import Premise.Element.Json
import Premise.Proofs.JsonText
import Premise.Proofs.Table
import Premise.Proofs.Walk

/-!
Documents survive their JSON form.

Writing leaves out what an element does not have, and reading takes for missing what is left out, so
each member is read as what it was written for (`members?_json` and the lemmas on the members). An
element takes a level of nesting, its attributes another one, and its children one for their list
besides their own, in writing as in reading. So what nests within the limit is read as the same
document, from the values and from their text (`ofJson?_json`, `read?_written`), and what nests
deeper is refused. Lines are below the bound of a machine word, as those of documents are.
-/

namespace Premise

namespace Json

mutual

/-- How deep objects and arrays nest. -/
def nesting : Json → Nat
  | .array items => nestingAll items + 1
  | .object members => nestingMembers members + 1
  | _ => 0

def nestingAll : List Json → Nat
  | [] => 0
  | v :: vs => max (nesting v) (nestingAll vs)

def nestingMembers : List (String × Json) → Nat
  | [] => 0
  | (_, v) :: ms => max (nesting v) (nestingMembers ms)

end

end Json

namespace Element

/-! ### Members -/

/-- The member for the attributes, where there are any. -/
def attributesJson? (t : Table String) : Option Json :=
  if t.isEmpty then none else some (.object (t.toList.map fun a => (a.1, .text a.2)))

def childrenJson? (es : List Element) : Option Json :=
  if es.isEmpty then none else some (.array (jsonAll es))

theorem isSome_attributesJson? (t : Table String) : (attributesJson? t).isSome = !t.isEmpty := by
  unfold attributesJson?
  cases t.isEmpty <;> rfl

theorem isSome_childrenJson? (es : List Element) : (childrenJson? es).isSome = !es.isEmpty := by
  unfold childrenJson?
  cases es.isEmpty <;> rfl

theorem members?_json (tag : String) (attributes : Table String) (children : List Element)
    (text : Option String) (line : Option Nat) :
    members? (json ⟨tag, attributes, children, text, line⟩) =
      some ⟨.text tag, attributesJson? attributes, childrenJson? children, text.map .text,
        line.map .natural⟩ := by
  unfold json
  show members? (.objectOf [_, ("attributes", attributesJson? attributes),
    ("children", childrenJson? children), _, _]) = _
  cases attributesJson? attributes <;> cases childrenJson? children <;> cases text <;>
    cases line <;> rfl

theorem eq_empty_of_isEmpty {t : Table String} (h : t.isEmpty = true) : t = ∅ := by
  obtain ⟨entries, ascending⟩ := t
  cases entries with
  | nil => rfl
  | cons e es => cases h

theorem attributesOf?_toList (t : Table String) :
    attributesOf? (.object (t.toList.map fun a => (a.1, .text a.2))) = some t := by
  refine Eq.trans ?_ (congrArg some t.ofList_toList)
  show _ = some (Table.insertAll ∅ t.toList)
  rw [attributesOf?]
  generalize (∅ : Table String) = read
  induction t.toList generalizing read with
  | nil => rfl
  | cons a rest ih =>
    rw [List.map_cons, List.foldlM_cons]
    exact ih (read.insert a.1 a.2)

theorem orDefault_attributes (t : Table String) :
    orDefault ∅ attributesOf? (attributesJson? t) = some t := by
  unfold attributesJson?
  split
  · rename_i hempty
    rw [eq_empty_of_isEmpty hempty]
    rfl
  · exact attributesOf?_toList t

theorem orDefault_text (text : Option String) :
    orDefault none textOf? (text.map .text) = some text := by
  cases text <;> rfl

theorem lineOf?_natural {n : Nat} (h : n < lineBound) : lineOf? (toString n) = some n := by
  have hdigits : (toString n).toList.all Char.isDigit = true :=
    List.all_eq_true.mpr (Json.isDigit_natural n)
  have hvalue : Number.digitsValue (toString n).toList = n := by
    rw [Json.toList_natural]
    exact Nat.ofDigitChars_toDigits (by decide) (by decide)
  unfold lineOf?
  simp only [hdigits, hvalue, h, decide_true, Bool.and_self, if_true]

theorem orDefault_line {line : Option Nat} (h : ∀ n ∈ line, n < lineBound) :
    orDefault none lineMember? (line.map .natural) = some line := by
  cases line with
  | none => rfl
  | some n =>
    show (lineOf? (toString n)).map some = _
    rw [lineOf?_natural (h n rfl)]
    rfl

/-! ### Nesting -/

theorem nestingMembers_attributes (es : List (String × String)) :
    Json.nestingMembers (es.map fun a => (a.1, .text a.2)) = 0 := by
  induction es with
  | nil => rfl
  | cons a es ih =>
    rw [List.map_cons, Json.nestingMembers, ih]
    rfl

theorem nesting_json (tag : String) (attributes : Table String) (children : List Element)
    (text : Option String) (line : Option Nat) :
    (json ⟨tag, attributes, children, text, line⟩).nesting =
      max (if attributes.isEmpty then 0 else 1)
        (if children.isEmpty then 0 else Json.nestingAll (jsonAll children) + 1) + 1 := by
  unfold json Json.objectOf
  have hattributes := nestingMembers_attributes attributes.toList
  cases text <;> cases line <;> split <;> split <;>
    simp [Json.nesting, Json.nestingMembers, Json.natural, hattributes]

/-! ### Elements -/

/-- On the last level there is room for the element alone. -/
theorem ofJson?_one {v : Json} {tag : String} {attributes children text line : Option Json}
    (h : members? v = some ⟨.text tag, attributes, children, text, line⟩) :
    ofJson? 1 v =
      if attributes.isSome || children.isSome then none
      else (orDefault none textOf? text).bind fun text =>
        (orDefault none lineMember? line).bind fun line => some ⟨tag, ∅, [], text, line⟩ := by
  rw [ofJson?, h]
  cases hsome : attributes.isSome || children.isSome <;>
    simp only [tagOf?, hsome, Option.bind_eq_bind, Option.bind_some] <;> rfl

mutual

theorem ofJson?_json (e : Element) (hlines : ∀ d ∈ preorder e, ∀ n ∈ d.line, n < lineBound)
    {levels : Nat} (hnesting : e.json.nesting ≤ levels) : ofJson? levels e.json = some e := by
  cases e with
  | mk tag attributes children text line =>
    have hline : ∀ n ∈ line, n < lineBound := hlines _ List.mem_cons_self
    rw [nesting_json] at hnesting
    match levels with
    | 0 => exact absurd hnesting (Nat.not_succ_le_zero _)
    | 1 =>
      have hattributes : attributes.isEmpty = true := by
        by_contra hsome
        rw [if_neg hsome] at hnesting
        omega
      have hchildren : children.isEmpty = true := by
        by_contra hsome
        rw [if_neg hsome] at hnesting
        omega
      rw [eq_empty_of_isEmpty hattributes, List.isEmpty_iff.mp hchildren,
        ofJson?_one (members?_json ..), orDefault_text, orDefault_line hline]
      rfl
    | levels + 2 =>
      rw [ofJson?, members?_json]
      simp only [tagOf?, orDefault_attributes, orDefault_text, orDefault_line hline,
        Option.bind_eq_bind, Option.bind_some]
      by_cases hnone : children.isEmpty = true
      · rw [List.isEmpty_iff.mp hnone]
        rfl
      · rw [if_neg hnone] at hnesting
        have hbelow : Json.nestingAll (jsonAll children) ≤ levels := by omega
        have hchildren := mapM_ofJson?_json children
          (fun d hd => hlines d (List.mem_cons_of_mem _ hd)) hbelow
        rw [childrenJson?, if_neg hnone]
        simp only [hchildren, Option.bind_some]

theorem mapM_ofJson?_json (es : List Element)
    (hlines : ∀ d ∈ preorderAll es, ∀ n ∈ d.line, n < lineBound) {levels : Nat}
    (hnesting : Json.nestingAll (jsonAll es) ≤ levels) :
    (jsonAll es).mapM (ofJson? levels) = some es := by
  cases es with
  | nil => rfl
  | cons e es =>
    have hall : max e.json.nesting (Json.nestingAll (jsonAll es)) ≤ levels := hnesting
    have he := ofJson?_json e (fun d hd => hlines d (List.mem_append_left _ hd))
      (Nat.le_trans (Nat.le_max_left ..) hall)
    have hes := mapM_ofJson?_json es (fun d hd => hlines d (List.mem_append_right _ hd))
      (Nat.le_trans (Nat.le_max_right ..) hall)
    rw [jsonAll, List.mapM_cons, he, hes]
    rfl

end

mutual

/-- What nests deeper than may be is refused, wherever it does. -/
theorem ofJson?_json_deep (e : Element) {levels : Nat} (h : levels < e.json.nesting) :
    ofJson? levels e.json = none := by
  cases e with
  | mk tag attributes children text line =>
    rw [nesting_json] at h
    match levels with
    | 0 => rfl
    | 1 =>
      have hsome : (!attributes.isEmpty || !children.isEmpty) = true := by
        cases hattributes : attributes.isEmpty with
        | false => rfl
        | true => cases hchildren : children.isEmpty with
          | false => rfl
          | true =>
            rw [hattributes, hchildren] at h
            exact absurd h (Nat.lt_irrefl _)
      rw [← isSome_attributesJson?, ← isSome_childrenJson?] at hsome
      rw [ofJson?_one (members?_json ..), if_pos hsome]
    | levels + 2 =>
      have hnone : children.isEmpty ≠ true := by
        intro hempty
        rw [if_pos hempty] at h
        split at h <;> omega
      rw [if_neg hnone] at h
      have hbelow : levels < Json.nestingAll (jsonAll children) := by
        split at h <;> omega
      rw [ofJson?, members?_json, childrenJson?, if_neg hnone]
      simp only [tagOf?, orDefault_attributes, mapM_ofJson?_json_deep children hbelow,
        Option.bind_eq_bind, Option.bind_some, Option.bind_none]

theorem mapM_ofJson?_json_deep (es : List Element) {levels : Nat}
    (h : levels < Json.nestingAll (jsonAll es)) : (jsonAll es).mapM (ofJson? levels) = none := by
  cases es with
  | nil => cases h
  | cons e es =>
    have hone : levels < max e.json.nesting (Json.nestingAll (jsonAll es)) := h
    rw [jsonAll, List.mapM_cons]
    by_cases he : levels < e.json.nesting
    · rw [ofJson?_json_deep e he]
      rfl
    · have hes : levels < Json.nestingAll (jsonAll es) := by omega
      rw [mapM_ofJson?_json_deep es hes]
      cases ofJson? levels e.json <;> rfl

end

/-! ### Text -/

mutual

theorem isWritten_json (e : Element) : e.json.IsWritten := by
  cases e with
  | mk tag attributes children text line =>
    refine Json.isWritten_objectOf ?_
    simp only [List.forall_mem_cons]
    refine ⟨?tag, ?attributes, ?children, ?text, ?line, nofun⟩
    case tag =>
      rintro v ⟨⟩
      trivial
    case attributes =>
      intro v hv
      split at hv
      · cases hv
      · cases hv
        refine Json.isWrittenMembers_of_mem fun m hm => ?_
        obtain ⟨a, -, rfl⟩ := List.mem_map.mp hm
        trivial
    case children =>
      intro v hv
      split at hv
      · cases hv
      · cases hv
        exact isWrittenAll_json children
    case text =>
      intro v hv
      obtain ⟨s, -, rfl⟩ := Option.map_eq_some_iff.mp hv
      trivial
    case line =>
      intro v hv
      obtain ⟨n, -, rfl⟩ := Option.map_eq_some_iff.mp hv
      exact Json.isNumeral_natural n

theorem isWrittenAll_json (es : List Element) : Json.IsWrittenAll (jsonAll es) := by
  cases es with
  | nil => trivial
  | cons e es => exact ⟨isWritten_json e, isWrittenAll_json es⟩

end

theorem read?_written_eq (e : Element) : read? e.written = ofJson? nestingLimit e.json := by
  unfold read? written
  rw [Json.read?_compact (isWritten_json e)]
  rfl

/-- A document whose JSON form nests no deeper than may be is what is read from its text. -/
theorem read?_written {e : Element} (hlines : ∀ d ∈ preorder e, ∀ n ∈ d.line, n < lineBound)
    (hnesting : e.json.nesting ≤ nestingLimit) : read? e.written = some e := by
  rw [read?_written_eq, ofJson?_json e hlines hnesting]

/-- Two attributes whose names and values need escapes, and two children, one of which has a text
that is empty and a line. -/
def annotated : Element :=
  ⟨"note", .ofList [("say \"so\"", "a\\b\n"), ("ключ", "\t\x01")],
    [⟨"text", ∅, [], some "", some 3⟩, ⟨"text", ∅, [leaf "empty"], none, none⟩], none, none⟩

theorem read?_written_annotated :
    (∀ d ∈ preorder annotated, ∀ n ∈ d.line, n < lineBound) ∧
      annotated.json.nesting ≤ nestingLimit ∧ read? annotated.written = some annotated := by
  have hlines : ∀ d ∈ preorder annotated, ∀ n ∈ d.line, n < lineBound := by decide
  have hnesting : annotated.json.nesting ≤ nestingLimit := by decide +kernel
  exact ⟨hlines, hnesting, read?_written hlines hnesting⟩

theorem read?_written_deep {e : Element} (h : nestingLimit < e.json.nesting) :
    read? e.written = none := by
  rw [read?_written_eq, ofJson?_json_deep e h]

end Element

end Premise
