import Mathlib.Data.List.Pairwise
import Premise.Proofs.Provenance
import Premise.Proofs.Table

/-!
What generated names can be mistaken for.

A number is spelled as a tag and digits, without a point, so that two numbers are spelled alike only
if they are the same (`text_injective`), and a result's name falls apart at its points into its
numbers and the pieces of what was written. Names of two results are therefore the same only if the
results have the same numbers, or if something that the document writes is spelled like a number.
Nothing keeps a document from that: names are generated without a look at those that are there.
-/

namespace Premise

namespace Label

/-! ### How numbers are spelled -/

/-- The tags of constructs that are numbered. -/
def numberedTags : List String :=
  ["query", "exists", "forall", "aggregate", "counterfactual", "branch"]

theorem mem_numberedTags {tag : String} (h : (Role.ofTag tag).takesName = true) :
    tag ∈ numberedTags := by
  unfold Role.ofTag at h
  repeat' split at h
  all_goals simp_all [numberedTags, Role.takesName]

/-- What stands between two labels. -/
def isPoint (c : Char) : Bool := c == '.'

theorem not_isDigit_of_mem_numberedTags {tag : String} (h : tag ∈ numberedTags) :
    ∀ c ∈ tag.toList, c.isDigit = false ∧ isPoint c = false := by
  intro c hc
  have hall : numberedTags.all (fun t => t.toList.all fun c => !c.isDigit && !isPoint c) = true :=
    rfl
  have hplain := List.all_eq_true.mp (List.all_eq_true.mp hall tag h) c hc
  simpa using hplain

variable {tag tag' : String} {n n' : Nat}

theorem toList_text_generated :
    (generated tag n).text.toList = tag.toList ++ Nat.toDigits 10 n := by
  show (tag ++ toString n).toList = _
  rw [String.toList_append, Nat.toString_eq_ofList_toDigits, String.toList_ofList]

theorem isDigit_of_mem_digits {c : Char} (h : c ∈ Nat.toDigits 10 n) : c.isDigit = true :=
  Nat.isDigit_of_mem_toDigits (by decide) (by decide) h

theorem pieces_text_generated (h : tag ∈ numberedTags) :
    Text.pieces isPoint (generated tag n).text.toList = [(generated tag n).text.toList] := by
  refine Text.pieces_of_all fun c hc => ?_
  rw [toList_text_generated] at hc
  rcases List.mem_append.mp hc with htag | hdigit
  · exact (not_isDigit_of_mem_numberedTags h c htag).2
  · refine Bool.eq_false_iff.mpr fun hpoint => ?_
    have hd := isDigit_of_mem_digits hdigit
    rw [eq_of_beq (show (c == '.') = true from hpoint)] at hd
    exact absurd hd (by decide)

/-- The tag ends where the digits start. -/
theorem takeWhile_text_generated (h : tag ∈ numberedTags) :
    (generated tag n).text.toList.takeWhile (fun c => !c.isDigit) = tag.toList := by
  have htag : ∀ c ∈ tag.toList, (!c.isDigit) = true := fun c hc => by
    rw [(not_isDigit_of_mem_numberedTags h c hc).1]
    rfl
  have hdigits : ∀ c ∈ (Nat.toDigits 10 n).head?, (!c.isDigit) = false := by
    intro c hc
    rw [isDigit_of_mem_digits (List.mem_of_mem_head? hc)]
    rfl
  rw [toList_text_generated, Text.takeWhile_run htag hdigits]

theorem text_injective (h : tag ∈ numberedTags) (h' : tag' ∈ numberedTags)
    (htext : (generated tag n).text.toList = (generated tag' n').text.toList) :
    generated tag n = generated tag' n' := by
  have htag : tag = tag' := by
    rw [← String.toList_inj, ← @takeWhile_text_generated tag n h, htext,
      takeWhile_text_generated h']
  subst htag
  rw [toList_text_generated, toList_text_generated] at htext
  have hdigits : Nat.toDigits 10 n = Nat.toDigits 10 n' := List.append_cancel_left htext
  have hn : n = n' := by
    calc n = Nat.ofDigitChars 10 (Nat.toDigits 10 n) 0 := Nat.ofDigitChars_ten_toDigits.symm
      _ = Nat.ofDigitChars 10 (Nat.toDigits 10 n') 0 := by rw [hdigits]
      _ = n' := Nat.ofDigitChars_ten_toDigits
  rw [hn]

/-- What a label adds to a name, between its points. Numbers are marked. -/
def parts : Label → List (Bool × List Char)
  | .written name => (Text.pieces isPoint name.toList).map (false, ·)
  | .generated tag n => [(true, (generated tag n).text.toList)]

theorem map_parts (l : Label) (h : ∀ tag n, l = .generated tag n → tag ∈ numberedTags) :
    l.parts.map Prod.snd = Text.pieces isPoint l.text.toList := by
  cases l with
  | written name =>
    show ((Text.pieces isPoint name.toList).map (false, ·)).map Prod.snd = _
    rw [List.map_map]
    exact List.map_id _
  | generated tag n => exact (pieces_text_generated (h tag n rfl)).symm

end Label

namespace Record

open Label (isPoint numberedTags)

theorem Regular.mem_numberedTags {r : Record} (h : r.Regular) {tag : String} {n : Nat}
    (hlabel : .generated tag n ∈ r.labels) : tag ∈ numberedTags :=
  Label.mem_numberedTags (h.role tag n hlabel)

def parts (r : Record) : List (Bool × List Char) := r.labels.flatMap Label.parts

/-- A name falls apart at its points into the parts of its labels. -/
theorem map_parts (r : Record) (h : ∀ tag n, .generated tag n ∈ r.labels → tag ∈ numberedTags) :
    r.parts.map Prod.snd = Text.pieces isPoint r.name.toList := by
  obtain ⟨around, own, v⟩ := r
  induction around with
  | nil =>
    show (own.parts ++ []).map Prod.snd = Text.pieces isPoint own.text.toList
    rw [List.append_nil]
    exact own.map_parts fun tag n hown => h tag n (hown ▸ .head _)
  | cons l around ih =>
    let inner : Record := ⟨around, own, v⟩
    have hname : (inner.inside l).name.toList = l.text.toList ++ '.' :: inner.name.toList := by
      show (l.text ++ "." ++ inner.name).toList = _
      simp
    show (l.parts ++ inner.parts).map Prod.snd = Text.pieces isPoint (inner.inside l).name.toList
    rw [List.map_append, hname, Text.pieces_append (by decide),
      ih fun tag n hmem => h tag n (.tail l hmem),
      l.map_parts fun tag n hl => h tag n (hl ▸ .head _)]

/-- Whether something that is written in the labels of the one is spelled like a number in those of
the other. -/
def imitates (r r' : Record) : Bool :=
  r.parts.any fun p => !p.1 && r'.parts.contains (true, p.2)

/-- The numbers in the labels are the same. -/
def SameNumbers (r r' : Record) : Prop :=
  ∀ l : Label, l.isGenerated = true → (l ∈ r.labels ↔ l ∈ r'.labels)

/-- Marked lists that are the same without the marks are the same with them, or something is marked
in one of them only. -/
theorem eq_or_marked {α : Type} {ps qs : List (Bool × α)}
    (h : ps.map Prod.snd = qs.map Prod.snd) : ps = qs ∨
      ∃ a, ((false, a) ∈ ps ∧ (true, a) ∈ qs) ∨ ((true, a) ∈ ps ∧ (false, a) ∈ qs) := by
  induction ps generalizing qs with
  | nil => exact .inl (List.map_eq_nil_iff.mp h.symm).symm
  | cons p ps ih =>
    obtain ⟨marked, a⟩ := p
    cases qs with
    | nil => cases h
    | cons q qs =>
      obtain ⟨marked', a'⟩ := q
      obtain ⟨ha, hrest⟩ := List.cons.inj h
      cases (ha : a = a')
      rcases ih hrest with rfl | ⟨b, hb⟩
      · cases marked <;> cases marked'
        · exact .inl rfl
        · exact .inr ⟨a, .inl ⟨.head _, .head _⟩⟩
        · exact .inr ⟨a, .inr ⟨.head _, .head _⟩⟩
        · exact .inl rfl
      · exact .inr ⟨b, hb.imp (fun h => ⟨.tail _ h.1, .tail _ h.2⟩)
          fun h => ⟨.tail _ h.1, .tail _ h.2⟩⟩

theorem mem_parts_of_generated {r : Record} {tag : String} {n : Nat}
    (h : .generated tag n ∈ r.labels) : (true, (Label.generated tag n).text.toList) ∈ r.parts :=
  List.mem_flatMap.mpr ⟨_, h, .head _⟩

theorem generated_of_mem_parts {r : Record} {cs : List Char} (h : (true, cs) ∈ r.parts) :
    ∃ tag n, .generated tag n ∈ r.labels ∧ cs = (Label.generated tag n).text.toList := by
  obtain ⟨l, hl, hmem⟩ := List.mem_flatMap.mp h
  cases l with
  | written name =>
    obtain ⟨_, -, hfalse⟩ := List.mem_map.mp hmem
    cases hfalse
  | generated tag n => exact ⟨tag, n, hl, congrArg Prod.snd (List.mem_singleton.mp hmem)⟩

theorem mem_labels_of_parts {r r' : Record} (h : r.Regular) (h' : r'.Regular)
    (hparts : r.parts = r'.parts) {l : Label} (hl : l.isGenerated = true) (hmem : l ∈ r.labels) :
    l ∈ r'.labels := by
  cases l with
  | written name => cases hl
  | generated tag n =>
    obtain ⟨tag', n', hmem', htext⟩ :=
      generated_of_mem_parts (hparts ▸ mem_parts_of_generated hmem)
    rwa [Label.text_injective (h.mem_numberedTags hmem) (h'.mem_numberedTags hmem') htext]

/-- A number that a construct has to itself is not in the labels of another one. -/
theorem Apart.own_not_mem {r r' : Record} (hapart : r.Apart r') (h : r.Regular)
    (hown : r.own.isGenerated = true) : r.own ∉ r'.labels := by
  intro hmem
  obtain ⟨before, after, -, haround, -⟩ := hapart r.own hown r.own_mem_labels hmem
  refine h.own hown ?_
  rw [haround]
  exact List.mem_append_right _ (.head _)

/-- Results that go by one name have the same numbers, and it is no construct's own one, unless
something written is spelled like a number. -/
theorem Apart.of_name_eq {r r' : Record} (hapart : r.Apart r') (h : r.Regular) (h' : r'.Regular)
    (hname : r.name = r'.name) :
    r.imitates r' = true ∨ r'.imitates r = true ∨
      (r.SameNumbers r' ∧ r.own.isGenerated = false ∧ r'.own.isGenerated = false) := by
  have hpieces : r.parts.map Prod.snd = r'.parts.map Prod.snd := by
    rw [r.map_parts fun _ _ => h.mem_numberedTags, r'.map_parts fun _ _ => h'.mem_numberedTags,
      hname]
  have imitates_of : ∀ {s t : Record} {cs : List Char}, (false, cs) ∈ s.parts →
      (true, cs) ∈ t.parts → s.imitates t = true := fun hs ht =>
    List.any_eq_true.mpr ⟨_, hs, List.contains_iff_mem.mpr ht⟩
  rcases eq_or_marked hpieces with hparts | ⟨cs, ⟨hmem, hmem'⟩ | ⟨hmem, hmem'⟩⟩
  · refine .inr (.inr ⟨fun l hl => ⟨mem_labels_of_parts h h' hparts hl,
      mem_labels_of_parts h' h hparts.symm hl⟩, ?_, ?_⟩)
    · refine Bool.eq_false_iff.mpr fun hown => hapart.own_not_mem h hown ?_
      exact mem_labels_of_parts h h' hparts hown r.own_mem_labels
    · refine Bool.eq_false_iff.mpr fun hown => (symm hapart).own_not_mem h' hown ?_
      exact mem_labels_of_parts h' h hparts.symm hown r'.own_mem_labels
  · exact .inl (imitates_of hmem hmem')
  · exact .inr (.inl (imitates_of hmem' hmem))

end Record

namespace Engine

/-- What is recorded are the records of the run, and no number is given to two constructs. Two
results go by one name only if they have the same numbers, those of branches that both come from, or
if something that is written in the one is spelled like a number in the other. Where nothing is, the
result of a construct without a name is there in the end. -/
theorem generated_names (engine : Engine) (linked : Linked) (root : Element) :
    let rs : List Record := engine.records linked root
    let s : Session := engine.run linked root
    s.writes = rs.map Record.entry ∧ rs.Pairwise Record.Apart ∧
    rs.Pairwise (fun r r' => r.name = r'.name →
      r.imitates r' = true ∨ r'.imitates r = true ∨
        (r.SameNumbers r' ∧ r.own.isGenerated = false ∧ r'.own.isGenerated = false)) ∧
    ∀ r ∈ rs, r.own.isGenerated = true →
      (∀ r' ∈ rs, r.imitates r' = false ∧ r'.imitates r = false) →
      s.results.get? r.name = some r.value := by
  intro rs s
  have hwrites : s.writes = rs.map Record.entry := engine.run_writes linked root
  have hapart : rs.Pairwise Record.Apart := engine.records_apart linked root
  refine ⟨hwrites, hapart, hapart.imp_of_mem fun hr hr' h hname =>
    h.of_name_eq (records_regular hr) (records_regular hr') hname, fun r hr hown hclear => ?_⟩
  have hothers : ∀ r' ∈ rs, r'.name = r.name → r'.value = r.value := by
    intro r' hr' hname
    by_contra hvalue
    have hne : r ≠ r' := fun heq => hvalue (heq ▸ rfl)
    rcases (hapart.forall hr hr' hne).of_name_eq (records_regular hr) (records_regular hr')
      hname.symm with himitates | himitates | ⟨-, hwritten, -⟩
    · rw [(hclear r' hr').1] at himitates
      cases himitates
    · rw [(hclear r' hr').2] at himitates
      cases himitates
    · rw [hown] at hwritten
      cases hwritten
  show (Table.ofList s.writes).get? r.name = some r.value
  rw [hwrites]
  refine Table.get?_insertAll_of_unique _ (List.mem_map.mpr ⟨r, hr, rfl⟩) fun e he hname => ?_
  obtain ⟨r', hr', rfl⟩ := List.mem_map.mp he
  exact hothers r' hr' hname

/-- A query of that name, and another one in a branch that has no name. -/
def branched (name : String) : Element :=
  let query := fun name expr =>
    ((Element.leaf "query").setAttribute "name" name).setAttribute "expr" expr
  (Element.leaf "tenet").addChildren
    [query name "'a'", (Element.leaf "branch").addChild (query "x" "'b'")]

def isolated : Engine := { library := .ofDocuments ∅ }

theorem generated_names_branched :
    let root := (branched "x").addChild ((Element.leaf "query").setAttribute "expr" "'c'")
    (isolated.records {} root).map Record.name = ["x", "branch1.x", "query1"] ∧
    (isolated.run {} root).results.get? "query1" = some (.text "c") := by
  intro root
  let rs : List Record := [⟨[], .written "x", .text "a"⟩,
    ⟨[.generated "branch" 1], .written "x", .text "b"⟩, ⟨[], .generated "query" 1, .text "c"⟩]
  have hrs : isolated.records {} root = rs := by rfl
  obtain ⟨-, -, -, hkept⟩ := isolated.generated_names {} root
  rw [hrs] at hkept ⊢
  refine ⟨by decide +kernel, hkept ⟨[], .generated "query" 1, .text "c"⟩ ?_ rfl ?_⟩
  · exact .tail _ (.tail _ (.head _))
  · decide +kernel

/-- The result of a query is lost to a branch without a name. -/
theorem generated_name_taken :
    let root := branched "branch1.x"
    let rs := isolated.records (isolated.linkChecked root none) root
    let results := (isolated.evaluate (some root) none).results
    rs.map Record.name = ["branch1.x", "branch1.x"] ∧
    rs.map (fun r => r.labels.any Label.isGenerated) = [false, true] ∧
    results.toList.map (fun w => (w.1, w.2.text?)) = [("branch1.x", some "b")] := by
  decide +kernel

end Engine

end Premise
