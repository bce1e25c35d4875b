import Premise.Engine
import Premise.Proofs.Linking

/-!
What the names of constraints stand for once documents are merged.

A document lists its constraints by name, and their names are looked up among the rules of the whole
linked document. For its own constraints that makes no difference: its own rules come first. The
constraints of a document that was imported in full can have lost their names to other rules on the
way, to those of an importing document or of an earlier import, and then the name stands for the
other rule. That is so only if a conflict was reported for the name.
-/

namespace Premise

/-- A rule that is found by its name is what its name stands for. -/
theorem Rulebook.filterMap_get? {b : Rulebook} {rs : List Rule}
    (h : ∀ r ∈ rs, b.get? r.name = some r) : (rs.map Rule.name).filterMap b.get? = rs := by
  have hsome : ∀ r ∈ rs, (b.get? ∘ Rule.name) r = some r := h
  rw [List.filterMap_map, List.filterMap_congr hsome, List.filterMap_some]

namespace Link

variable {library : Library} {limits : Limits} {p : Position} {root : Element}

/-! ### Documents that are imported in full -/

namespace Brought

/-- The documents whose constructs an import asks for: the one it brings and those that this one
imports in full itself, in the order of their evaluation. -/
def fullImports (c : Brought) : List FullImport :=
  if c.element.attribute? "scope" = some "full" then
    c.linked.fullImports ++
      [⟨c.accepted.root, c.accepted.position.space, c.linked.constraints⟩]
  else []

end Brought

theorem fullImports_foldl (es : List Element) (g : Gathered) :
    (es.foldl (addImport (acceptAt library limits p) (link library limits)) g).fullImports =
      g.fullImports ++
        (es.filterMap (brought? library limits p)).flatMap Brought.fullImports := by
  induction es generalizing g with
  | nil => exact (List.append_nil _).symm
  | cons e es ih =>
    rw [List.foldl_cons, ih]
    unfold addImport
    cases haccept : acceptAt library limits p e with
    | error error => rw [List.filterMap_cons_none (brought?_of_error haccept)]
    | ok a =>
      rw [List.filterMap_cons_some (brought?_of_ok haccept), List.flatMap_cons,
        ← List.append_assoc]
      congr 1
      show (if _ then _ else _) = _ ++ (if _ then _ else _)
      split
      · exact List.append_assoc ..
      · exact (List.append_nil _).symm

theorem fullImports_link (library : Library) (limits : Limits) (p : Position) (root : Element) :
    (link library limits p root).fullImports =
      (brought library limits p root).flatMap Brought.fullImports := by
  rw [(link_parts library limits p root).2.2.2.2]
  exact fullImports_foldl _ {}

/-- The document at the second position is imported in full by the one at the first, or by one that
is. -/
inductive ImportedInFull (library : Library) (limits : Limits) :
    Position → Element → Position → Element → Prop
  | here {p : Position} {root : Element} {c : Brought} (brings : c ∈ brought library limits p root)
      (full : c.element.attribute? "scope" = some "full") :
      ImportedInFull library limits p root c.accepted.position c.accepted.root
  | within {p q : Position} {root doc : Element} {c : Brought}
      (brings : c ∈ brought library limits p root)
      (full : c.element.attribute? "scope" = some "full")
      (inner : ImportedInFull library limits c.accepted.position c.accepted.root q doc) :
      ImportedInFull library limits p root q doc

/-! ### Names among merged rules -/

theorem get?_own {r : Rule} (h : r ∈ (ownRules library limits p root).rules) :
    (link library limits p root).rules.get? r.name = some r := by
  obtain ⟨_, -, -, hrules, -⟩ := link_merges library limits p root
  have hfirst := hrules.first r.name
  have hown : (ownRules library limits p root).get? r.name = some r :=
    Rulebook.get?_eq_some.mpr ⟨h, rfl⟩
  rw [List.find?_append] at hfirst
  show (link library limits p root).rules.rules.find? _ = _
  rw [hfirst]
  show ((ownRules library limits p root).get? r.name).or _ = _
  rw [hown]
  rfl

theorem conflicts_of_brought {c : Brought} (hc : c ∈ brought library limits p root) {name : String}
    (h : name ∈ Fault.conflicts .rules c.linked.faults) :
    name ∈ Fault.conflicts .rules (link library limits p root).faults := by
  obtain ⟨level, hfaults, -⟩ := link_merges library limits p root
  obtain ⟨f, hf, hname⟩ := List.mem_filterMap.mp h
  refine List.mem_filterMap.mpr ⟨f, hfaults.mem_iff.mpr (List.mem_append_right _ ?_), hname⟩
  exact List.mem_flatMap.mpr ⟨c, hc, hf⟩

/-- A rule that an import brings keeps its name, or another rule has it and that was reported. -/
theorem get?_brought {c : Brought} (hc : c ∈ brought library limits p root) {r : Rule}
    (h : r ∈ c.linked.rules.rules) :
    ∃ found, (link library limits p root).rules.get? r.name = some found ∧
      (found = r ∨ r.name ∈ Fault.conflicts .rules (link library limits p root).faults) := by
  obtain ⟨level, hfaults, -, hrules, -⟩ := link_merges library limits p root
  obtain ⟨lost, hlost, hperm⟩ := hrules.accounted
  have hoffered : r ∈ Brought.rules (brought library limits p root) :=
    List.mem_flatMap.mpr ⟨c, hc, h⟩
  have hfound : ((link library limits p root).rules.get? r.name).isSome := by
    show (List.find? _ _).isSome
    rw [hrules.first, List.find?_isSome]
    exact ⟨r, List.mem_append_right _ hoffered, by simp⟩
  obtain ⟨found, hget⟩ := Option.isSome_iff_exists.mp hfound
  refine ⟨found, hget, ?_⟩
  rcases List.mem_append.mp (hperm.mem_iff.mpr (List.mem_append_right _ hoffered)) with hkept | hmem
  · have hsame := Rulebook.get?_eq_some.mpr ⟨hkept, rfl⟩
    exact .inl (Option.some.inj (hget.symm.trans hsame))
  · refine .inr ?_
    have hname : r.name ∈ Fault.conflicts .rules level := by
      rw [← hlost]
      exact List.mem_map_of_mem hmem
    obtain ⟨f, hf, hconflict⟩ := List.mem_filterMap.mp hname
    exact List.mem_filterMap.mpr ⟨f, hfaults.mem_iff.mpr (List.mem_append_left _ hf), hconflict⟩

/-- What a name stands for in a document that an import brings, it stands for in the importing one,
or the name is reported to be taken. -/
theorem denotes_of_brought {c : Brought} (hc : c ∈ brought library limits p root) {r inner : Rule}
    (hget : c.linked.rules.get? r.name = some inner)
    (hsame : inner = r ∨ r.name ∈ Fault.conflicts .rules c.linked.faults) :
    ∃ found, (link library limits p root).rules.get? r.name = some found ∧
      (found = r ∨ r.name ∈ Fault.conflicts .rules (link library limits p root).faults) := by
  obtain ⟨hmem, hname⟩ := Rulebook.get?_eq_some.mp hget
  obtain ⟨found, hfound, hkept⟩ := get?_brought hc hmem
  rw [hname] at hfound hkept
  refine ⟨found, hfound, ?_⟩
  rcases hkept with rfl | hconflict
  · exact hsame.imp_right (conflicts_of_brought hc)
  · exact .inr hconflict

/-- What an import in full is about, and what the names of its constraints stand for. -/
theorem fullImport_denotes (library : Library) (limits : Limits) (p : Position) (root : Element) :
    ∀ i ∈ (link library limits p root).fullImports, ∃ q,
      ImportedInFull library limits p root q i.root ∧ i.space = q.space ∧
      i.constraints = (ownRules library limits q i.root).constraints.map Rule.name ∧
      ∀ r ∈ (ownRules library limits q i.root).constraints, ∃ found,
        (link library limits p root).rules.get? r.name = some found ∧
        (found = r ∨ r.name ∈ Fault.conflicts .rules (link library limits p root).faults) := by
  induction p, root using @link_induction library limits with
  | step p root ih =>
    intro i hi
    rw [fullImports_link] at hi
    obtain ⟨c, hc, hi⟩ := List.mem_flatMap.mp hi
    obtain ⟨-, -, hlinked⟩ := mem_brought hc
    unfold Brought.fullImports at hi
    split at hi
    case isFalse => cases hi
    case isTrue hfull =>
      rcases List.mem_append.mp hi with hi | hi
      · -- one that the imported document imports in full itself
        rw [hlinked] at hi
        obtain ⟨q, hinner, hspace, hnames, hfound⟩ := ih c hc i hi
        refine ⟨q, .within hc hfull hinner, hspace, hnames, fun r hr => ?_⟩
        obtain ⟨found, hget, hsame⟩ := hfound r hr
        rw [← hlinked] at hget hsame
        exact denotes_of_brought hc hget hsame
      · -- the imported document
        rw [List.mem_singleton.mp hi]
        refine ⟨c.accepted.position, .here hc hfull, rfl, ?_, fun r hr => ?_⟩
        · rw [hlinked]
          exact link_constraints _ _ _ _
        · have hown := get?_own (List.mem_filter.mp hr).1
          rw [← hlinked] at hown
          exact denotes_of_brought hc hown (.inl rfl)

theorem kind_of_mem_constraints {b : Rulebook} {r : Rule} (h : r ∈ b.constraints) :
    r.kind = .constraint := of_decide_eq_true (List.mem_filter.mp h).2

/-- The names of a document's own constraints stand for these constraints. So do those of a document
that is imported in full, except where the name is reported to be taken by another rule. -/
theorem constraints_denote (library : Library) (limits : Limits) (p : Position) (root : Element) :
    let linked : Linked := link library limits p root
    let own : List Rule := (ownRules library limits p root).constraints
    (linked.constraints = own.map Rule.name ∧ linked.constraints.filterMap linked.rules.get? = own ∧
      ∀ r ∈ own, r.kind = .constraint) ∧
    ∀ i ∈ linked.fullImports, ∃ q, ImportedInFull library limits p root q i.root ∧
      i.space = q.space ∧
      let declared : List Rule := (ownRules library limits q i.root).constraints
      i.constraints = declared.map Rule.name ∧
      (∀ r ∈ declared, r.kind = .constraint ∧ ∃ found, linked.rules.get? r.name = some found ∧
        (found = r ∨ r.name ∈ Fault.conflicts .rules linked.faults)) ∧
      ((∀ name ∈ i.constraints, name ∉ Fault.conflicts .rules linked.faults) →
        i.constraints.filterMap linked.rules.get? = declared) := by
  intro linked own
  refine ⟨⟨link_constraints library limits p root, ?_, fun r => kind_of_mem_constraints⟩,
    fun i hi => ?_⟩
  · show (link library limits p root).constraints.filterMap _ = _
    rw [link_constraints]
    exact Rulebook.filterMap_get? fun r hr => get?_own (List.mem_filter.mp hr).1
  · obtain ⟨q, hfull, hspace, hnames, hfound⟩ := fullImport_denotes library limits p root i hi
    refine ⟨q, hfull, hspace, hnames, fun r hr => ⟨kind_of_mem_constraints hr, hfound r hr⟩,
      fun hfree => ?_⟩
    rw [hnames]
    refine Rulebook.filterMap_get? fun r hr => ?_
    obtain ⟨found, hget, hsame⟩ := hfound r hr
    have hnone : r.name ∉ Fault.conflicts .rules linked.faults := by
      refine hfree r.name ?_
      rw [hnames]
      exact List.mem_map_of_mem hr
    rw [hget, hsame.resolve_right hnone]

/-! ### A name that is taken -/

/-- A section that declares one rule. -/
def ruleSection (tag name body : String) : Element :=
  (Element.leaf Compilation.sectionTag).addChild
    (((Element.leaf tag).setAttribute "name" name).setAttribute "body" body)

/-- A document with one constraint, which always holds. -/
def checked : Element := (Element.leaf "tenet").addChild (ruleSection "constraint" "limit" "true")

def checkedLibrary : Library := .ofDocuments (.ofList [("lib", checked)])

/-- A document that imports the other one in full, with or without an alias, and has a function of
the name that the constraint has there. -/
def checking (alias? : Option String) : Element :=
  let e := (plainImport "lib").setAttribute "scope" "full"
  let i := match alias? with
    | some name => e.setAttribute "as" name
    | none => e
  (Element.leaf "tenet").addChildren [i, ruleSection "function" "limit" "error('called')"]

theorem constraints_denote_aliased :
    let root := checking (some "l")
    let linked := link checkedLibrary {} outermost root
    linked.constraints = [] ∧ ∃ i ∈ linked.fullImports, i.constraints = ["l.limit"] ∧
    ∃ q, ImportedInFull checkedLibrary {} outermost root q i.root ∧
      (∀ name ∈ i.constraints, name ∉ Fault.conflicts .rules linked.faults) ∧
      i.constraints.filterMap linked.rules.get? =
        (ownRules checkedLibrary {} q i.root).constraints := by
  intro root linked
  have hnames : linked.fullImports.map FullImport.constraints = [["l.limit"]] := by decide +kernel
  have hfree : "l.limit" ∉ Fault.conflicts .rules linked.faults := by decide +kernel
  obtain ⟨-, hall⟩ := constraints_denote checkedLibrary {} outermost root
  obtain ⟨i, hi, hconstraints⟩ := List.mem_map.mp
    (by rw [hnames]; exact List.mem_cons_self : ["l.limit"] ∈ linked.fullImports.map _)
  obtain ⟨q, hfull, -, -, -, hdenote⟩ := hall i hi
  have hfrees : ∀ name ∈ i.constraints, name ∉ Fault.conflicts .rules linked.faults := by
    rw [hconstraints]
    intro name hname
    rw [List.mem_singleton.mp hname]
    exact hfree
  exact ⟨by decide +kernel, i, hi, hconstraints, q, hfull, hfrees, hdenote hfrees⟩

/-- Without the alias the name of the constraint stands for the function, and the function is what
is evaluated when the constraint is checked. -/
theorem constraint_taken_by_function :
    let root := checking none
    let linked := link checkedLibrary {} outermost root
    (∃ i ∈ linked.fullImports, ∃ name ∈ i.constraints,
      (linked.rules.get? name).map Rule.kind = some .function) ∧
    linked.faults.map Fault.message = ["Rule conflict: 'limit' is already defined"] ∧
    (({ library := checkedLibrary } : Engine).evaluate (some root) none).faults.map Fault.message =
      ["Rule conflict: 'limit' is already defined", "called"] := by
  intro root linked
  have hnames : linked.fullImports.map FullImport.constraints = [["limit"]] := by decide +kernel
  obtain ⟨i, hi, hconstraints⟩ := List.mem_map.mp
    (by rw [hnames]; exact List.mem_cons_self : ["limit"] ∈ linked.fullImports.map _)
  refine ⟨⟨i, hi, "limit", ?_, by decide +kernel⟩, by decide +kernel, by decide +kernel⟩
  rw [hconstraints]
  exact List.mem_cons_self

end Link

end Premise
