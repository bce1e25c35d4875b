import Premise.Link
import Premise.Proofs.Declarations
import Premise.Proofs.Walk

/-!
Documents by what they declare, whatever they import.

The outline of a document has a bare import in the place of every import element. As long as none
of these elements has sections inside it, the document declares what its outline does: its symbols
resolve to the same table, and its rules compile to the same rulebook.
-/

namespace Premise

open Link (importTag)

namespace Element

mutual

/-- The tree with every import element replaced by a bare one. -/
def outline : Element → Element
  | ⟨tag, attributes, children, text, line⟩ =>
    if tag = importTag then leaf importTag
    else ⟨tag, attributes, outlineAll children, text, line⟩

def outlineAll : List Element → List Element
  | [] => []
  | e :: es => outline e :: outlineAll es

end

theorem outlineAll_eq_map (es : List Element) : outlineAll es = es.map outline := by
  induction es with
  | nil => rfl
  | cons e es ih => rw [outlineAll, ih, List.map_cons]

theorem outline_import {e : Element} (h : e.tag = importTag) : e.outline = leaf importTag := by
  cases e
  rw [outline]
  exact if_pos h

theorem outline_of_ne {e : Element} (h : e.tag ≠ importTag) :
    e.outline = { e with children := e.children.map outline } := by
  cases e
  rw [outline, outlineAll_eq_map]
  exact if_neg h

theorem tag_outline (e : Element) : e.outline.tag = e.tag := by
  by_cases h : e.tag = importTag
  · rw [outline_import h, h]
    rfl
  · rw [outline_of_ne h]

/-- Nothing with the tag is inside an import element of the trees. -/
def ImportsWithout (tag : String) (es : List Element) : Prop :=
  ∀ i ∈ tagged importTag es, i.findAll tag = []

theorem ImportsWithout.head {tag : String} {e : Element} {es : List Element}
    (h : ImportsWithout tag (e :: es)) : ImportsWithout tag [e] := by
  intro i hi
  refine h i ?_
  rw [tagged_cons, tagged_nil, List.append_nil] at hi
  rw [tagged_cons]
  exact List.mem_append_left _ hi

theorem ImportsWithout.tail {tag : String} {e : Element} {es : List Element}
    (h : ImportsWithout tag (e :: es)) : ImportsWithout tag es := by
  intro i hi
  refine h i ?_
  rw [tagged_cons]
  exact List.mem_append_right _ hi

theorem ImportsWithout.children {tag : String} {e : Element} (he : e.tag ≠ importTag)
    (h : ImportsWithout tag [e]) : ImportsWithout tag e.children := by
  intro i hi
  refine h i ?_
  rw [tagged_cons, findAll_of_ne he]
  exact List.mem_append_left _ hi

mutual

theorem findAll_outline {tag : String} (htag : tag ≠ importTag) (e : Element)
    (h : ImportsWithout tag [e]) :
    e.outline.findAll tag = (e.findAll tag).map outline := by
  by_cases himport : e.tag = importTag
  · have hinside : e.findAll tag = [] := by
      refine h e ?_
      rw [tagged_cons, findAll_of_tag himport]
      exact List.mem_cons_self
    have hleaf : (leaf importTag).tag ≠ tag := fun heq => htag heq.symm
    rw [outline_import himport, hinside, findAll_of_ne hleaf]
    rfl
  · cases e with
    | mk t attributes children text line =>
      have hchildren := tagged_outline htag children (h.children himport)
      rw [outline_of_ne himport]
      by_cases heq : t = tag
      · rw [findAll_of_tag heq, findAll_of_tag heq, List.map_cons, ← hchildren,
          outline_of_ne himport]
      · rw [findAll_of_ne heq, findAll_of_ne heq, ← hchildren]

theorem tagged_outline {tag : String} (htag : tag ≠ importTag) (es : List Element)
    (h : ImportsWithout tag es) :
    tagged tag (es.map outline) = (tagged tag es).map outline := by
  cases es with
  | nil => rfl
  | cons e es =>
    rw [List.map_cons, tagged_cons, tagged_cons, List.map_append, findAll_outline htag e h.head,
      tagged_outline htag es h.tail]

end

/-- The elements in the sections of the outline are outlines of those in the document's. -/
theorem flatMap_children_outline {tag : String} (htag : tag ≠ importTag) {root : Element}
    (h : ImportsWithout tag [root]) :
    (root.outline.findAll tag).flatMap children =
      ((root.findAll tag).flatMap children).map outline := by
  rw [findAll_outline htag root h]
  have hsections : ∀ s ∈ root.findAll tag, s.tag = tag := fun s hs => tag_of_mem_findAll hs
  generalize root.findAll tag = sections at hsections
  induction sections with
  | nil => rfl
  | cons s sections ih =>
    have hs : s.tag ≠ importTag := by
      rw [hsections s List.mem_cons_self]
      exact htag
    rw [List.map_cons, List.flatMap_cons, List.flatMap_cons, List.map_append,
      ih fun x hx => hsections x (List.mem_cons_of_mem s hx), outline_of_ne hs]

end Element

namespace Resolution

variable {scope : Option String} {external : SymbolTable}

/-- An import among the declarations adds no symbol, and other declarations are their outlines. -/
theorem table_add_outline {r r' : Resolution} (h : r.table = r'.table) (d : Element) :
    (add scope external r d.outline).table = (add scope external r' d).table := by
  by_cases himport : d.tag = importTag
  · have hnone : ∀ (r : Resolution) (e : Element), e.tag = importTag →
        (add scope external r e).table = r.table := by
      intro r e he
      cases hdeclare : Symbol.declare ⟨scope, r.table, external⟩ e with
      | error error => rw [add_error hdeclare]
      | ok declared =>
        obtain ⟨-, -, -, -, hkind⟩ := Symbol.declare_ok hdeclare
        rw [he] at hkind
        exact absurd hkind (by decide)
    rw [hnone r _ ((Element.tag_outline d).trans himport), hnone r' d himport, h]
  · have hsame : Symbol.declare ⟨scope, r.table, external⟩ d.outline =
        Symbol.declare ⟨scope, r'.table, external⟩ d := by
      rw [Element.outline_of_ne himport, Symbol.declare_children, h]
    cases hdeclare : Symbol.declare ⟨scope, r'.table, external⟩ d with
    | error error => rw [add_error (hsame.trans hdeclare), add_error hdeclare, h]
    | ok declared => rw [add_ok (hsame.trans hdeclare), add_ok hdeclare, h]

end Resolution

theorem table_resolve_outline (space : Option String) (external : SymbolTable) {root : Element}
    (h : Element.ImportsWithout Resolution.sectionTag [root]) :
    (resolve space external root.outline).table = (resolve space external root).table := by
  unfold resolve
  have hdeclarations : Resolution.declarations root.outline =
      (Resolution.declarations root).map Element.outline :=
    Element.flatMap_children_outline (by decide) h
  rw [hdeclarations]
  have hfold : ∀ (ds : List Element) (r r' : Resolution), r.table = r'.table →
      ((ds.map Element.outline).foldl (Resolution.add space external) r).table =
        (ds.foldl (Resolution.add space external) r').table := by
    intro ds
    induction ds with
    | nil => exact fun r r' heq => heq
    | cons d ds ih => exact fun r r' heq => ih _ _ (Resolution.table_add_outline heq d)
  exact hfold _ _ _ rfl

namespace Compilation

theorem rules_add_outline {c c' : Compilation} (s : Rule.Surroundings)
    (h : c.rules = c'.rules ∧ c.unnamed = c'.unnamed) (d : Element) :
    (add s c d.outline).rules = (add s c' d).rules ∧
      (add s c d.outline).unnamed = (add s c' d).unnamed := by
  obtain ⟨hrules, hunnamed⟩ := h
  by_cases himport : d.tag = importTag
  · have hnone : ∀ (c : Compilation) (e : Element), e.tag = importTag →
        (add s c e).rules = c.rules ∧ (add s c e).unnamed = c.unnamed := by
      intro c e he
      have hkind : RuleKind.ofTag? e.tag = none := by
        rw [he]
        decide
      unfold add
      rw [hkind]
      exact ⟨rfl, rfl⟩
    obtain ⟨hleft, hleft'⟩ := hnone c _ ((Element.tag_outline d).trans himport)
    obtain ⟨hright, hright'⟩ := hnone c' d himport
    rw [hleft, hleft', hright, hright']
    exact ⟨hrules, hunnamed⟩
  · have hattempt : attempt s c.unnamed d.outline = attempt s c'.unnamed d := by
      rw [Element.outline_of_ne himport, hunnamed]
      simp only [attempt, Rule.compile, Rule.bodyOf, Element.name?, Element.attribute?,
        Element.content?]
    have hcount : countUnnamed c.unnamed d.outline = countUnnamed c'.unnamed d := by
      rw [Element.outline_of_ne himport, hunnamed]
      cases d
      rfl
    rw [add_eq, add_eq, hattempt, hcount, unnamed_enter, unnamed_enter]
    refine ⟨?_, rfl⟩
    unfold enter
    cases attempt s c'.unnamed d with
    | error error => exact hrules
    | ok rule =>
      simp only [hrules]
      cases c'.rules.offer rule with
      | error taken => rfl
      | ok rules => rfl

end Compilation

theorem rules_compile_outline (space : Option String) (symbols : SymbolTable) (limit : Nat)
    {root : Element} (h : Element.ImportsWithout Compilation.sectionTag [root]) :
    (compile space symbols limit root.outline).rules =
      (compile space symbols limit root).rules := by
  unfold compile
  have hdeclarations : Compilation.declarations root.outline =
      (Compilation.declarations root).map Element.outline :=
    Element.flatMap_children_outline (by decide) h
  rw [hdeclarations]
  have hfold : ∀ (s : Rule.Surroundings) (ds : List Element) (c c' : Compilation),
      c.rules = c'.rules ∧ c.unnamed = c'.unnamed →
      ((ds.map Element.outline).foldl (Compilation.add s) c).rules =
        (ds.foldl (Compilation.add s) c').rules := by
    intro s ds
    induction ds with
    | nil => exact fun c c' heq => heq.1
    | cons d ds ih => exact fun c c' heq => ih _ _ (Compilation.rules_add_outline s heq d)
  exact hfold _ _ _ _ ⟨rfl, rfl⟩

end Premise
