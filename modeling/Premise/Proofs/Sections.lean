import Premise.Link
import Premise.Proofs.Behind
import Premise.Proofs.Walk
import Premise.Session

/-!
Documents with the sections of another one in front.

Where the sections of a document are children of its root, they can be put in front of the children
of another one, and that one then declares what both did, first the one and then the other. What the
declarations of both come to follows from `Behind`.
-/

namespace Premise

open Link (importTag)

namespace Element

/-- Elements whose children are declarations. -/
def isSection (e : Element) : Bool :=
  e.tag = Resolution.sectionTag || e.tag = Compilation.sectionTag

theorem role_of_isSection {x : Element} (h : x.isSection = true) :
    Role.ofTag x.tag = .declarations := by
  unfold isSection at h
  rcases (Bool.or_eq_true _ _).mp h with hsymbols | hrules
  · rw [of_decide_eq_true hsymbols]
    decide
  · rw [of_decide_eq_true hrules]
    decide

def sections (e : Element) : List Element := e.children.filter isSection

/-- A document without imports and constraints whose sections are children of the root, and all of
whose rules have names. -/
structure SelfContained (e : Element) : Prop where
  outside : e.isSection = false
  inside : ∀ c ∈ e.children, ∀ x ∈ preorderAll c.children, x.isSection = false
  imports : e.findAll importTag = []
  named : ∀ d ∈ Compilation.declarations e, (RuleKind.ofTag? d.tag).isSome → d.name?.isSome
  unconstrained : ∀ d ∈ Compilation.declarations e, RuleKind.ofTag? d.tag ≠ some .constraint

/-- The symbols of a document that imports nothing. -/
def ownTable (e : Element) : SymbolTable := (resolve none ∅ e).table

/-- The rules of a document that imports nothing. -/
def ownBook (e : Element) (limit : Nat) : Rulebook := (compile none e.ownTable limit e).rules

/-- The document with the sections of another one in front, and these children behind them. -/
def inlining (e part : Element) (rest : List Element) : Element :=
  { e with children := part.sections ++ rest }

theorem tagged_sections {tag : String} (htag : (leaf tag).isSection = true) {es : List Element}
    (h : ∀ c ∈ es, ∀ x ∈ preorderAll c.children, x.isSection = false) :
    tagged tag (es.filter isSection) = tagged tag es := by
  have hsection : ∀ x : Element, x.tag = tag → x.isSection = true := by
    intro x hx
    subst hx
    exact htag
  induction es with
  | nil => rfl
  | cons c es ih =>
    have hrest := ih fun x hx => h x (List.mem_cons_of_mem c hx)
    cases hc : c.isSection with
    | true => rw [List.filter_cons_of_pos hc, tagged_cons, tagged_cons, hrest]
    | false =>
      have hne : c.tag ≠ tag := by
        intro heq
        rw [hsection c heq] at hc
        cases hc
      have hnone : tagged tag c.children = [] := by
        refine List.filter_eq_nil_iff.mpr fun x hx hxtag => ?_
        have hfalse := h c List.mem_cons_self x hx
        rw [hsection x (by simpa using hxtag)] at hfalse
        cases hfalse
      rw [List.filter_cons_of_neg (by simp [hc]), tagged_cons, findAll_of_ne hne, hnone, hrest]
      rfl

theorem tagged_filter_eq_nil {tag : String} {es : List Element} (f : Element → Bool)
    (h : tagged tag es = []) : tagged tag (es.filter f) = [] := by
  refine List.filter_eq_nil_iff.mpr fun x hx => ?_
  obtain ⟨e, he, hxe⟩ := mem_preorderAll.mp hx
  exact List.filter_eq_nil_iff.mp h x
    (mem_preorderAll.mpr ⟨e, (List.mem_filter.mp he).1, hxe⟩)

theorem tag_of_only {root e : Element} (h : root.findAll importTag = [e]) : e.tag = importTag := by
  refine tag_of_mem_findAll (e := root) ?_
  rw [h]
  exact List.mem_cons_self

/-- The one import of a document is the one among its children. -/
theorem imports_of_only {root e : Element} {before after : List Element}
    (hchildren : root.children = before ++ e :: after) (honly : root.findAll importTag = [e]) :
    root.tag ≠ importTag ∧ tagged importTag before = [] ∧ tagged importTag after = [] := by
  have hself : e.findAll importTag = e :: tagged importTag e.children :=
    findAll_of_tag (tag_of_only honly)
  have hinside : tagged importTag root.children =
      tagged importTag before ++ (e :: tagged importTag e.children ++ tagged importTag after) := by
    rw [hchildren, tagged_append, tagged_cons, hself]
  have hne : root.tag ≠ importTag := by
    intro heq
    rw [findAll_of_tag heq, hinside] at honly
    have hlength := congrArg List.length honly
    simp only [List.length_cons, List.length_append, List.length_nil] at hlength
    omega
  rw [findAll_of_ne hne, hinside] at honly
  have hlength := congrArg List.length honly
  simp only [List.length_cons, List.length_append, List.length_nil] at hlength
  exact ⟨hne, List.length_eq_zero_iff.mp (by omega), List.length_eq_zero_iff.mp (by omega)⟩

theorem findAll_inlining {tag : String} (htag : (leaf tag).isSection = true)
    {root part e : Element} {before after : List Element} (hroot : root.isSection = false)
    (hpart : part.SelfContained) (hchildren : root.children = before ++ e :: after)
    (hleaf : e.children = []) (he : e.tag ≠ tag) :
    (root.inlining part (before ++ after)).findAll tag = part.findAll tag ++ root.findAll tag := by
  have hne : ∀ x : Element, x.isSection = false → x.tag ≠ tag := by
    intro x hx heq
    have htrue : x.isSection = true := by
      subst heq
      exact htag
    rw [hx] at htrue
    cases htrue
  have hsections : tagged tag part.sections = part.findAll tag := by
    rw [findAll_of_ne (hne part hpart.outside)]
    exact tagged_sections htag hpart.inside
  have hnone : e.findAll tag = [] := by
    rw [findAll_of_ne he, hleaf, tagged_nil]
  have hinlining : (root.inlining part (before ++ after)).tag ≠ tag := hne root hroot
  rw [findAll_of_ne hinlining, findAll_of_ne (hne root hroot), hchildren, tagged_append,
    tagged_cons, hnone, List.nil_append, ← tagged_append, ← hsections]
  exact tagged_append tag part.sections (before ++ after)

end Element

/-! ### Declarations of the imported document in front -/

section

variable {root root' part : Element}

theorem resolve_behind
    (hdeclarations : Resolution.declarations root' =
      Resolution.declarations part ++ Resolution.declarations root)
    (hfree : ∀ d ∈ Resolution.declarations root, ∀ name, d.name? = some name →
      part.ownTable.get? name = none) :
    (∀ name, (resolve none ∅ root').table.get? name =
      ((resolve none part.ownTable root).table.get? name).or (part.ownTable.get? name)) ∧
    (resolve none ∅ root').faults =
      (resolve none ∅ part).faults ++ (resolve none part.ownTable root).faults := by
  have hstart : Resolution.AtHand part.ownTable {} (resolve none ∅ part) := fun name => rfl
  obtain ⟨htable, new, hnew, hnew'⟩ := @Resolution.foldl_behind none _ _ _ hstart _ hfree
  have hfold : resolve none ∅ root' =
      (Resolution.declarations root).foldl (Resolution.add none ∅) (resolve none ∅ part) := by
    unfold resolve
    rw [hdeclarations, List.foldl_append]
  have hown : (resolve none part.ownTable root).faults = new := hnew
  rw [hfold, hown]
  exact ⟨htable, hnew'⟩

theorem compile_behind {symbols : SymbolTable} {limit : Nat}
    (hdeclarations : Compilation.declarations root' =
      Compilation.declarations part ++ Compilation.declarations root)
    (hnamed : ∀ d ∈ Compilation.declarations part,
      (RuleKind.ofTag? d.tag).isSome → d.name?.isSome)
    (hfree : ∀ r ∈ (compile none symbols limit root).rules.rules,
      ∀ q ∈ (part.ownBook limit).rules, q.name ≠ r.name) :
    (compile none symbols limit root').rules.rules =
      (part.ownBook limit).rules.map (Rule.keeping symbols.scope) ++
        (compile none symbols limit root).rules.rules ∧
    (compile none symbols limit root').faults =
      (compile none part.ownTable limit part).faults ++
        (compile none symbols limit root).faults := by
  -- the declarations of the imported document, in the larger scope
  have hpart : Compilation.Follows symbols.scope [] [] (compile none part.ownTable limit part)
      (compile none symbols limit part) :=
    Compilation.foldl_follows ⟨rfl, rfl, rfl⟩ fun _ _ q hq => by cases hq
  have hunnamed : (compile none symbols limit part).unnamed = 0 := Compilation.unnamed_foldl hnamed
  -- those of the importing one, behind them
  have hrest : Compilation.Follows symbols.scope (compile none symbols limit part).rules.rules
      (compile none symbols limit part).faults (compile none symbols limit root)
      ((Compilation.declarations root).foldl (Compilation.add ⟨none, symbols.scope, limit⟩)
        (compile none symbols limit part)) := by
    refine Compilation.foldl_follows ⟨(List.append_nil _).symm, (List.append_nil _).symm, hunnamed⟩
      fun r hr q hq => ?_
    rw [hpart.rules, List.nil_append] at hq
    obtain ⟨q', hq', rfl⟩ := List.mem_map.mp hq
    exact hfree r hr q' hq'
  have hfold : compile none symbols limit root' =
      (Compilation.declarations root).foldl (Compilation.add ⟨none, symbols.scope, limit⟩)
        (compile none symbols limit part) := by
    unfold compile
    rw [hdeclarations, List.foldl_append]
  have hkept : (compile none symbols limit root).rules.rules.map (Rule.keeping symbols.scope) =
      (compile none symbols limit root).rules.rules := by
    refine (List.map_congr_left fun r hr => ?_).trans (List.map_id _)
    obtain ⟨d, -, unnamed, hattempt⟩ := attempt_of_mem_compile hr
    exact Rule.keeping_of_scope (Compilation.attempt_ok hattempt).2.1
  rw [hfold, hrest.rules, hrest.faults, hpart.rules, hpart.faults, hkept]
  exact ⟨rfl, rfl⟩

end

end Premise
