import Premise.Proofs.Linking
import Premise.Proofs.Sections

/-!
Imports that are not let in.

Whatever the reason, a refused import has nothing to do with what the document and its other
imports come to: it leaves a fault where it stands, and all else is as if it were not there. That
holds of an element without anything inside it, wherever it is below the root, except directly in a
section: there it would be taken for a declaration.
-/

namespace Premise

open Link (importTag)

namespace Element

/-- The element without what is inside it. -/
def bare (e : Element) : Element := { e with children := [] }

theorem bare_of_leaf {e : Element} (h : e.children = []) : e.bare = e := by
  cases e
  simp only [bare, mk.injEq, true_and, and_true]
  exact h.symm

theorem map_bare_findAll (e : Element) (tag : String) : (e.findAll tag).map bare =
    (if e.tag = tag then [e.bare] else []) ++ (tagged tag e.children).map bare := by
  rw [findAll_eq_append, List.map_append]
  split <;> rfl

theorem map_bare_declared (e : Element) (tag : String) :
    ((e.findAll tag).flatMap children).map bare =
      (if e.tag = tag then e.children.map bare else []) ++
        ((tagged tag e.children).flatMap children).map bare := by
  rw [findAll_eq_append, List.flatMap_append, List.map_append]
  split
  · rw [List.flatMap_singleton]
  · rfl

/-- The second tree is the first one without the element, which stands below the root and outside
the sections that it would be a declaration of. -/
inductive Deletes (x : Element) : Element → Element → Prop
  | child {parent : Element} {before after : List Element}
      (children : parent.children = before ++ x :: after) (outside : parent.isSection = false) :
      Deletes x parent { parent with children := before ++ after }
  | inside {parent inner inner' : Element} {before after : List Element}
      (children : parent.children = before ++ inner :: after) (deletes : Deletes x inner inner') :
      Deletes x parent { parent with children := before ++ inner' :: after }

namespace Deletes

variable {x e e' : Element}

theorem bare_eq (h : Deletes x e e') : e'.bare = e.bare := by
  cases h <;> rfl

/-- The imports of the tree without it are the others. What is inside them may have become less. -/
theorem imports (h : Deletes x e e') (himport : x.tag = importTag) (hleaf : x.children = []) :
    ∃ before after, (e.findAll importTag).map bare = before ++ x :: after ∧
      (e'.findAll importTag).map bare = before ++ after := by
  induction h with
  | @child parent before after hchildren houtside =>
    have hx : (x.findAll importTag).map bare = [x] := by
      rw [findAll_of_tag himport, hleaf, tagged_nil, List.map_singleton, bare_of_leaf hleaf]
    refine ⟨(if parent.tag = importTag then [parent.bare] else []) ++
      (tagged importTag before).map bare, (tagged importTag after).map bare, ?_, ?_⟩
    · rw [map_bare_findAll, hchildren, tagged_append, tagged_cons, List.map_append,
        List.map_append, hx, List.append_assoc]
      rfl
    · rw [map_bare_findAll, List.append_assoc, ← List.map_append, ← tagged_append]
      rfl
  | @inside parent inner inner' before after hchildren hdeletes ih =>
    obtain ⟨front, back, hinner, hinner'⟩ := ih
    refine ⟨(if parent.tag = importTag then [parent.bare] else []) ++
      ((tagged importTag before).map bare ++ front), back ++ (tagged importTag after).map bare,
      ?_, ?_⟩
    · rw [map_bare_findAll, hchildren, tagged_append, tagged_cons, List.map_append,
        List.map_append, hinner]
      simp only [List.append_assoc, List.cons_append]
    · rw [map_bare_findAll, tagged_append, tagged_cons, List.map_append, List.map_append, hinner']
      simp only [List.append_assoc]
      rfl

/-- The declarations of the tree without it are the same, but for what is inside them. -/
theorem declarations (h : Deletes x e e') (hleaf : x.children = []) {tag : String}
    (hsection : (leaf tag).isSection = true) (hne : x.tag ≠ tag) :
    ((e'.findAll tag).flatMap children).map bare = ((e.findAll tag).flatMap children).map bare := by
  induction h with
  | @child parent before after hchildren houtside =>
    have hparent : parent.tag ≠ tag := by
      intro heq
      subst heq
      rw [show parent.isSection = true from hsection] at houtside
      cases houtside
    have hx : x.findAll tag = [] := by
      rw [findAll_of_ne hne, hleaf, tagged_nil]
    rw [map_bare_declared, map_bare_declared, if_neg hparent, if_neg hparent, hchildren,
      tagged_append, tagged_append, tagged_cons, hx]
    rfl
  | @inside parent inner inner' before after hchildren hdeletes ih =>
    have hown : (before ++ inner' :: after).map bare = parent.children.map bare := by
      rw [hchildren, List.map_append, List.map_append, List.map_cons, List.map_cons,
        hdeletes.bare_eq]
    have hrest : ((tagged tag (before ++ inner' :: after)).flatMap children).map bare =
        ((tagged tag parent.children).flatMap children).map bare := by
      rw [hchildren, tagged_append, tagged_append, tagged_cons, tagged_cons]
      simp only [List.flatMap_append, List.map_append, ih]
    rw [map_bare_declared, map_bare_declared, hrest, hown]

end Deletes

end Element

/-! ### What does not hang on the inside of an element -/

theorem Resolution.add_bare (scope : Option String) (external : SymbolTable) (r : Resolution)
    (d : Element) : add scope external r d.bare = add scope external r d := by
  unfold add
  rw [show d.bare = { d with children := [] } from rfl, Symbol.declare_children]
  rfl

theorem Compilation.add_bare (s : Rule.Surroundings) (c : Compilation) (d : Element) :
    add s c d.bare = add s c d := by
  simp only [add, take, refuse, Rule.compile, Rule.bodyOf, Element.bare, Element.name?,
    Element.attribute?, Element.content?]

theorem resolve_eq_of_bare {root root' : Element} (space : Option String) (external : SymbolTable)
    (h : (Resolution.declarations root').map Element.bare =
      (Resolution.declarations root).map Element.bare) :
    resolve space external root' = resolve space external root := by
  have hbare : ∀ (ds : List Element) (r : Resolution),
      ds.foldl (Resolution.add space external) r =
        (ds.map Element.bare).foldl (Resolution.add space external) r := by
    intro ds r
    rw [List.foldl_map]
    simp only [Resolution.add_bare]
  unfold resolve
  rw [hbare, h, ← hbare]

theorem compile_eq_of_bare {root root' : Element} (space : Option String) (symbols : SymbolTable)
    (limit : Nat) (h : (Compilation.declarations root').map Element.bare =
      (Compilation.declarations root).map Element.bare) :
    compile space symbols limit root' = compile space symbols limit root := by
  have hbare : ∀ (s : Rule.Surroundings) (ds : List Element) (c : Compilation),
      ds.foldl (Compilation.add s) c = (ds.map Element.bare).foldl (Compilation.add s) c := by
    intro s ds c
    rw [List.foldl_map]
    simp only [Compilation.add_bare]
  unfold compile
  rw [hbare, h, ← hbare]

namespace Link

variable {library : Library} {limits : Limits} {p : Position} {x root root' : Element}

/-! ### Faults on the way -/

/-- What was reported before makes no difference to what an import brings. -/
theorem addImport_faults (accept : Element → Except ImportError Accepted)
    (link : Position → Element → Linked) (g : Gathered) (faults : List Fault) (e : Element) :
    addImport accept link { g with faults } e =
      { addImport accept link { g with faults := [] } e with
        faults := faults ++ (addImport accept link { g with faults := [] } e).faults } := by
  unfold addImport
  cases accept e with
  | error error => rfl
  | ok a => simp only [take, List.append_assoc, List.nil_append]

theorem foldl_faults (accept : Element → Except ImportError Accepted)
    (link : Position → Element → Linked) (es : List Element) (g : Gathered) (faults : List Fault) :
    let silent := es.foldl (addImport accept link) { g with faults := [] }
    es.foldl (addImport accept link) { g with faults } =
      { silent with faults := faults ++ silent.faults } := by
  intro silent
  induction es generalizing g faults with
  | nil =>
    show ({ g with faults } : Gathered) = { g with faults := faults ++ [] }
    rw [List.append_nil]
  | cons e es ih =>
    let first := addImport accept link { g with faults := [] } e
    let rest := es.foldl (addImport accept link) { first with faults := [] }
    have hsilent : silent = { rest with faults := first.faults ++ rest.faults } :=
      ih first first.faults
    calc (e :: es).foldl (addImport accept link) { g with faults }
        = es.foldl (addImport accept link) { first with faults := faults ++ first.faults } :=
          congrArg (es.foldl _) (addImport_faults accept link g faults e)
      _ = { rest with faults := faults ++ first.faults ++ rest.faults } := ih first _
      _ = { silent with faults := faults ++ silent.faults } := by
          rw [hsilent, List.append_assoc]

/-- Only what is reported of a document hangs on the faults of its imports. -/
theorem finish_faults (limit : Nat) (space : Option String) (g : Gathered) (faults : List Fault)
    (root : Element) :
    finish limit space { g with faults } root =
      { finish limit space { g with faults := [] } root with
        faults := faults ++ (finish limit space { g with faults := [] } root).faults } := by
  simp only [finish, List.append_assoc, List.nil_append]

/-! ### Refused imports -/

/-- An import that is not let in: it has no reference, it stands too deep, its document cannot be
loaded, or that document is being imported already. -/
def Refused (library : Library) (limits : Limits) (p : Position) (e : Element) : Prop :=
  reference? e = none ∨ ∃ reference, reference? e = some reference ∧
    (limits.imports < p.chain.length ∨
      (∃ failure, library.load reference p.id = .error failure) ∨
      ∃ loaded, library.load reference p.id = .ok loaded ∧ loaded.id ∈ p.chain)

theorem refused_iff {e : Element} : Refused library limits p e ↔
    ∃ error, acceptAt library limits p e = .error error := by
  constructor
  · rintro (hnone | ⟨reference, hreference, hreason⟩)
    · refine ⟨.noReference, ?_⟩
      unfold acceptAt accept
      rw [hnone]
    · by_cases hdeep : limits.imports < p.chain.length
      · exact ⟨_, acceptAt_deep hreference hdeep⟩
      · rcases hreason with hdeep' | ⟨failure, hfailed⟩ | ⟨loaded, hloaded, hmem⟩
        · exact absurd hdeep' hdeep
        · refine ⟨.failed reference failure, ?_⟩
          unfold acceptAt accept
          rw [decide_eq_true (Nat.not_lt.mp hdeep), hreference]
          simp only [hfailed]
          rfl
        · refine ⟨.cycle (p.chain ++ [loaded.id]), ?_⟩
          rw [acceptAt_loaded hreference (Nat.not_lt.mp hdeep) hloaded,
            if_pos (by simpa using hmem)]
  · rintro ⟨error, herror⟩
    rcases accept_error herror with ⟨hnone, -⟩ | ⟨reference, hreference, ⟨hdeep, -⟩ | ⟨-, hlate⟩⟩
    · exact .inl hnone
    · exact .inr ⟨reference, hreference, .inl (Nat.not_le.mp (of_decide_eq_false hdeep))⟩
    · rcases hlate with ⟨failure, hfailed, -⟩ | ⟨loaded, hloaded, hmem, -⟩
      · exact .inr ⟨reference, hreference, .inr (.inl ⟨failure, hfailed⟩)⟩
      · exact .inr ⟨reference, hreference, .inr (.inr ⟨loaded, hloaded, hmem⟩)⟩

theorem gathered_bare (library : Library) (limits : Limits) (p : Position) (root : Element) :
    gathered library limits p root = ((root.findAll importTag).map Element.bare).foldl
      (addImport (acceptAt library limits p) (link library limits)) {} := by
  rw [List.foldl_map]
  rfl

/-- Without the refused import all else is gathered as before, and its fault is missing. -/
theorem gathered_refused (hdelete : Element.Deletes x root root') (himport : x.tag = importTag)
    (hleaf : x.children = []) {error : ImportError}
    (hrefused : acceptAt library limits p x = .error error) :
    let rest := gathered library limits p root'
    ∃ before after, rest.faults = before ++ after ∧
      gathered library limits p root =
        { rest with faults := before ++ fault x.line error :: after } := by
  obtain ⟨front, back, hall, hothers⟩ := hdelete.imports himport hleaf
  let step := addImport (acceptAt library limits p) (link library limits)
  let g := front.foldl step {}
  let others := back.foldl step { g with faults := [] }
  have hstep : step g x = { g with faults := g.faults ++ [fault x.line error] } := by
    show addImport _ _ g x = _
    unfold addImport
    rw [hrefused]
  have hwith : gathered library limits p root =
      { others with faults := g.faults ++ [fault x.line error] ++ others.faults } := by
    rw [gathered_bare, hall, List.foldl_append, List.foldl_cons]
    show back.foldl step (step g x) = _
    rw [hstep]
    exact foldl_faults _ _ back g _
  have hwithout : gathered library limits p root' =
      { others with faults := g.faults ++ others.faults } := by
    rw [gathered_bare, hothers, List.foldl_append]
    exact foldl_faults _ _ back g g.faults
  refine ⟨g.faults, others.faults, ?_, ?_⟩
  · rw [hwithout]
  · rw [hwith, hwithout, List.append_assoc]
    rfl

/-- A refused import adds one fault to a linked document and has no other effect. -/
theorem link_refused (himport : x.tag = importTag) (hleaf : x.children = [])
    (hdelete : Element.Deletes x root root') (hrefused : Refused library limits p x) :
    let linked : Linked := link library limits p root
    let rest : Linked := link library limits p root'
    linked.symbols = rest.symbols ∧ linked.rules = rest.rules ∧
    linked.constraints = rest.constraints ∧ linked.fullImports = rest.fullImports ∧
    ∃ error before after, acceptAt library limits p x = .error error ∧
      (fault x.line error).kind = .semantic ∧ rest.faults = before ++ after ∧
      linked.faults = before ++ fault x.line error :: after := by
  intro linked rest
  obtain ⟨error, herror⟩ := refused_iff.mp hrefused
  obtain ⟨before, after, hothers, hgathered⟩ := gathered_refused hdelete himport hleaf herror
  have hresolve : ∀ space external,
      resolve space external root' = resolve space external root := fun space external =>
    resolve_eq_of_bare space external
      (hdelete.declarations hleaf (by decide) (by rw [himport]; decide))
  have hcompile : ∀ space symbols limit,
      compile space symbols limit root' = compile space symbols limit root :=
    fun space symbols limit => compile_eq_of_bare space symbols limit
      (hdelete.declarations hleaf (by decide) (by rw [himport]; decide))
  have hfinish : ∀ g, finish limits.expression p.space g root' =
      finish limits.expression p.space g root := by
    intro g
    unfold finish
    simp only [hresolve, hcompile]
  let g := gathered library limits p root'
  let own := finish limits.expression p.space { g with faults := [] } root
  have hlinked : linked =
      { own with faults := before ++ fault x.line error :: after ++ own.faults } := by
    show link library limits p root = _
    rw [link_eq, hgathered, finish_faults]
  have hrest : rest = { own with faults := before ++ after ++ own.faults } := by
    show link library limits p root' = _
    rw [link_eq, hfinish, ← hothers]
    exact finish_faults _ _ g g.faults root
  rw [hlinked, hrest]
  refine ⟨rfl, rfl, rfl, rfl, error, before, after ++ own.faults, herror, rfl, ?_, ?_⟩
  · exact List.append_assoc ..
  · exact List.append_assoc ..

/-- An import of the document into itself, which stands in the declaration of a variable behind
another import, and the same document without it. -/
theorem link_refused_cycle :
    let x := plainImport "a"
    let declared := ((Element.leaf "var").setAttribute "name" "t").setAttribute "init" "'y'"
    let symbols := Element.leaf Resolution.sectionTag
    let root := (Element.leaf "tenet").addChildren
      [plainImport "b", symbols.addChild (declared.addChild x)]
    let root' := (Element.leaf "tenet").addChildren [plainImport "b", symbols.addChild declared]
    let p : Position := ⟨some "a", none, ["a"]⟩
    x.tag = importTag ∧ x.children = [] ∧ Element.Deletes x root root' ∧ Refused pair {} p x ∧
    (link pair {} p root).symbols = (link pair {} p root').symbols ∧
    (link pair {} p root).symbols.names = ["s", "t"] ∧
    (link pair {} p root').faults.length = 0 ∧
    (link pair {} p root).faults.map Fault.message = ["Import cycle detected: a -> a"] := by
  intro x declared symbols root root' p
  have hdelete : Element.Deletes x root root' :=
    @Element.Deletes.inside x root (symbols.addChild (declared.addChild x)) _ [plainImport "b"] []
      rfl (@Element.Deletes.inside x _ (declared.addChild x) _ [] [] rfl
        (@Element.Deletes.child x _ [] [] rfl rfl))
  have hrefused : Refused pair {} p x :=
    .inr ⟨"a", rfl, .inr (.inr ⟨⟨"a", importing "b"⟩, rfl, List.mem_cons_self⟩)⟩
  obtain ⟨hsymbols, -⟩ := @link_refused pair {} p x root root' rfl rfl hdelete hrefused
  exact ⟨rfl, rfl, hdelete, hrefused, hsymbols, by decide +kernel, by decide +kernel,
    by decide +kernel⟩

end Link

end Premise
