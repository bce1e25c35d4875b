import Premise.Proofs.FreeNames
import Premise.Proofs.Linking
import Premise.Proofs.Sections

/-!
Imports as sections of the importing document.

A document that imports another one without an alias comes to the same as one that has the sections
of the other in front of its own children, as long as the imported document needs nothing from
elsewhere and the importing one declares no name that it uses. The rules of the imported document
then keep a larger scope, which makes no difference to their free names, and the faults come in
another order.
-/

namespace Premise

open Link (importTag)

/-- Of rules that have no name in common it does not matter which come first, nor that some keep
another scope where that makes no difference. -/
theorem Rulebook.alike_of_keeping {own book b b' : Rulebook} {values : Scope}
    (hb : ∀ name, b.get? name = (own.get? name).or (book.get? name))
    (hb' : b'.rules = book.rules.map (Rule.keeping values) ++ own.rules)
    (hapart : ∀ r ∈ own.rules, book.get? r.name = none)
    (halike : ∀ q ∈ book.rules, q.Alike (q.keeping values)) :
    b.Alike b' ∧ ∀ r ∈ own.rules, b.get? r.name = b'.get? r.name := by
  have hget' : ∀ name, b'.get? name =
      ((book.get? name).map (Rule.keeping values)).or (own.get? name) := by
    intro name
    show b'.rules.find? _ = _
    rw [hb', List.find?_append, List.find?_map]
    rfl
  have hown : ∀ name r, own.get? name = some r →
      b.get? name = some r ∧ b'.get? name = some r := by
    intro name r hr
    obtain ⟨hmem, hname⟩ := Rulebook.get?_eq_some.mp hr
    have hnone := hapart r hmem
    rw [hname] at hnone
    rw [hb, hget', hnone, hr]
    exact ⟨rfl, rfl⟩
  refine ⟨fun name => ?_, fun r hr => ?_⟩
  · cases hr : own.get? name with
    | some r =>
      obtain ⟨hleft, hright⟩ := hown name r hr
      rw [hleft, hright]
      exact .some (.refl r)
    | none =>
      rw [hb, hget', hr, Option.none_or, Option.or_none]
      cases hq : book.get? name with
      | none => exact .none
      | some q => exact .some (halike q (Rulebook.get?_eq_some.mp hq).1)
  · obtain ⟨hleft, hright⟩ := hown r.name r (Rulebook.get?_eq_some.mpr ⟨hr, rfl⟩)
    rw [hleft, hright]

namespace Link

variable {library : Library} {limits : Limits} {p : Position}

theorem link_no_imports {root : Element} (h : root.findAll importTag = []) :
    link library limits p root =
      let own := resolve p.space ∅ root
      let compiled := compile p.space own.table limits.expression root
      { symbols := own.table, rules := compiled.rules, faults := own.faults ++ compiled.faults
        constraints := compiled.rules.constraints.map Rule.name } := by
  have hgathered : gathered library limits p root = {} := by
    unfold gathered
    rw [h]
    rfl
  rw [link_eq, hgathered]
  show ({
    symbols := _, rules := _, faults := [] ++ _ ++ [] ++ _ ++ [], constraints := _ } : Linked) = _
  rw [List.append_nil, List.append_nil, List.nil_append]
  rfl

theorem gathered_one_import {root e : Element} {a : Accepted} (honly : root.findAll importTag = [e])
    (haccept : acceptAt library limits p e = .ok a) (hscope : e.attribute? "scope" ≠ some "full") :
    let child := link library limits a.position a.root
    let g := gathered library limits p root
    g.symbols = child.symbols ∧ g.rules.rules = child.rules.rules ∧ g.faults = child.faults ∧
      g.fullImports = [] := by
  intro child g
  have hg : g = take {} e a child := by
    show (root.findAll importTag).foldl _ _ = _
    rw [honly, List.foldl_cons, List.foldl_nil, addImport, haccept]
  have hsymbols := mergeSymbols_disjoint (fun _ => e.line) child.symbols.nodup_names
    (t := ∅) fun _ _ => rfl
  have hrules := mergeRules_disjoint (fun _ => e.line) child.rules.nodup_names
    (b := ∅) fun _ _ => rfl
  have horder := (mergeRules_merges (fun _ => e.line) ∅ child.rules.rules).2.2
  rw [hg]
  refine ⟨Table.ext_get? fun name => ?_, ?_, ?_, if_neg hscope⟩
  · exact get?_mergeSymbols (fun _ => e.line) ∅ child.symbols name
  · exact horder.trans (@newRules_of_nodup [] _ child.rules.nodup_names)
  · show [] ++ child.faults ++ _ ++ _ = _
    rw [hsymbols, hrules, List.nil_append, List.append_nil, List.append_nil]

/-- A document with a single import, and its faults where the two share no name. -/
theorem link_one_import {root e : Element} {a : Accepted} (honly : root.findAll importTag = [e])
    (haccept : acceptAt library limits p e = .ok a) (hscope : e.attribute? "scope" ≠ some "full") :
    let child := link library limits a.position a.root
    let linked := link library limits p root
    let own := resolve p.space child.symbols root
    let compiled := compile p.space linked.symbols limits.expression root
    (∀ name, linked.symbols.get? name = (own.table.get? name).or (child.symbols.get? name)) ∧
    (∀ name, linked.rules.get? name = (compiled.rules.get? name).or (child.rules.get? name)) ∧
    linked.constraints = compiled.rules.constraints.map Rule.name ∧
    linked.fullImports = [] ∧
    ((∀ x ∈ child.symbols.toList, own.table.get? x.1 = none) →
      (∀ r ∈ child.rules.rules, compiled.rules.get? r.name = none) →
      linked.faults = child.faults ++ own.faults ++ compiled.faults) := by
  intro child linked own compiled
  obtain ⟨hsymbols, hrules, hfaults, hfull⟩ := gathered_one_import honly haccept hscope
  obtain ⟨htable, hbook, hreports, hconstraints, hnone⟩ := link_parts library limits p root
  have hown : ownSymbols library limits p root = own.table := by
    unfold ownSymbols
    rw [hsymbols]
  rw [hown, hsymbols] at htable
  rw [hrules] at hbook
  rw [hown, hsymbols, hrules, hfaults] at hreports
  refine ⟨fun name => ?_, fun name => ?_, hconstraints, hnone.trans hfull,
    fun hdistinct hapart => ?_⟩
  · exact (congrArg (·.get? name) htable).trans
      (get?_mergeSymbols Symbol.line own.table child.symbols name)
  · exact (congrArg (·.get? name) hbook).trans
      (get?_mergeRules Rule.line compiled.rules child.rules name)
  · rw [mergeSymbols_disjoint Symbol.line child.symbols.nodup_names hdistinct,
      show ownRules library limits p root = compiled.rules from rfl,
      mergeRules_disjoint Rule.line child.rules.nodup_names hapart, List.nil_append,
      List.append_nil, ← List.append_assoc] at hreports
    exact hreports

end Link

namespace Engine

variable {engine : Engine} {source : Option String} {root part e : Element}
  {before after : List Element}

/-- The document imports another one that stands on its own, by the only import it has, which is
among its children and neither has an alias nor asks for the constructs. It declares no symbol that
is one of the other or that a rule of the other looks up, and no rule of the same name as one. -/
structure Inlines (engine : Engine) (source : Option String) (root part : Element)
    (before : List Element) (e : Element) (after : List Element) : Prop where
  contained : part.SelfContained
  closed : ∀ r ∈ (part.ownBook engine.limits.expression).rules, "eval" ∉ r.body.calls
  outside : root.isSection = false
  children : root.children = before ++ e :: after
  only : root.findAll importTag = [e]
  leaf : e.children = []
  unaliased : e.alias? = none
  narrow : e.attribute? "scope" ≠ some "full"
  accepted : ∃ a, Link.acceptAt engine.library engine.limits (engine.start source) e = .ok a ∧
    a.root = part
  symbols : ∀ d ∈ Resolution.declarations root, ∀ name, d.name? = some name →
    part.ownTable.get? name = none ∧
      ∀ r ∈ (part.ownBook engine.limits.expression).rules, name ∉ r.freeNames
  rules : ∀ r ∈ (Link.ownRules engine.library engine.limits (engine.start source) root).rules,
    (part.ownBook engine.limits.expression).get? r.name = none

namespace Inlines

variable (h : Inlines engine source root part before e after)

include h

theorem declarations :
    Resolution.declarations (root.inlining part (before ++ after)) =
        Resolution.declarations part ++ Resolution.declarations root ∧
      Compilation.declarations (root.inlining part (before ++ after)) =
        Compilation.declarations part ++ Compilation.declarations root := by
  have htag : e.tag = importTag := Element.tag_of_only h.only
  have hsections : ∀ tag, (Element.leaf tag).isSection = true → e.tag ≠ tag →
      (root.inlining part (before ++ after)).findAll tag = part.findAll tag ++ root.findAll tag :=
    fun tag hsection hne =>
      Element.findAll_inlining hsection h.outside h.contained h.children h.leaf hne
  unfold Resolution.declarations Compilation.declarations
  rw [hsections _ (by decide) (by rw [htag]; decide),
    hsections _ (by decide) (by rw [htag]; decide), List.flatMap_append, List.flatMap_append]
  exact ⟨rfl, rfl⟩

theorem no_imports : (root.inlining part (before ++ after)).findAll importTag = [] := by
  obtain ⟨hne, hbefore, hafter⟩ := Element.imports_of_only h.children h.only
  have hpart : Element.tagged importTag part.sections = [] := by
    refine Element.tagged_filter_eq_nil _ (List.filter_eq_nil_iff.mpr fun x hx => ?_)
    have himports := h.contained.imports
    rw [Element.findAll_eq_filter, List.filter_eq_nil_iff] at himports
    refine himports x ?_
    rw [Element.preorder_eq]
    exact List.mem_cons_of_mem _ hx
  have hinlining : (root.inlining part (before ++ after)).tag ≠ importTag := hne
  rw [Element.findAll_of_ne hinlining]
  show Element.tagged importTag (part.sections ++ (before ++ after)) = []
  rw [Element.tagged_append, Element.tagged_append, hpart, hbefore, hafter]
  rfl

/-- What the import brings is what the document comes to on its own. -/
theorem brought {a : Link.Accepted}
    (haccept : Link.acceptAt engine.library engine.limits (engine.start source) e = .ok a)
    (ha : a.root = part) :
    let child := Link.link engine.library engine.limits a.position a.root
    child.symbols = part.ownTable ∧ child.rules = part.ownBook engine.limits.expression ∧
      child.faults = (resolve none ∅ part).faults ++
        (compile none part.ownTable engine.limits.expression part).faults := by
  have hspace : a.position.space = none :=
    (Link.space_of_accept haccept).trans (Link.spaceOf_no_alias h.unaliased none)
  rw [ha, Link.link_no_imports h.contained.imports, hspace]
  exact ⟨rfl, rfl, rfl⟩

theorem table_disjoint {name : String} {s : Symbol}
    (hown : (resolve none part.ownTable root).table.get? name = some s) :
    part.ownTable.get? name = none ∧
      ∀ r ∈ (part.ownBook engine.limits.expression).rules, name ∉ r.freeNames := by
  obtain ⟨d, hd, short, hshort, -, hname⟩ := name_of_mem_resolve
    ((Table.mem_toList (e := (name, s))).mpr hown)
  have hsame : name = short := hname
  exact h.symbols d hd name (by rw [hsame]; exact hshort)

/-- Rules of the imported document do not notice that they keep the larger scope. -/
theorem keeping_alike {symbols : SymbolTable}
    (hsymbols : ∀ name, symbols.get? name =
      ((resolve none part.ownTable root).table.get? name).or (part.ownTable.get? name))
    {q : Rule} (hq : q ∈ (part.ownBook engine.limits.expression).rules) :
    q.Alike (q.keeping symbols.scope) := by
  obtain ⟨d, -, unnamed, hattempt⟩ := attempt_of_mem_compile hq
  have hscope : q.scope = part.ownTable.scope := (Compilation.attempt_ok hattempt).2.1
  refine ⟨rfl, rfl, rfl, rfl, .inr ⟨h.closed q hq, fun name hname => ?_⟩⟩
  rw [hscope]
  show part.ownTable.scope.get? name = symbols.scope.get? name
  rw [SymbolTable.get?_scope, SymbolTable.get?_scope, hsymbols]
  cases hown : (resolve none part.ownTable root).table.get? name with
  | none => rfl
  | some s => exact absurd hname ((h.table_disjoint hown).2 q hq)

/-- What the importing document links to. -/
theorem linked_importing :
    let linked := engine.linkChecked root source
    let compiled := compile none linked.symbols engine.limits.expression root
    (∀ name, linked.symbols.get? name =
      ((resolve none part.ownTable root).table.get? name).or (part.ownTable.get? name)) ∧
    (∀ name, linked.rules.get? name = (compiled.rules.get? name).or
      ((part.ownBook engine.limits.expression).get? name)) ∧
    linked.constraints = compiled.rules.constraints.map Rule.name ∧
    linked.fullImports = [] ∧
    linked.faults = (resolve none ∅ part).faults ++
      (compile none part.ownTable engine.limits.expression part).faults ++
      (resolve none part.ownTable root).faults ++ compiled.faults := by
  intro linked compiled
  obtain ⟨a, haccept, ha⟩ := h.accepted
  obtain ⟨hchildsymbols, hchildrules, hchildfaults⟩ := h.brought haccept ha
  have hone := Link.link_one_import h.only haccept h.narrow
  simp only [hchildsymbols, hchildrules, hchildfaults] at hone
  obtain ⟨hsymbols, hrules, hconstraints, hfull, hfaults⟩ := hone
  refine ⟨hsymbols, hrules, hconstraints, hfull, hfaults (fun x hx => ?_) fun r hr => ?_⟩
  · cases hown : (resolve none part.ownTable root).table.get? x.1 with
    | none => exact hown
    | some s =>
      have hnone := (h.table_disjoint hown).1
      rw [Table.mem_toList.mp hx] at hnone
      cases hnone
  · cases hown : compiled.rules.get? r.name with
    | none => exact hown
    | some q =>
      obtain ⟨hq, hname⟩ := Rulebook.get?_eq_some.mp hown
      have hnone := h.rules q hq
      rw [hname] at hnone
      exact absurd rfl (Rulebook.ne_of_get?_eq_none hnone r hr)

/-- What the inlining document links to, where the importing one links to these symbols. -/
theorem linked_inlining {symbols : SymbolTable}
    (hsymbols : ∀ name, symbols.get? name =
      ((resolve none part.ownTable root).table.get? name).or (part.ownTable.get? name))
    (hfree : ∀ r ∈ (compile none symbols engine.limits.expression root).rules.rules,
      (part.ownBook engine.limits.expression).get? r.name = none) :
    let linked' := engine.linkChecked (root.inlining part (before ++ after)) source
    let compiled := compile none symbols engine.limits.expression root
    linked'.symbols = symbols ∧
      linked'.rules.rules = (part.ownBook engine.limits.expression).rules.map
        (Rule.keeping symbols.scope) ++ compiled.rules.rules ∧
      linked'.constraints = compiled.rules.constraints.map Rule.name ∧
      linked'.fullImports = [] ∧
      linked'.faults = (resolve none ∅ part).faults ++ (resolve none part.ownTable root).faults ++
        ((compile none part.ownTable engine.limits.expression part).faults ++ compiled.faults) := by
  intro linked' compiled
  obtain ⟨htable, hresolved⟩ := resolve_behind h.declarations.1 fun d hd name hname =>
    (h.symbols d hd name hname).1
  have hsame : (resolve none ∅ (root.inlining part (before ++ after))).table = symbols :=
    Table.ext_get? fun name => (htable name).trans (hsymbols name).symm
  obtain ⟨hrules, hcompiled⟩ := @compile_behind root (root.inlining part (before ++ after)) part
    symbols engine.limits.expression h.declarations.2 h.contained.named fun r hr q hq =>
      Rulebook.ne_of_get?_eq_none (hfree r hr) q hq
  have hlinked : linked' = _ := Link.link_no_imports h.no_imports
  have hunconstrained : ((part.ownBook engine.limits.expression).rules.map
      (Rule.keeping symbols.scope)).filter (fun r => r.kind = .constraint) = [] := by
    refine List.filter_eq_nil_iff.mpr fun r hr hkind => ?_
    obtain ⟨q, hq, rfl⟩ := List.mem_map.mp hr
    obtain ⟨d, hd, unnamed, hattempt⟩ := attempt_of_mem_compile hq
    have hconstraint : (q.keeping symbols.scope).kind = .constraint := by simpa using hkind
    refine h.contained.unconstrained d hd ?_
    rw [(Compilation.attempt_ok hattempt).1]
    exact congrArg some hconstraint
  rw [hlinked]
  refine ⟨hsame, ?_, ?_, rfl, ?_⟩
  · show (compile none _ _ _).rules.rules = _
    rw [hsame, hrules]
  · show ((compile none _ _ _).rules.rules.filter _).map _ = _
    rw [hsame, hrules, List.filter_append, hunconstrained]
    rfl
  · show _ ++ (compile none _ _ _).faults = _
    rw [hsame, hcompiled, hresolved]

/-- Both documents link to the same symbols, to rules that come to the same, and to the same faults
in another order. -/
theorem linked :
    let linked := engine.linkChecked root source
    let linked' := engine.linkChecked (root.inlining part (before ++ after)) source
    linked'.symbols = linked.symbols ∧ linked.rules.Alike linked'.rules ∧
      linked'.constraints = linked.constraints ∧
      (∀ name ∈ linked.constraints, linked.rules.get? name = linked'.rules.get? name) ∧
      linked.fullImports = [] ∧ linked'.fullImports = [] ∧ linked'.faults.Perm linked.faults := by
  intro linked linked'
  obtain ⟨hsymbols, hrules, hconstraints, hfull, hfaults⟩ := h.linked_importing
  obtain ⟨hsymbols', hrules', hconstraints', hfull', hfaults'⟩ := h.linked_inlining hsymbols h.rules
  obtain ⟨halike, hget⟩ := Rulebook.alike_of_keeping hrules hrules' h.rules fun q hq =>
    h.keeping_alike hsymbols hq
  refine ⟨hsymbols', halike, hconstraints'.trans hconstraints.symm, fun name hname => ?_, hfull,
    hfull', ?_⟩
  · rw [hconstraints] at hname
    obtain ⟨r, hr, rfl⟩ := List.mem_map.mp hname
    exact hget r (List.mem_filter.mp hr).1
  · rw [hfaults, hfaults', List.append_assoc, List.append_assoc, List.append_assoc]
    refine .append_left _ ?_
    rw [← List.append_assoc, ← List.append_assoc]
    exact List.perm_append_comm.append_right _

/-! ### Evaluation -/

/-- The sections in front and the import add nothing to a session. -/
theorem visitAll_children (p : Program) (f : Frame) (s : Session) :
    Session.visitAll p f s root.children = Session.visitAll p f s (before ++ after) ∧
    Session.visitAll p f s (root.inlining part (before ++ after)).children =
      Session.visitAll p f s (before ++ after) := by
  have htag : e.tag = importTag := Element.tag_of_only h.only
  have hrole : Role.ofTag e.tag = .declarations := by
    rw [htag]
    decide
  have hsections : ∀ x ∈ part.sections, Role.ofTag x.tag = .declarations :=
    fun x hx => Element.role_of_isSection (List.mem_filter.mp hx).2
  constructor
  · rw [h.children, Session.visitAll_append, Session.visitAll,
      Session.visit_declarations p f _ hrole, ← Session.visitAll_append]
  · show Session.visitAll p f s (part.sections ++ (before ++ after)) = _
    rw [Session.visitAll_append, Session.visitAll_declarations p f s hsections]

/-- From the faults of linking on both documents come to the same. -/
theorem run_gains :
    let linked := engine.linkChecked root source
    let linked' := engine.linkChecked (root.inlining part (before ++ after)) source
    let s := engine.run linked root
    let s' := engine.run linked' (root.inlining part (before ++ after))
    s'.writes = s.writes ∧
      ∃ faults, s.faults = linked.faults ++ faults ∧ s'.faults = linked'.faults ++ faults := by
  intro linked linked' s s'
  obtain ⟨hsymbols, hrules, hconstraints, hget, hfull, hfull', -⟩ := h.linked
  have halike : (engine.program linked).Alike (engine.program linked') :=
    Program.alike_of_rules hsymbols.symm rfl rfl hrules
  let f : Frame := .ofDocument linked.symbols.scope none
  have hs : s = Session.visitAll (engine.program linked) f
      (Session.checkConstraints (engine.program linked) { faults := linked.faults }
        linked.constraints) (before ++ after) := by
    show engine.run linked root = _
    rw [run_eq, hfull]
    exact (h.visitAll_children _ f _).1
  have hs' : s' = Session.visitAll (engine.program linked) f
      (Session.checkConstraints (engine.program linked) { faults := linked'.faults }
        linked.constraints) (before ++ after) := by
    show engine.run linked' _ = _
    rw [run_eq, hfull', hsymbols, hconstraints,
      ← Session.evaluateDocument_alike halike _ _ _ _ hget]
    exact (h.visitAll_children _ f _).2
  have hchecks := Session.checkConstraints_parallel (engine.program linked) f f
    { faults := linked.faults } { faults := linked'.faults } linked.constraints
  have hboth := hchecks.trans (Session.visitAll_parallel (engine.program linked) (.refl f)
    (before ++ after) (.inl (hchecks.generated rfl)))
  obtain ⟨faults, writes, hgains, hgains'⟩ := hboth.gains
  rw [← hs] at hgains
  rw [← hs'] at hgains'
  exact ⟨hgains'.writes.trans hgains.writes.symm, faults, hgains.faults, hgains'.faults⟩

end Inlines

/-- Where an import brings a document that stands on its own, without an alias and with nothing of
it to be evaluated, its sections can take the place of the import: the results are the same, and so
are the faults but for their order. -/
theorem evaluate_inlining (h : Inlines engine source root part before e after)
    (hsize : root.count ≤ engine.limits.elements)
    (hsize' : (root.inlining part (before ++ after)).count ≤ engine.limits.elements) :
    (engine.evaluate (some (root.inlining part (before ++ after))) source).results =
        (engine.evaluate (some root) source).results ∧
      (engine.evaluate (some (root.inlining part (before ++ after))) source).faults.Perm
        (engine.evaluate (some root) source).faults := by
  have hevaluate : ∀ x : Element, x.count ≤ engine.limits.elements →
      engine.evaluate (some x) source =
        let s := engine.run (engine.linkChecked x source) x
        ⟨s.results, s.faults, s.trace.lines⟩ := by
    intro x hx
    rw [Element.count_eq_length] at hx
    unfold evaluate
    rw [check_of_le hx]
  obtain ⟨hwrites, faults, hfaults, hfaults'⟩ := h.run_gains
  obtain ⟨-, -, -, -, -, -, hperm⟩ := h.linked
  rw [hevaluate root hsize, hevaluate _ hsize']
  constructor
  · exact congrArg Table.ofList hwrites
  · show (engine.run _ _).faults.Perm (engine.run _ _).faults
    rw [hfaults, hfaults']
    exact hperm.append_right faults

/-! ### A small document -/

/-- A section that declares one function. -/
def functionSection (name parameters body : String) : Element :=
  (Element.leaf Compilation.sectionTag).addChild
    ((((Element.leaf "function").setAttribute "name" name).setAttribute "params" parameters).setAttribute
      "body" body)

/-- A document of one variable and a function that compares it with its argument. -/
def comparing : Element :=
  (Element.leaf "tenet").addChildren
    [Link.variableSection "s" "'x'", functionSection "same" "t" "s == t"]

def comparingImport : Element := (Element.leaf importTag).setAttribute "src" "comparing"

def comparingRest : List Element :=
  [Link.variableSection "u" "s", functionSection "check" "" "same(u)",
    ((Element.leaf "query").setAttribute "name" "q").setAttribute "expr" "check()"]

def comparingEngine : Engine :=
  { library := .ofDocuments (.ofList [("comparing", comparing)]) }

/-- A document that imports it and calls the function with a variable of its own. -/
def comparingRoot : Element := (Element.leaf "tenet").addChildren (comparingImport :: comparingRest)

theorem evaluate_inlining_comparing :
    Inlines comparingEngine none comparingRoot comparing [] comparingImport comparingRest ∧
    comparingRoot.count ≤ comparingEngine.limits.elements ∧
    (comparingRoot.inlining comparing comparingRest).count ≤ comparingEngine.limits.elements ∧
    (comparingEngine.evaluate (some comparingRoot) none).results.names = ["q"] ∧
    (comparingEngine.evaluate (some (comparingRoot.inlining comparing comparingRest))
      none).results =
      (comparingEngine.evaluate (some comparingRoot) none).results := by
  have hcontained : comparing.SelfContained := by
    refine ⟨by decide, by decide, ?_, ?_, ?_⟩
    · rw [Element.findAll_eq_filter]
      rfl
    · decide +kernel
    · decide +kernel
  have hinlines : Inlines comparingEngine none comparingRoot comparing [] comparingImport
      comparingRest := by
    refine ⟨hcontained, by decide +kernel, by decide, rfl, ?_, rfl, by decide +kernel, by decide,
      ⟨_, rfl, rfl⟩, ?_, ?_⟩
    · rw [Element.findAll_eq_filter]
      rfl
    · have hname : ∀ d ∈ Resolution.declarations comparingRoot, d.name? = some "u" := by
        decide +kernel
      have hfree : (comparing.ownTable.get? "u").isNone ∧
          ∀ r ∈ (comparing.ownBook comparingEngine.limits.expression).rules, "u" ∉ r.freeNames := by
        decide +kernel
      intro d hd name hd'
      cases (hname d hd).symm.trans hd'
      exact ⟨Option.isNone_iff_eq_none.mp hfree.1, hfree.2⟩
    · have hnone : ∀ r ∈ (Link.ownRules comparingEngine.library comparingEngine.limits
          (comparingEngine.start none) comparingRoot).rules,
          ((comparing.ownBook comparingEngine.limits.expression).get? r.name).isNone := by
        decide +kernel
      exact fun r hr => Option.isNone_iff_eq_none.mp (hnone r hr)
  have hsize : comparingRoot.count ≤ comparingEngine.limits.elements := by decide +kernel
  have hsize' : (comparingRoot.inlining comparing comparingRest).count ≤
      comparingEngine.limits.elements := by decide +kernel
  exact ⟨hinlines, hsize, hsize', by decide +kernel, (evaluate_inlining hinlines hsize hsize').1⟩

end Engine

end Premise
