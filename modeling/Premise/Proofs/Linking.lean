import Mathlib.Algebra.GroupWithZero.Nat
import Premise.Proofs.Merge
import Premise.Proofs.Walk

/-!
Linking as the recursion over imports that it is, and what becomes of the declarations.

`link_eq` says what one document does with those it imports, without the bound that `linkAt` recurs
on. The imports that are not refused are listed by `brought`, each with the document it brought. All
that a document and its imports declare is merged twice, on the way to `gathered` and from there
behind the document's own declarations; `link_keeps_declarations` says what the two merges come to:
every declaration is either in the linked document or named by a conflict.
-/

namespace Premise

theorem conflicts_resolve (store : Store) (space : Option String) (external : SymbolTable)
    (root : Element) : Fault.conflicts store (resolve space external root).faults = [] := by
  refine Fault.conflicts_eq_nil fun f hf name hcause => ?_
  have hnone : ∀ f ∈ ({} : Resolution).faults, ∃ error, f.cause = .symbol error := by
    intro f hf
    cases hf
  obtain ⟨error, herror⟩ := Resolution.cause_of_mem_faults hnone f hf
  rw [hcause] at herror
  cases herror

theorem conflicts_compile (store : Store) (space : Option String) (symbols : SymbolTable)
    (limit : Nat) (root : Element) :
    Fault.conflicts store (compile space symbols limit root).faults = [] := by
  refine Fault.conflicts_eq_nil fun f hf name hcause => ?_
  have hnone : ∀ f ∈ ({} : Compilation).faults, ∃ error, f.cause = .rule error := by
    intro f hf
    cases hf
  obtain ⟨error, herror⟩ := Compilation.cause_of_mem_faults hnone f hf
  rw [hcause] at herror
  cases herror

/-- The name that an import puts in front of what it brings. -/
def Element.alias? (e : Element) : Option String := (e.attribute? "as").bind Text.nonBlank?

namespace Link

theorem spaceOf_alias {e : Element} {name : String} (h : e.alias? = some name)
    (space : Option String) : spaceOf space e = some (Name.qualify space name) := by
  unfold spaceOf
  rw [show (e.attribute? "as").bind Text.nonBlank? = some name from h]

theorem spaceOf_no_alias {e : Element} (h : e.alias? = none) (space : Option String) :
    spaceOf space e = space := by
  unfold spaceOf
  rw [show (e.attribute? "as").bind Text.nonBlank? = none from h]

/-! ### The recursion over imports -/

section

variable {library : Library} {limit : Nat} {allowed : Bool} {p : Position} {e : Element}
  {a : Accepted}

theorem accept_ok (h : accept library limit allowed p e = .ok a) :
    allowed = true ∧ ∃ reference loaded, reference? e = some reference ∧
      library.load reference p.id = .ok loaded ∧ loaded.id ∉ p.chain ∧
      a = ⟨loaded.root, some loaded.id, spaceOf p.space e, p.chain ++ [loaded.id]⟩ := by
  unfold accept at h
  split at h
  · cases h
  · rename_i reference hreference
    split at h
    · cases h
    · rename_i hallowed
      split at h
      · cases h
      · rename_i loaded hloaded
        split at h
        · cases h
        · rename_i hfresh
          cases h
          refine ⟨by simpa using hallowed, reference, loaded, hreference, hloaded, ?_, rfl⟩
          simpa using hfresh

theorem accept_error {error : ImportError} (h : accept library limit allowed p e = .error error) :
    (reference? e = none ∧ error = .noReference) ∨
      ∃ reference, reference? e = some reference ∧
        (allowed = false ∧ error = .tooDeep reference limit ∨
          allowed = true ∧
            ((∃ failure, library.load reference p.id = .error failure ∧
                error = .failed reference failure) ∨
              ∃ loaded, library.load reference p.id = .ok loaded ∧ loaded.id ∈ p.chain ∧
                error = .cycle (p.chain ++ [loaded.id]))) := by
  unfold accept at h
  split at h
  · rename_i hnone
    cases h
    exact .inl ⟨hnone, rfl⟩
  · rename_i reference hreference
    refine .inr ⟨reference, hreference, ?_⟩
    split at h
    · rename_i hdeep
      cases h
      exact .inl ⟨by simpa using hdeep, rfl⟩
    · rename_i hallowed
      refine .inr ⟨by simpa using hallowed, ?_⟩
      split at h
      · rename_i failure hfailed
        cases h
        exact .inl ⟨failure, hfailed, rfl⟩
      · rename_i loaded hloaded
        split at h
        · rename_i hcycle
          cases h
          exact .inr ⟨loaded, hloaded, by simpa using hcycle, rfl⟩
        · cases h

theorem length_chain_of_accept (h : accept library limit allowed p e = .ok a) :
    a.position.chain.length = p.chain.length + 1 := by
  obtain ⟨_, _, _, _, _, _, rfl⟩ := accept_ok h
  exact List.length_append

theorem space_of_accept (h : accept library limit allowed p e = .ok a) :
    a.position.space = spaceOf p.space e := by
  obtain ⟨_, _, _, _, _, _, rfl⟩ := accept_ok h
  rfl

end

/-- Looks at an import of the document at a position: the chain may become longer up to the
limit. -/
def acceptAt (library : Library) (limits : Limits) (p : Position) (e : Element) :
    Except ImportError Accepted :=
  accept library limits.imports (decide (p.chain.length ≤ limits.imports)) p e

theorem acceptAt_deep {library : Library} {limits : Limits} {p : Position} {e : Element}
    {reference : String} (hreference : reference? e = some reference)
    (hdeep : limits.imports < p.chain.length) :
    acceptAt library limits p e = .error (.tooDeep reference limits.imports) := by
  have hrefused : decide (p.chain.length ≤ limits.imports) = false :=
    decide_eq_false (Nat.not_le.mpr hdeep)
  unfold acceptAt accept
  rw [hrefused, hreference]
  rfl

theorem acceptAt_loaded {library : Library} {limits : Limits} {p : Position} {e : Element}
    {reference : String} {loaded : Loaded} (hreference : reference? e = some reference)
    (hshort : p.chain.length ≤ limits.imports) (hload : library.load reference p.id = .ok loaded) :
    acceptAt library limits p e =
      if p.chain.contains loaded.id then .error (.cycle (p.chain ++ [loaded.id]))
      else .ok ⟨loaded.root, some loaded.id, spaceOf p.space e, p.chain ++ [loaded.id]⟩ := by
  unfold acceptAt accept
  rw [decide_eq_true hshort, hreference]
  simp only [hload]
  rfl

/-- All that the imports of a document bring. -/
def gathered (library : Library) (limits : Limits) (p : Position) (root : Element) : Gathered :=
  (root.findAll importTag).foldl (addImport (acceptAt library limits p) (link library limits)) {}

theorem link_eq (library : Library) (limits : Limits) (p : Position) (root : Element) :
    link library limits p root =
      finish limits.expression p.space (gathered library limits p root) root := by
  have hroom : ∀ lower : Position → Element → Linked,
      (∀ e a, acceptAt library limits p e = .ok a →
        lower a.position a.root = link library limits a.position a.root) →
      addImport (acceptAt library limits p) lower =
        addImport (acceptAt library limits p) (link library limits) := by
    intro lower hlower
    funext g e
    unfold addImport
    cases haccept : acceptAt library limits p e with
    | error error => rfl
    | ok a => simp only [hlower e a haccept]
  unfold gathered
  show linkAt library limits (limits.imports + 1 - p.chain.length) p root = _
  by_cases h : p.chain.length ≤ limits.imports
  · -- one document more on the chain, one less that it may grow by
    obtain ⟨room, hrest⟩ : ∃ room, limits.imports + 1 - p.chain.length = room + 1 :=
      ⟨limits.imports - p.chain.length, by omega⟩
    have haccept : accept library limits.imports true p = acceptAt library limits p := by
      unfold acceptAt
      rw [decide_eq_true h]
    rw [hrest, linkAt, haccept, hroom]
    intro e a ha
    have hlength := length_chain_of_accept ha
    show _ = linkAt library limits (limits.imports + 1 - a.position.chain.length) _ _
    rw [hlength, show limits.imports + 1 - (p.chain.length + 1) = room by omega]
  · have haccept : accept library limits.imports false p = acceptAt library limits p := by
      unfold acceptAt
      rw [decide_eq_false h]
    rw [show limits.imports + 1 - p.chain.length = 0 by omega, linkAt, haccept, hroom]
    intro e a ha
    exact absurd (of_decide_eq_true (accept_ok ha).1) h

/-- An import that was let in, with the document that it brought. -/
structure Brought where
  element : Element
  accepted : Accepted
  linked : Linked

def brought? (library : Library) (limits : Limits) (p : Position) (e : Element) :
    Option Brought :=
  (acceptAt library limits p e).toOption.map fun a => ⟨e, a, link library limits a.position a.root⟩

/-- The imports that are not refused, in document order. -/
def brought (library : Library) (limits : Limits) (p : Position) (root : Element) :
    List Brought :=
  (root.findAll importTag).filterMap (brought? library limits p)

section

variable {library : Library} {limits : Limits} {p : Position} {root e : Element}

theorem brought?_of_error {error : ImportError} (h : acceptAt library limits p e = .error error) :
    brought? library limits p e = none := by
  rw [brought?, h]
  rfl

theorem brought?_of_ok {a : Accepted} (h : acceptAt library limits p e = .ok a) :
    brought? library limits p e = some ⟨e, a, link library limits a.position a.root⟩ := by
  rw [brought?, h]
  rfl

theorem mem_brought_of_ok {a : Accepted} (he : e ∈ root.findAll importTag)
    (h : acceptAt library limits p e = .ok a) :
    ⟨e, a, link library limits a.position a.root⟩ ∈ brought library limits p root :=
  List.mem_filterMap.mpr ⟨e, he, brought?_of_ok h⟩

end

theorem mem_brought {library : Library} {limits : Limits} {p : Position} {root : Element}
    {c : Brought} (h : c ∈ brought library limits p root) :
    c.element ∈ root.findAll importTag ∧ acceptAt library limits p c.element = .ok c.accepted ∧
      c.linked = link library limits c.accepted.position c.accepted.root := by
  obtain ⟨e, he, hc⟩ := List.mem_filterMap.mp h
  unfold brought? at hc
  cases haccept : acceptAt library limits p e with
  | error error =>
    rw [haccept] at hc
    cases hc
  | ok a =>
    rw [haccept] at hc
    cases hc
    exact ⟨he, haccept, rfl⟩

/-- Induction over the documents that are imported: the chain to each of them is longer. -/
theorem link_induction {library : Library} {limits : Limits} {motive : Position → Element → Prop}
    (step : ∀ p root, (∀ c ∈ brought library limits p root,
      motive c.accepted.position c.accepted.root) → motive p root)
    (p : Position) (root : Element) : motive p root := by
  have hbound : ∀ room p root, limits.imports + 1 - p.chain.length ≤ room → motive p root := by
    intro room
    induction room with
    | zero =>
      intro p root hroom
      refine step p root fun c hc => ?_
      have hshort : p.chain.length ≤ limits.imports :=
        of_decide_eq_true (accept_ok (mem_brought hc).2.1).1
      omega
    | succ room ih =>
      intro p root hroom
      refine step p root fun c hc => ih _ _ ?_
      have hlength := length_chain_of_accept (mem_brought hc).2.1
      omega
  exact hbound _ p root (Nat.le_refl _)

namespace Brought

/-- What documents bring, one after the other. -/
def symbols (cs : List Brought) : List (String × Symbol) :=
  cs.flatMap fun c => c.linked.symbols.toList

def rules (cs : List Brought) : List Rule := cs.flatMap fun c => c.linked.rules.rules

def faults (cs : List Brought) : List Fault := cs.flatMap fun c => c.linked.faults

theorem find?_symbols (cs : List Brought) (name : String) :
    (symbols cs).find? (fun e => e.1 = name) =
      (cs.findSome? fun c => c.linked.symbols.get? name).map fun s => (name, s) := by
  induction cs with
  | nil => rfl
  | cons c cs ih =>
    show (c.linked.symbols.toList ++ symbols cs).find? _ = _
    rw [List.find?_append, Table.find?_toList, ih, List.findSome?_cons]
    cases c.linked.symbols.get? name <;> rfl

theorem find?_rules (cs : List Brought) (name : String) :
    (rules cs).find? (fun r => r.name = name) =
      cs.findSome? fun c => c.linked.rules.get? name := by
  induction cs with
  | nil => rfl
  | cons c cs ih =>
    show (c.linked.rules.rules ++ rules cs).find? _ = _
    rw [List.find?_append, ih, List.findSome?_cons]
    show (c.linked.rules.get? name).or _ = _
    cases c.linked.rules.get? name <;> rfl

end Brought

theorem symbols_get?_of_merges {t u : SymbolTable} {cs : List Brought} {conflicts : List String}
    (h : MergesSymbols t.toList (Brought.symbols cs) u.toList conflicts) (name : String) :
    u.get? name = (t.get? name).or (cs.findSome? fun c => c.linked.symbols.get? name) := by
  rw [h.get?, Brought.find?_symbols, Option.map_map]
  simp [Function.comp_def]

/-! ### The account of a merge -/

/-- From `g` to `g'` these documents were merged in, and these faults reported besides theirs. -/
structure Collects (g g' : Gathered) (cs : List Brought) (level : List Fault) : Prop where
  symbols : MergesSymbols g.symbols.toList (Brought.symbols cs) g'.symbols.toList
    (Fault.conflicts .symbols level)
  rules : MergesRules g.rules.rules (Brought.rules cs) g'.rules.rules
    (Fault.conflicts .rules level)
  order : g'.rules.rules = g.rules.rules ++ newRules g.rules.names (Brought.rules cs)
  faults : g'.faults.Perm (g.faults ++ (level ++ Brought.faults cs))

namespace Collects

variable {g g' g'' : Gathered} {cs ds : List Brought} {level more : List Fault}

theorem refl (g : Gathered) : Collects g g [] [] :=
  ⟨.refl _ _, .refl _ _, (List.append_nil _).symm, by rw [Brought.faults, List.flatMap_nil]; simp⟩

theorem trans (h : Collects g g' cs level) (k : Collects g' g'' ds more) :
    Collects g g'' (cs ++ ds) (level ++ more) := by
  have hsymbols := h.symbols.trans k.symbols
  have hrules := h.rules.trans k.rules
  rw [← Fault.conflicts_append] at hsymbols hrules
  refine ⟨?_, ?_, ?_, ?_⟩
  · rw [Brought.symbols, List.flatMap_append]
    exact hsymbols
  · rw [Brought.rules, List.flatMap_append]
    exact hrules
  · have hnames : g'.rules.names = g.rules.names ++
        (newRules g.rules.names (Brought.rules cs)).map Rule.name := by
      rw [Rulebook.names, h.order, List.map_append]
      rfl
    have happend : Brought.rules (cs ++ ds) = Brought.rules cs ++ Brought.rules ds :=
      List.flatMap_append
    rw [k.order, h.order, happend, newRules_append, hnames, List.append_assoc]
  · have happend : Brought.faults (cs ++ ds) = Brought.faults cs ++ Brought.faults ds :=
      List.flatMap_append
    have hswap : (level ++ Brought.faults cs ++ (more ++ Brought.faults ds)).Perm
        (level ++ more ++ (Brought.faults cs ++ Brought.faults ds)) := by
      simp only [List.append_assoc]
      refine .append_left level ?_
      rw [← List.append_assoc, ← List.append_assoc]
      exact List.perm_append_comm.append_right _
    have hboth := k.faults.trans (h.faults.append_right _)
    rw [List.append_assoc] at hboth
    rw [happend]
    exact hboth.trans (hswap.append_left g.faults)

/-- A refused import brings nothing, and its fault is no conflict. -/
theorem refused (g : Gathered) {library : Library} {limits : Limits} {p : Position} {e : Element}
    {error : ImportError} (h : acceptAt library limits p e = .error error) :
    Collects g { g with faults := g.faults ++ [fault e.line error] } [] [fault e.line error] := by
  have hnone : ∀ store, Fault.conflicts store [fault e.line error] = [] := by
    intro store
    refine Fault.conflicts_eq_nil fun f hf name hcause => ?_
    have hconflict : error = .conflict store name := by
      rw [List.mem_singleton.mp hf] at hcause
      exact Cause.link.inj hcause
    rw [hconflict] at h
    rcases accept_error h with
      ⟨-, hother⟩ | ⟨_, -, ⟨-, hother⟩ | ⟨-, ⟨_, -, hother⟩ | ⟨_, -, -, hother⟩⟩⟩
    all_goals cases hother
  refine ⟨?_, ?_, (List.append_nil _).symm, ?_⟩
  · rw [hnone]
    exact .refl _ _
  · rw [hnone]
    exact .refl _ _
  · rw [Brought.faults, List.flatMap_nil, List.append_nil]

theorem take (g : Gathered) (c : Brought) :
    ∃ level, Collects g (take g c.element c.accepted c.linked) [c] level := by
  obtain ⟨hsymbols, hsymbols'⟩ :=
    mergeSymbols_merges (fun _ => c.element.line) g.symbols c.linked.symbols.toList
  obtain ⟨hrules, hrules', horder⟩ :=
    mergeRules_merges (fun _ => c.element.line) g.rules c.linked.rules.rules
  have honesymbols : Brought.symbols [c] = c.linked.symbols.toList := List.flatMap_singleton _ _
  have honerules : Brought.rules [c] = c.linked.rules.rules := List.flatMap_singleton _ _
  have honefaults : Brought.faults [c] = c.linked.faults := List.flatMap_singleton _ _
  refine ⟨(mergeSymbols (fun _ => c.element.line) g.symbols c.linked.symbols.toList).2 ++
    (mergeRules (fun _ => c.element.line) g.rules c.linked.rules.rules).2, ?_, ?_, ?_, ?_⟩
  · rw [Fault.conflicts_append, hrules', List.append_nil, honesymbols]
    exact hsymbols
  · rw [Fault.conflicts_append, hsymbols', List.nil_append, honerules]
    exact hrules
  · rw [honerules]
    exact horder
  · rw [honefaults]
    show (g.faults ++ c.linked.faults ++ _ ++ _).Perm _
    rw [List.append_assoc, List.append_assoc]
    exact List.perm_append_comm.append_left g.faults

end Collects

theorem foldl_collects (library : Library) (limits : Limits) (p : Position) (es : List Element)
    (g : Gathered) :
    ∃ level, Collects g (es.foldl (addImport (acceptAt library limits p) (link library limits)) g)
      (es.filterMap (brought? library limits p)) level := by
  induction es generalizing g with
  | nil => exact ⟨[], .refl g⟩
  | cons e es ih =>
    rw [List.foldl_cons]
    unfold addImport
    cases haccept : acceptAt library limits p e with
    | error error =>
      obtain ⟨level, hrest⟩ := ih { g with faults := g.faults ++ [fault e.line error] }
      rw [List.filterMap_cons_none (brought?_of_error haccept)]
      exact ⟨_, (Collects.refused g haccept).trans hrest⟩
    | ok a =>
      obtain ⟨first, hfirst⟩ := Collects.take g ⟨e, a, link library limits a.position a.root⟩
      obtain ⟨level, hrest⟩ := ih (take g e a (link library limits a.position a.root))
      rw [List.filterMap_cons_some (brought?_of_ok haccept)]
      exact ⟨_, hfirst.trans hrest⟩

theorem gathered_collects (library : Library) (limits : Limits) (p : Position) (root : Element) :
    ∃ level, Collects {} (gathered library limits p root) (brought library limits p root) level :=
  foldl_collects library limits p _ {}

/-! ### A linked document -/

section

variable (library : Library) (limits : Limits) (p : Position) (root : Element)

/-- The document's own symbols, resolved beside those that its imports brought. -/
def ownSymbols : SymbolTable :=
  (resolve p.space (gathered library limits p root).symbols root).table

/-- The document's own rules, compiled against all symbols of the linked document. -/
def ownRules : Rulebook :=
  (compile p.space (link library limits p root).symbols limits.expression root).rules

/-- What the parts of a linked document are. -/
theorem link_parts :
    let g := gathered library limits p root
    let linked := link library limits p root
    let symbols := mergeSymbols Symbol.line (ownSymbols library limits p root) g.symbols.toList
    let rules := mergeRules Rule.line (ownRules library limits p root) g.rules.rules
    linked.symbols = symbols.1 ∧ linked.rules = rules.1 ∧
      linked.faults = g.faults ++ ((resolve p.space g.symbols root).faults ++ (symbols.2 ++
        ((compile p.space linked.symbols limits.expression root).faults ++ rules.2))) ∧
      linked.constraints = (ownRules library limits p root).constraints.map Rule.name ∧
      linked.fullImports = g.fullImports := by
  unfold ownRules ownSymbols
  rw [link_eq]
  refine ⟨rfl, rfl, ?_, rfl, rfl⟩
  simp only [← List.append_assoc]
  rfl

/-- All that a document and its imports declare is merged, the document's own in front. -/
theorem link_merges : ∃ level : List Fault,
    (link library limits p root).faults.Perm
      (level ++ Brought.faults (brought library limits p root)) ∧
    MergesSymbols (ownSymbols library limits p root).toList
      (Brought.symbols (brought library limits p root))
      (link library limits p root).symbols.toList (Fault.conflicts .symbols level) ∧
    MergesRules (ownRules library limits p root).rules
      (Brought.rules (brought library limits p root))
      (link library limits p root).rules.rules (Fault.conflicts .rules level) ∧
    (link library limits p root).rules.rules = (ownRules library limits p root).rules ++
      newRules (ownRules library limits p root).names
        (Brought.rules (brought library limits p root)) := by
  obtain ⟨below, hcollects⟩ := gathered_collects library limits p root
  obtain ⟨htable, hbook, hfaults, -, -⟩ := link_parts library limits p root
  obtain ⟨hsymbols, hsymbols'⟩ := mergeSymbols_merges Symbol.line
    (ownSymbols library limits p root) (gathered library limits p root).symbols.toList
  obtain ⟨hrules, hrules', horder⟩ := mergeRules_merges Rule.line
    (ownRules library limits p root) (gathered library limits p root).rules.rules
  have hlevel : ∃ own, (link library limits p root).faults =
      (gathered library limits p root).faults ++ own ∧
        Fault.conflicts .symbols own = Fault.conflicts .symbols (mergeSymbols Symbol.line
          (ownSymbols library limits p root) (gathered library limits p root).symbols.toList).2 ∧
        Fault.conflicts .rules own = Fault.conflicts .rules (mergeRules Rule.line
          (ownRules library limits p root) (gathered library limits p root).rules.rules).2 := by
    refine ⟨_, hfaults, ?_, ?_⟩
    · simp only [Fault.conflicts_append, conflicts_resolve, conflicts_compile, hrules',
        List.nil_append, List.append_nil]
    · simp only [Fault.conflicts_append, conflicts_resolve, conflicts_compile, hsymbols',
        List.nil_append]
  obtain ⟨own, hown, hownsymbols, hownrules⟩ := hlevel
  refine ⟨below ++ own, ?_, ?_, ?_, ?_⟩
  · rw [hown]
    refine (hcollects.faults.append_right own).trans ?_
    show (([] : List Fault) ++ _ ++ own).Perm _
    rw [List.nil_append, List.append_assoc, List.append_assoc]
    exact List.perm_append_comm.append_left below
  · rw [htable, Fault.conflicts_append, hownsymbols]
    exact hcollects.symbols.behind hsymbols
  · rw [hbook, Fault.conflicts_append, hownrules]
    exact hcollects.rules.behind hrules
  · have hlower : (gathered library limits p root).rules.rules =
        newRules [] (Brought.rules (brought library limits p root)) := hcollects.order
    rw [hbook, horder, hlower, newRules_newRules (by simp)]

theorem link_constraints : (link library limits p root).constraints =
    (ownRules library limits p root).constraints.map Rule.name :=
  (link_parts library limits p root).2.2.2.1

/-- Linking keeps the first declaration of every name, the document's own before those of its
imports and these in their order, and reports every other one at its own level, by one conflict. -/
theorem link_keeps_declarations :
    let linked : Linked := link library limits p root
    let children : List Brought := brought library limits p root
    let own : Resolution := resolve p.space (gathered library limits p root).symbols root
    let rules : Rulebook := (compile p.space linked.symbols limits.expression root).rules
    (∀ name, (gathered library limits p root).symbols.get? name =
      children.findSome? fun c => c.linked.symbols.get? name) ∧
    (∀ name, linked.symbols.get? name =
      (own.table.get? name).or (children.findSome? fun c => c.linked.symbols.get? name)) ∧
    (∀ name, linked.rules.get? name =
      (rules.get? name).or (children.findSome? fun c => c.linked.rules.get? name)) ∧
    linked.rules.rules = rules.rules ++
      newRules rules.names (children.flatMap fun c => c.linked.rules.rules) ∧
    ∃ level : List Fault,
      linked.faults.Perm (level ++ children.flatMap fun c => c.linked.faults) ∧
      (∀ f ∈ level, ∀ store name, f.conflict? store = some name →
        f.message = s!"{store.heading} conflict: '{name}' is already defined") ∧
      ((Fault.conflicts .symbols level).length + linked.symbols.size =
          own.table.size + (children.map fun c => c.linked.symbols.size).sum ∧
        ∃ lost : List (String × Symbol), lost.map (·.1) = Fault.conflicts .symbols level ∧
          (linked.symbols.toList ++ lost).Perm
            (own.table.toList ++ children.flatMap fun c => c.linked.symbols.toList)) ∧
      ((Fault.conflicts .rules level).length + linked.rules.size =
          rules.size + (children.map fun c => c.linked.rules.size).sum ∧
        ∃ lost : List Rule, lost.map Rule.name = Fault.conflicts .rules level ∧
          (linked.rules.rules ++ lost).Perm
            (rules.rules ++ children.flatMap fun c => c.linked.rules.rules)) := by
  intro linked children own rules
  obtain ⟨level, hfaults, hsymbols, hrules, horder⟩ := link_merges library limits p root
  obtain ⟨below, hcollects⟩ := gathered_collects library limits p root
  refine ⟨fun name => ?_, fun name => ?_, fun name => ?_, horder, level, hfaults,
    fun f _ store name => Fault.message_of_conflict?, ⟨?_, ?_⟩, ?_, ?_⟩
  · exact symbols_get?_of_merges hcollects.symbols name
  · exact symbols_get?_of_merges hsymbols name
  · have hfirst := hrules.first name
    rw [List.find?_append, Brought.find?_rules] at hfirst
    exact hfirst
  · have hlength := hsymbols.length_eq
    rw [Brought.symbols, List.length_flatMap] at hlength
    exact hlength
  · exact hsymbols.accounted
  · have hlength := hrules.length_eq
    rw [Brought.rules, List.length_flatMap] at hlength
    exact hlength
  · exact hrules.accounted

end

/-! ### Small documents -/

/-- A section that declares one variable. -/
def variableSection (name init : String) : Element :=
  (Element.leaf Resolution.sectionTag).addChild
    (((Element.leaf "var").setAttribute "name" name).setAttribute "init" init)

/-- A document in which one variable is declared. -/
def unit : Element := (Element.leaf "tenet").addChild (variableSection "s" "'x'")

def unitLibrary : Library := .ofDocuments (.ofList [("unit", unit)])

def plainImport (reference : String) : Element :=
  (Element.leaf importTag).setAttribute "src" reference

/-- A document that imports another one and declares nothing. -/
def importing (reference : String) : Element :=
  (Element.leaf "tenet").addChild (plainImport reference)

theorem findAll_importing (reference : String) :
    (importing reference).findAll importTag = [plainImport reference] := by
  rw [Element.findAll_eq_filter]
  rfl

/-- Two documents, one of which imports the other. -/
def pair : Library := .ofDocuments (.ofList [("a", importing "b"), ("b", unit)])

/-- Where a document is that nothing refers to. -/
def outermost : Position := ⟨none, none, []⟩

end Link

end Premise
