import Mathlib.Data.List.Basic
import Mathlib.Data.List.Sort
import Mathlib.Tactic.Choose
import Premise.Proofs.Alias
import Premise.Proofs.Constraints
import Premise.Proofs.Program

/-!
Which documents are evaluated with a document, and in which order.

An address says how imports lead from a document to another one: by which of its imports, by which
of the imports of the document that this one brings, and so on. A document is imported in full where
every import on the way is let in and asks for the whole document (`ReachedInFull`); the document
itself is reached by the empty address. The full imports of a linked document are the documents at
these addresses, one for each, and a document comes behind all that it imports itself (`Before`), so
that the root is the last one to be evaluated.

What is evaluated of each of them are its elements and the rules that the names of its constraints
stand for. These are its constraints, but for names that were reported to be taken.
-/

namespace Premise

namespace Name

/-- The namespace that names lead to, each inside the one before. -/
def nested (space : Option String) (names : List String) : Option String :=
  names.foldl (fun space name => some (qualify space name)) space

theorem nested_some {space : String} (h : space ≠ "") (names : List String) :
    nested (some space) names = some (Text.joined "." (space :: names)) := by
  induction names generalizing space with
  | nil => rfl
  | cons name names ih =>
    show nested (some (qualify (some space) name)) names = _
    have hne : space ++ "." ++ name ≠ "" := by simp
    rw [qualify_some h, ih hne]
    cases names <;> simp only [Text.joined, String.append_assoc]

/-- Below the root the names stand one after the other. -/
theorem nested_none {names : List String} (h : ∀ name ∈ names, name ≠ "") :
    nested none names = if names = [] then none else some (Text.joined "." names) := by
  cases names with
  | nil => rfl
  | cons name names => exact nested_some (h name List.mem_cons_self) names

end Name

/-- Checks rules as the constraints of a document and then evaluates its elements. -/
def Session.evaluateChecking (p : Program) (scope : Scope) (space : Option String)
    (constraints : List Rule) (s : Session) (root : Element) : Session :=
  visitAll p (.ofDocument scope space)
    (constraints.foldl (fun s r => s.absorb r.line (Construct.constraint p r)) s) root.children

namespace Link

/-! ### Documents and their addresses -/

/-- A document that imports lead to: by which of the imports of each document on the way, by which
elements, and to which place. -/
structure Reached where
  address : List Nat
  elements : List Element
  position : Position
  root : Element

namespace Reached

def self (p : Position) (root : Element) : Reached := ⟨[], [], p, root⟩

/-- The document as it is reached from an importing one. -/
def behind (i : Nat) (e : Element) (d : Reached) : Reached :=
  ⟨i :: d.address, e :: d.elements, d.position, d.root⟩

end Reached

/-- The document is imported in full, by the one at the position or by one that this one imports in
full. -/
inductive ReachedInFull (library : Library) (limits : Limits) :
    Position → Element → Reached → Prop
  | self (p : Position) (root : Element) : ReachedInFull library limits p root (.self p root)
  | through {p : Position} {root e : Element} {i : Nat} {a : Accepted} {d : Reached}
      (element : (root.findAll importTag)[i]? = some e)
      (accepted : acceptAt library limits p e = .ok a)
      (full : e.attribute? "scope" = some "full")
      (rest : ReachedInFull library limits a.position a.root d) :
      ReachedInFull library limits p root (d.behind i e)

/-- Documents come behind those that they import, and these in the order of the imports. -/
inductive Before : List Nat → List Nat → Prop
  | importer (i : Nat) (is : List Nat) : Before (i :: is) []
  | earlier {i j : Nat} (less : i < j) (is js : List Nat) : Before (i :: is) (j :: js)
  | within (i : Nat) {is js : List Nat} (before : Before is js) : Before (i :: is) (i :: js)

/-- All documents that are imported in full, each address once and in this order. -/
structure Listed (library : Library) (limits : Limits) (p : Position) (root : Element)
    (ds : List Reached) : Prop where
  complete : ∀ d, d ∈ ds ↔ ReachedInFull library limits p root d
  ordered : ds.Pairwise fun c d => Before c.address d.address

/-- The constraints that the document declares. -/
def Reached.constraints (library : Library) (limits : Limits) (d : Reached) : List Rule :=
  (ownRules library limits d.position d.root).constraints

/-- What a linked document keeps of a document that it imports in full. -/
def Reached.fullImport (library : Library) (limits : Limits) (d : Reached) : FullImport :=
  ⟨d.root, d.position.space, (d.constraints library limits).map Rule.name⟩

section

variable {library : Library} {limits : Limits} {p : Position} {root e : Element}

/-- The documents that one import brings in full. -/
structure Brings (library : Library) (limits : Limits) (p : Position) (e : Element) (i : Nat)
    (ds : List Reached) : Prop where
  complete : ∀ d, d ∈ ds ↔ ∃ a below, acceptAt library limits p e = .ok a ∧
    e.attribute? "scope" = some "full" ∧
    ReachedInFull library limits a.position a.root below ∧ d = below.behind i e
  ordered : ds.Pairwise fun c d => Before c.address d.address
  fullImports : (brought? library limits p e).toList.flatMap Brought.fullImports =
    ds.map (Reached.fullImport library limits)

theorem brings_of_error {error : ImportError} (h : acceptAt library limits p e = .error error)
    (i : Nat) : Brings library limits p e i [] where
  complete := by
    intro d
    refine iff_of_false List.not_mem_nil ?_
    rintro ⟨a, -, haccept, -⟩
    rw [h] at haccept
    cases haccept
  ordered := .nil
  fullImports := by
    rw [brought?_of_error h]
    rfl

theorem brings_of_not_full (h : e.attribute? "scope" ≠ some "full") (i : Nat) :
    Brings library limits p e i [] where
  complete := fun d => iff_of_false List.not_mem_nil fun ⟨_, _, _, hfull, _⟩ => h hfull
  ordered := .nil
  fullImports := by
    cases haccept : acceptAt library limits p e with
    | error error =>
      rw [brought?_of_error haccept]
      rfl
    | ok a =>
      rw [brought?_of_ok haccept, Option.toList_some, List.flatMap_singleton]
      exact if_neg h

theorem brings_of_full {a : Accepted} (haccept : acceptAt library limits p e = .ok a)
    (hfull : e.attribute? "scope" = some "full") (front : List Reached)
    (h : Listed library limits a.position a.root (front ++ [.self a.position a.root]))
    (hlinked : (link library limits a.position a.root).fullImports =
      front.map (Reached.fullImport library limits)) (i : Nat) :
    Brings library limits p e i
      ((front ++ [Reached.self a.position a.root]).map (Reached.behind i e)) where
  complete := by
    intro d
    rw [List.mem_map]
    constructor
    · rintro ⟨below, hbelow, rfl⟩
      exact ⟨a, below, haccept, hfull, (h.complete below).mp hbelow, rfl⟩
    · rintro ⟨a', below, haccept', -, hbelow, rfl⟩
      cases haccept.symm.trans haccept'
      exact ⟨below, (h.complete below).mpr hbelow, rfl⟩
  ordered := List.pairwise_map.mpr (h.ordered.imp fun hbefore => hbefore.within i)
  fullImports := by
    rw [brought?_of_ok haccept, Option.toList_some, List.flatMap_singleton, Brought.fullImports,
      if_pos hfull, hlinked, link_constraints, List.map_map, List.map_append]
    rfl

/-- What the imports of a document bring in full, one after the other, and then the document. -/
theorem listed_of_brings {f : Element × Nat → List Reached}
    (h : ∀ x ∈ (root.findAll importTag).zipIdx, Brings library limits p x.1 x.2 (f x)) :
    Listed library limits p root
        ((root.findAll importTag).zipIdx.flatMap f ++ [.self p root]) ∧
      (link library limits p root).fullImports =
        ((root.findAll importTag).zipIdx.flatMap f).map (Reached.fullImport library limits) := by
  have hbehind : ∀ x ∈ (root.findAll importTag).zipIdx, ∀ d ∈ f x, ∃ below : Reached,
      d = below.behind x.2 x.1 := by
    intro x hx d hd
    obtain ⟨_, below, -, -, -, heq⟩ := ((h x hx).complete d).mp hd
    exact ⟨below, heq⟩
  refine ⟨⟨fun d => ?_, ?_⟩, ?_⟩
  · rw [List.mem_append, List.mem_flatMap, List.mem_singleton]
    constructor
    · rintro (⟨x, hx, hd⟩ | rfl)
      · obtain ⟨a, below, haccept, hfull, hbelow, rfl⟩ := ((h x hx).complete d).mp hd
        exact .through (List.mem_zipIdx_iff_getElem?.mp hx) haccept hfull hbelow
      · exact .self p root
    · intro hd
      cases hd with
      | self => exact .inr rfl
      | @through _ _ e i a below helement haccept hfull hbelow =>
        have hx : (e, i) ∈ (root.findAll importTag).zipIdx :=
          List.mem_zipIdx_iff_getElem?.mpr helement
        exact .inl ⟨(e, i), hx, ((h _ hx).complete _).mpr ⟨a, below, haccept, hfull, hbelow, rfl⟩⟩
  · refine List.pairwise_append.mpr ⟨?_, List.pairwise_singleton .., fun d hd c hc => ?_⟩
    · rw [List.pairwise_flatMap]
      refine ⟨fun x hx => (h x hx).ordered, ?_⟩
      have hascending : (root.findAll importTag).zipIdx.Pairwise fun x y => x.2 < y.2 := by
        rw [← List.pairwise_map, List.zipIdx_map_snd]
        exact List.pairwise_lt_range'
      refine hascending.imp_of_mem fun {x y} hx hy hless c hc d hd => ?_
      obtain ⟨above, rfl⟩ := hbehind x hx c hc
      obtain ⟨below, rfl⟩ := hbehind y hy d hd
      exact .earlier hless _ _
    · obtain ⟨x, hx, hd⟩ := List.mem_flatMap.mp hd
      obtain ⟨below, rfl⟩ := hbehind x hx d hd
      rw [List.mem_singleton.mp hc]
      exact .importer _ _
  · rw [fullImports_link, brought, List.filterMap_eq_flatMap_toList, List.flatMap_assoc,
      List.map_flatMap]
    conv_lhs => rw [← List.zipIdx_map_fst 0 (root.findAll importTag), List.flatMap_map]
    exact List.flatMap_congr fun x hx => (h x hx).fullImports

/-- A document that imports nothing is alone. -/
theorem listed_alone (h : root.findAll importTag = []) :
    Listed library limits p root [.self p root] ∧
      (link library limits p root).fullImports = [] := by
  have hnone : ∀ x ∈ (root.findAll importTag).zipIdx, Brings library limits p x.1 x.2 [] := by
    rw [h]
    exact List.forall_mem_nil _
  have hall := listed_of_brings hnone
  rw [h] at hall
  exact hall

theorem brings_alone {a : Accepted} (haccept : acceptAt library limits p e = .ok a)
    (hfull : e.attribute? "scope" = some "full") (h : a.root.findAll importTag = []) (i : Nat) :
    Brings library limits p e i [(Reached.self a.position a.root).behind i e] :=
  brings_of_full haccept hfull [] (listed_alone h).1 (listed_alone h).2 i

theorem exists_listed (library : Library) (limits : Limits) (p : Position) (root : Element) :
    ∃ front, Listed library limits p root (front ++ [.self p root]) ∧
      (link library limits p root).fullImports = front.map (Reached.fullImport library limits) := by
  induction p, root using @link_induction library limits with
  | step p root ih =>
    have hbrings : ∀ x ∈ (root.findAll importTag).zipIdx, ∃ ds,
        Brings library limits p x.1 x.2 ds := by
      intro x hx
      cases haccept : acceptAt library limits p x.1 with
      | error error => exact ⟨[], brings_of_error haccept x.2⟩
      | ok a =>
        by_cases hfull : x.1.attribute? "scope" = some "full"
        · have hmem := mem_brought_of_ok (List.fst_mem_of_mem_zipIdx hx) haccept
          obtain ⟨front, hlisted, hlinked⟩ := ih _ hmem
          exact ⟨_, brings_of_full haccept hfull front hlisted hlinked x.2⟩
        · exact ⟨[], brings_of_not_full hfull x.2⟩
    choose! f hf using hbrings
    exact ⟨_, listed_of_brings hf⟩

/-! ### One list -/

theorem Before.asymm {is js : List Nat} (h : Before is js) : ¬ Before js is := by
  induction h with
  | importer i is =>
    intro h
    cases h
  | earlier hless is js =>
    intro h
    cases h with
    | earlier hmore => exact absurd hmore (Nat.lt_asymm hless)
    | within => exact absurd hless (Nat.lt_irrefl _)
  | within i hbefore ih =>
    intro h
    cases h with
    | earlier hless => exact absurd hless (Nat.lt_irrefl _)
    | within _ hafter => exact ih hafter

theorem Listed.unique {ds ds' : List Reached} (h : Listed library limits p root ds)
    (h' : Listed library limits p root ds') : ds = ds' := by
  have : Std.Asymm fun c d : Reached => Before c.address d.address := ⟨fun _ _ => Before.asymm⟩
  exact h.ordered.eq_of_mem_iff h'.ordered fun d => (h.complete d).trans (h'.complete d).symm

/-! ### Namespaces and rules -/

theorem space_of_reachedInFull {d : Reached} (h : ReachedInFull library limits p root d) :
    d.position.space = Name.nested p.space (d.elements.filterMap Element.alias?) := by
  induction h with
  | self => rfl
  | @through p root e i a d helement haccept hfull hrest ih =>
    show d.position.space = Name.nested p.space ((e :: d.elements).filterMap Element.alias?)
    rw [ih, space_of_accept haccept]
    cases halias : e.alias? with
    | none => rw [spaceOf_no_alias halias, List.filterMap_cons_none halias]
    | some name =>
      rw [spaceOf_alias halias, List.filterMap_cons_some halias]
      rfl

/-- Every constraint of a document that is imported in full has its name, or the name is reported to
be taken. -/
theorem denotes_of_reachedInFull {d : Reached} (h : ReachedInFull library limits p root d) :
    ∀ r ∈ d.constraints library limits, ∃ found,
      (link library limits p root).rules.get? r.name = some found ∧
      (found = r ∨ r.name ∈ Fault.conflicts .rules (link library limits p root).faults) := by
  induction h with
  | self p root => exact fun r hr => ⟨r, get?_own (List.mem_filter.mp hr).1, .inl rfl⟩
  | through helement haccept hfull hrest ih =>
    intro r hr
    obtain ⟨inner, hget, hsame⟩ := ih r hr
    exact denotes_of_brought (mem_brought_of_ok (List.mem_of_getElem? helement) haccept) hget hsame

/-- The rules that the names of the document's constraints stand for where it is linked. -/
def Reached.checked (library : Library) (limits : Limits) (linked : Linked) (d : Reached) :
    List Rule :=
  ((d.constraints library limits).map Rule.name).filterMap linked.rules.get?

end

end Link

theorem Rulebook.forall₂_filterMap_get? {b : Rulebook} {rs : List Rule} {P : Rule → Rule → Prop}
    (h : ∀ r ∈ rs, ∃ found, b.get? r.name = some found ∧ P r found) :
    rs.Forall₂ P ((rs.map Rule.name).filterMap b.get?) := by
  induction rs with
  | nil => exact .nil
  | cons r rs ih =>
    obtain ⟨found, hget, hfound⟩ := h r List.mem_cons_self
    rw [List.map_cons, List.filterMap_cons_some hget]
    exact .cons hfound (ih fun s hs => h s (List.mem_cons_of_mem r hs))

namespace Engine

open Link

/-- What evaluating documents one after the other comes to, each with rules of its own to check. -/
def runAll (engine : Engine) (linked : Linked) (rules : Reached → List Rule) (ds : List Reached) :
    Session :=
  ds.foldl (fun s d => Session.evaluateChecking (engine.program linked) linked.symbols.scope
    d.position.space (rules d) s d.root) { faults := linked.faults }

theorem run_eq_runAll {engine : Engine} {root : Element} {source : Option String}
    {front : List Reached}
    (h : (engine.linkChecked root source).fullImports =
      front.map (Reached.fullImport engine.library engine.limits)) :
    engine.run (engine.linkChecked root source) root =
      engine.runAll (engine.linkChecked root source)
        (Reached.checked engine.library engine.limits (engine.linkChecked root source))
        (front ++ [.self (engine.start source) root]) := by
  have hown : (engine.linkChecked root source).constraints =
      (Reached.constraints engine.library engine.limits (.self (engine.start source) root)).map
        Rule.name := link_constraints ..
  rw [run_eq, h, hown, List.foldl_map, runAll, List.foldl_append]
  rfl

/-- A document is evaluated together with exactly those that it imports in full, each behind all
that it imports itself, in the namespace that the aliases on the way lead to. Their constraints are
checked, but for names that are reported to be taken: of these what took the name is checked. -/
theorem evaluate_in_full (engine : Engine) (root : Element) (source : Option String) :
    let p : Position := engine.start source
    let linked : Linked := engine.linkChecked root source
    let checked : Reached → List Rule := Reached.checked engine.library engine.limits linked
    ∃ front : List Reached,
      let ds : List Reached := front ++ [.self p root]
      Listed engine.library engine.limits p root ds ∧
      (∀ others, Listed engine.library engine.limits p root others → others = ds) ∧
      linked.fullImports = front.map (Reached.fullImport engine.library engine.limits) ∧
      (∀ d ∈ ds, let aliases : List String := d.elements.filterMap Element.alias?
        d.position.space = if aliases = [] then none else some (Text.joined "." aliases)) ∧
      (∀ d ∈ ds, (d.constraints engine.library engine.limits).Forall₂
        (fun r found => found = r ∨ r.name ∈ Fault.conflicts .rules linked.faults) (checked d)) ∧
      checked (.self p root) = (Reached.self p root).constraints engine.library engine.limits ∧
      (engine.check (some root) = .ok root →
        let s : Session := engine.runAll linked checked ds
        engine.evaluate (some root) source = ⟨s.results, s.faults, s.trace.lines⟩) := by
  intro p linked checked
  obtain ⟨front, hlisted, hlinked⟩ := exists_listed engine.library engine.limits p root
  refine ⟨front, hlisted, fun others h => h.unique hlisted, hlinked, fun d hd => ?_,
    fun d hd => ?_, ?_, fun hcheck => ?_⟩
  · have hspace := space_of_reachedInFull ((hlisted.complete d).mp hd)
    refine hspace.trans (Name.nested_none fun name hname => ?_)
    obtain ⟨e, -, halias⟩ := List.mem_filterMap.mp hname
    exact alias_ne_empty halias
  · exact Rulebook.forall₂_filterMap_get?
      (denotes_of_reachedInFull ((hlisted.complete d).mp hd))
  · exact Rulebook.filterMap_get? fun r hr => get?_own (List.mem_filter.mp hr).1
  · rw [evaluate, hcheck, ← run_eq_runAll hlinked]

/-! ### Documents that are evaluated with others -/

/-- An import that asks for the whole document, under an alias or not. -/
def fullImport (reference : String) (alias? : Option String) : Element :=
  let e := (plainImport reference).setAttribute "scope" "full"
  match alias? with
  | some name => e.setAttribute "as" name
  | none => e

/-- A document with one constraint, which never holds. -/
def exceeded : Element :=
  (Element.leaf "tenet").addChild (ruleSection "constraint" "limit" "error('over')")

def nestedLibrary : Library :=
  .ofDocuments (.ofList
    [("a", (Element.leaf "tenet").addChild (fullImport "c" (some "c"))), ("c", exceeded)])

/-- A document that imports in full one that does so itself, and the other one for its declarations
only. -/
def nesting : Element :=
  (Element.leaf "tenet").addChildren [fullImport "a" (some "a"), plainImport "c"]

theorem evaluate_in_full_nesting :
    let engine : Engine := { library := nestedLibrary }
    let linked : Linked := engine.linkChecked nesting none
    let checked : Reached → List Rule := Reached.checked engine.library engine.limits linked
    engine.check (some nesting) = .ok nesting ∧
    linked.fullImports.map FullImport.space = [some "a.c", some "a"] ∧
    (engine.evaluate (some nesting) none).faults.map Fault.message = ["over"] ∧
    ∃ ds, Listed engine.library engine.limits (engine.start none) nesting ds ∧
      let s : Session := engine.runAll linked checked ds
      engine.evaluate (some nesting) none = ⟨s.results, s.faults, s.trace.lines⟩ := by
  intro engine linked checked
  have hcheck : engine.check (some nesting) = .ok nesting := check_of_le (by decide)
  obtain ⟨front, hlisted, -, -, -, -, -, hevaluate⟩ := evaluate_in_full engine nesting none
  exact ⟨hcheck, by decide +kernel, by decide +kernel, _, hlisted, hevaluate hcheck⟩

def clashLibrary : Library := .ofDocuments (.ofList [("a", exceeded), ("b", checked)])

/-- A document that imports in full two documents with constraints of one name. -/
def clashing : Element :=
  (Element.leaf "tenet").addChildren [fullImport "a" none, fullImport "b" none]

/-- The constraint that took the name is checked twice, the second time in place of the one that
always holds. -/
theorem constraint_checked_twice :
    let engine : Engine := { library := clashLibrary }
    let conflict : String := "Rule conflict: 'limit' is already defined"
    ∃ ds, Listed engine.library engine.limits (engine.start none) clashing ds ∧
      (engine.evaluate (some clashing) none).faults.map Fault.message =
        [conflict, "over", "over"] ∧
      (engine.runAll (engine.linkChecked clashing none)
        (Reached.constraints engine.library engine.limits) ds).faults.map Fault.message =
          [conflict, "over"] := by
  intro engine conflict
  let a : Accepted := ⟨exceeded, some "a", none, ["a"]⟩
  let b : Accepted := ⟨checked, some "b", none, ["b"]⟩
  have himports : (clashing.findAll importTag).zipIdx =
      [(fullImport "a" none, 0), (fullImport "b" none, 1)] := by
    rw [Element.findAll_eq_filter]
    rfl
  have ha : exceeded.findAll importTag = [] := by
    rw [Element.findAll_eq_filter]
    rfl
  have hb : checked.findAll importTag = [] := by
    rw [Element.findAll_eq_filter]
    rfl
  have hbrings : ∀ x ∈ (clashing.findAll importTag).zipIdx,
      Brings engine.library engine.limits (engine.start none) x.1 x.2
        (if x.2 = 0 then [(Reached.self a.position a.root).behind x.2 x.1]
        else [(Reached.self b.position b.root).behind x.2 x.1]) := by
    rw [himports]
    intro x hx
    rcases List.mem_pair.mp hx with rfl | rfl
    · exact brings_alone (by rfl) (by rfl) ha 0
    · exact brings_alone (by rfl) (by rfl) hb 1
  refine ⟨_, (listed_of_brings hbrings).1, by decide +kernel, ?_⟩
  rw [himports]
  decide +kernel

end Engine

end Premise
