import Premise.Proofs.Linking

/-!
The imports that linking a document comes by, those inside imported documents included.

An import stands on a level: those of the document itself are on the first one, and those of an
imported document one level below the import. `visits` lists them in the order in which linking
looks at them, each with the position of the document that holds it. What is refused among them is
all that a linked document reports besides conflicts and its declarations (`refusals_link`).

The level is nowhere kept while linking. It shows in the chain only, which becomes longer by one
identity on every level.
-/

namespace Premise

namespace ImportError

/-- Whether an import is not let in; a conflict comes up after it was. -/
def isRefusal : ImportError → Bool
  | .noReference | .tooDeep .. | .failed .. | .cycle _ => true
  | .conflict .. => false

def isTooDeep : ImportError → Bool
  | .tooDeep .. => true
  | .noReference | .failed .. | .cycle _ | .conflict .. => false

theorem isRefusal_of_isTooDeep {error : ImportError} (h : error.isTooDeep = true) :
    error.isRefusal = true := by
  cases error with
  | tooDeep reference limit => rfl
  | noReference | failed reference failure | cycle chain | conflict store name => cases h

end ImportError

namespace Fault

/-- Whether the fault is an error of that sort about an import. -/
def isImport (sort : ImportError → Bool) (f : Fault) : Bool :=
  match f.cause with
  | .link error => sort error
  | _ => false

/-- The imports that were not let in, as they were reported. -/
def refusals (faults : List Fault) : List Fault := faults.filter (isImport ImportError.isRefusal)

theorem refusals_append (fs gs : List Fault) : refusals (fs ++ gs) = refusals fs ++ refusals gs :=
  List.filter_append ..

theorem refusals_eq_nil {faults : List Fault}
    (h : ∀ f ∈ faults, f.isImport ImportError.isRefusal = false) : refusals faults = [] := by
  refine List.filter_eq_nil_iff.mpr fun f hf => ?_
  rw [h f hf]
  exact Bool.false_ne_true

theorem filter_refusals {sort : ImportError → Bool}
    (h : ∀ error, sort error = true → error.isRefusal = true) (faults : List Fault) :
    (refusals faults).filter (isImport sort) = faults.filter (isImport sort) := by
  unfold refusals
  rw [List.filter_filter]
  refine List.filter_congr fun f _ => ?_
  unfold isImport
  cases f.cause with
  | link error =>
    show (sort error && error.isRefusal) = sort error
    cases hsort : sort error with
    | false => rfl
    | true => exact h error hsort
  | expression _ | document _ | symbol _ | override _ | rule _ | construct _ | evaluation _
  | stated _ _ => rfl

end Fault

theorem refusals_resolve (space : Option String) (external : SymbolTable) (root : Element) :
    Fault.refusals (resolve space external root).faults = [] := by
  refine Fault.refusals_eq_nil fun f hf => ?_
  have hnone : ∀ f ∈ ({} : Resolution).faults, ∃ error, f.cause = .symbol error := by
    intro f hf
    cases hf
  obtain ⟨error, herror⟩ := Resolution.cause_of_mem_faults hnone f hf
  rw [Fault.isImport, herror]

theorem refusals_compile (space : Option String) (symbols : SymbolTable) (limit : Nat)
    (root : Element) : Fault.refusals (compile space symbols limit root).faults = [] := by
  refine Fault.refusals_eq_nil fun f hf => ?_
  have hnone : ∀ f ∈ ({} : Compilation).faults, ∃ error, f.cause = .rule error := by
    intro f hf
    cases hf
  obtain ⟨error, herror⟩ := Compilation.cause_of_mem_faults hnone f hf
  rw [Fault.isImport, herror]

namespace Link

theorem refusals_mergeSymbols (line : Symbol → Option Nat) (t : SymbolTable)
    (es : List (String × Symbol)) : Fault.refusals (mergeSymbols line t es).2 = [] := by
  refine Fault.refusals_eq_nil fun f hf => ?_
  obtain ⟨name, hname⟩ := cause_of_mem_mergeSymbols f hf
  rw [Fault.isImport, hname]
  rfl

theorem refusals_mergeRules (line : Rule → Option Nat) (b : Rulebook) (rs : List Rule) :
    Fault.refusals (mergeRules line b rs).2 = [] := by
  refine Fault.refusals_eq_nil fun f hf => ?_
  obtain ⟨name, hname⟩ := cause_of_mem_mergeRules f hf
  rw [Fault.isImport, hname]
  rfl

/-! ### What is looked at -/

/-- An import, the level it stands on and the position of the document that holds it. -/
structure Visit where
  level : Nat
  position : Position
  element : Element

/-- The imports that linking a document comes by, where its own are on the given level. -/
def visits (library : Library) (limits : Limits) (level : Nat) (p : Position) (root : Element) :
    List Visit :=
  (root.findAll importTag).flatMap fun e =>
    ⟨level, p, e⟩ ::
      match _h : acceptAt library limits p e with
      | .error _ => []
      | .ok a => visits library limits (level + 1) a.position a.root
termination_by limits.imports + 1 - p.chain.length
decreasing_by
  have hlength := length_chain_of_accept _h
  have hshort := of_decide_eq_true (accept_ok _h).1
  omega

variable {library : Library} {limits : Limits} {p : Position} {root : Element}

/-- Those that it comes by in the document of one import, where that import is let in. -/
def visitsWithin (library : Library) (limits : Limits) (level : Nat) (p : Position) (e : Element) :
    List Visit :=
  match acceptAt library limits p e with
  | .error _ => []
  | .ok a => visits library limits (level + 1) a.position a.root

theorem visitsWithin_of_error {level : Nat} {e : Element} {error : ImportError}
    (h : acceptAt library limits p e = .error error) :
    visitsWithin library limits level p e = [] := by
  unfold visitsWithin
  rw [h]

theorem visitsWithin_of_ok {level : Nat} {e : Element} {a : Accepted}
    (h : acceptAt library limits p e = .ok a) :
    visitsWithin library limits level p e =
      visits library limits (level + 1) a.position a.root := by
  unfold visitsWithin
  rw [h]

theorem visits_eq (level : Nat) : visits library limits level p root =
    (root.findAll importTag).flatMap fun e =>
      ⟨level, p, e⟩ :: visitsWithin library limits level p e := by
  rw [visits]
  congr 1
  funext e
  split
  next haccept => rw [visitsWithin_of_error haccept]
  next haccept => rw [visitsWithin_of_ok haccept]

/-- An import is one of the document itself, or of one that it imports. -/
theorem mem_visits {level : Nat} {v : Visit} : v ∈ visits library limits level p root ↔
    (v.element ∈ root.findAll importTag ∧ v.position = p ∧ v.level = level) ∨
      ∃ e ∈ root.findAll importTag, ∃ a, acceptAt library limits p e = .ok a ∧
        v ∈ visits library limits (level + 1) a.position a.root := by
  rw [visits_eq, List.mem_flatMap]
  constructor
  · rintro ⟨e, he, hv⟩
    rcases List.mem_cons.mp hv with rfl | hv
    · exact .inl ⟨he, rfl, rfl⟩
    · cases haccept : acceptAt library limits p e with
      | error error =>
        rw [visitsWithin_of_error haccept] at hv
        cases hv
      | ok a =>
        rw [visitsWithin_of_ok haccept] at hv
        exact .inr ⟨e, he, a, haccept, hv⟩
  · rintro (⟨he, rfl, rfl⟩ | ⟨e, he, a, haccept, hv⟩)
    · exact ⟨v.element, he, List.mem_cons_self⟩
    · refine ⟨e, he, List.mem_cons_of_mem _ ?_⟩
      rw [visitsWithin_of_ok haccept]
      exact hv

namespace Visit

/-- What is reported of an import that is not let in. -/
def refusal? (library : Library) (limits : Limits) (v : Visit) : Option Fault :=
  match acceptAt library limits v.position v.element with
  | .error error => some (fault v.element.line error)
  | .ok _ => none

variable {v : Visit}

theorem refusal?_of_error {error : ImportError}
    (h : acceptAt library limits v.position v.element = .error error) :
    v.refusal? library limits = some (fault v.element.line error) := by
  unfold refusal?
  rw [h]

theorem refusal?_of_ok {a : Accepted} (h : acceptAt library limits v.position v.element = .ok a) :
    v.refusal? library limits = none := by
  unfold refusal?
  rw [h]

end Visit

theorem isRefusal_of_acceptAt {e : Element} {error : ImportError}
    (h : acceptAt library limits p e = .error error) : error.isRefusal = true := by
  rcases accept_error h with ⟨-, rfl⟩ | ⟨_, -, ⟨-, rfl⟩ | ⟨-, ⟨_, -, rfl⟩ | ⟨_, -, -, rfl⟩⟩⟩
  all_goals rfl

theorem refusals_take (g : Gathered) (e : Element) (a : Accepted) (child : Linked) :
    Fault.refusals (take g e a child).faults =
      Fault.refusals g.faults ++ Fault.refusals child.faults := by
  show Fault.refusals (g.faults ++ child.faults ++ _ ++ _) = _
  rw [Fault.refusals_append, Fault.refusals_append, Fault.refusals_append, refusals_mergeSymbols,
    refusals_mergeRules, List.append_nil, List.append_nil]

/-- One import after the other: each leaves its own fault, or those of the document it brings. -/
theorem refusals_foldl (level : Nat) (es : List Element) (g : Gathered)
    (hbelow : ∀ e ∈ es, ∀ a, acceptAt library limits p e = .ok a →
      Fault.refusals (link library limits a.position a.root).faults =
        (visits library limits (level + 1) a.position a.root).filterMap
          (Visit.refusal? library limits)) :
    Fault.refusals
        (es.foldl (addImport (acceptAt library limits p) (link library limits)) g).faults =
      Fault.refusals g.faults ++
        (es.flatMap fun e => ⟨level, p, e⟩ :: visitsWithin library limits level p e).filterMap
          (Visit.refusal? library limits) := by
  induction es generalizing g with
  | nil => exact (List.append_nil _).symm
  | cons e es ih =>
    have hrest := fun g => ih g fun x hx => hbelow x (List.mem_cons_of_mem e hx)
    rw [List.foldl_cons, List.flatMap_cons, List.filterMap_append, ← List.append_assoc, hrest]
    congr 1
    unfold addImport
    cases haccept : acceptAt library limits p e with
    | error error =>
      have hvisit : Visit.refusal? library limits ⟨level, p, e⟩ = some (fault e.line error) :=
        Visit.refusal?_of_error haccept
      have hone : Fault.refusals [fault e.line error] = [fault e.line error] :=
        List.filter_cons_of_pos (isRefusal_of_acceptAt haccept)
      rw [visitsWithin_of_error haccept, List.filterMap_cons_some hvisit, List.filterMap_nil,
        ← hone]
      exact Fault.refusals_append _ _
    | ok a =>
      have hvisit : Visit.refusal? library limits ⟨level, p, e⟩ = none :=
        Visit.refusal?_of_ok haccept
      rw [visitsWithin_of_ok haccept, List.filterMap_cons_none hvisit,
        ← hbelow e List.mem_cons_self a haccept]
      exact refusals_take g e a _

/-- A linked document reports what was refused among the imports that linking came by, in the order
in which it did, and no other refusal. -/
theorem refusals_link (library : Library) (limits : Limits) (p : Position) (root : Element)
    (level : Nat) : Fault.refusals (link library limits p root).faults =
      (visits library limits level p root).filterMap (Visit.refusal? library limits) := by
  induction p, root using @link_induction library limits generalizing level with
  | step p root ih =>
    obtain ⟨-, -, hfaults, -, -⟩ := link_parts library limits p root
    rw [hfaults, Fault.refusals_append, Fault.refusals_append, Fault.refusals_append,
      Fault.refusals_append, refusals_resolve, refusals_mergeSymbols, refusals_compile,
      refusals_mergeRules, List.append_nil, List.append_nil, List.append_nil, List.append_nil,
      visits_eq]
    exact refusals_foldl level _ {} fun e he a ha => ih _ (mem_brought_of_ok he ha) (level + 1)

theorem chain_of_mem_visits {level : Nat} {v : Visit} (h : v ∈ visits library limits level p root) :
    v.position.chain.length + level = p.chain.length + v.level := by
  induction p, root using @link_induction library limits generalizing level with
  | step p root ih =>
    rcases mem_visits.mp h with ⟨-, hposition, hlevel⟩ | ⟨e, he, a, haccept, hv⟩
    · rw [hposition, hlevel]
    · have hbelow : v.position.chain.length + (level + 1) = a.position.chain.length + v.level :=
        ih _ (mem_brought_of_ok he haccept) hv
      have hlength := length_chain_of_accept haccept
      omega

end Link

end Premise
