import Mathlib.Logic.Relation
import Premise.Proofs.Visits

/-!
The recursion over imports, whatever documents a library comes up with.

Every call appends the identity of the document that it links to the chain, and only if it is not
on the chain yet. So a chain holds no identity twice, and it cannot become longer than the limit
allows, by which the recursion ends. Both hold of any sequence of answers, and documents that import
one another, or that are new every time, make no difference.

An import that closes a cycle is the only one that is refused for it. A document that was linked
before is linked again, as long as it is not on the chain.
-/

namespace Premise

namespace Link

variable {limits : Limits}

/-- One document is linked on the way of linking another one. The library may be any at each of
these steps, so that it need not answer twice in the same way. -/
def Calls (limits : Limits) (caller callee : Position × Element) : Prop :=
  ∃ library, ∃ e ∈ caller.2.findAll importTag, ∃ a,
    acceptAt library limits caller.1 e = .ok a ∧ callee = (a.position, a.root)

theorem calls_wellFounded (limits : Limits) : WellFounded (flip (Calls limits)) := by
  refine Subrelation.wf (fun {callee caller} h => ?_)
    (measure fun c : Position × Element => limits.imports + 1 - c.1.chain.length).wf
  obtain ⟨library, e, -, a, haccept, rfl⟩ := h
  have hlength := length_chain_of_accept haccept
  have hshort := of_decide_eq_true (accept_ok haccept).1
  show limits.imports + 1 - a.position.chain.length < limits.imports + 1 - caller.1.chain.length
  omega

theorem chain_of_calls {start c : Position × Element}
    (h : Relation.ReflTransGen (Calls limits) start c) (hnodup : start.1.chain.Nodup)
    (hshort : start.1.chain.length ≤ limits.imports + 1) :
    c.1.chain.Nodup ∧ c.1.chain.length ≤ limits.imports + 1 := by
  induction h with
  | refl => exact ⟨hnodup, hshort⟩
  | tail _ hcall ih =>
    obtain ⟨library, e, -, a, haccept, rfl⟩ := hcall
    obtain ⟨hallowed, reference, loaded, -, -, hfresh, rfl⟩ := accept_ok haccept
    have hbound := of_decide_eq_true hallowed
    refine ⟨?_, ?_⟩
    · refine List.nodup_append.mpr ⟨ih.1, List.nodup_singleton _, fun id hid other hother heq => ?_⟩
      rw [List.mem_singleton.mp hother] at heq
      exact hfresh (heq ▸ hid)
    · show (_ ++ [loaded.id]).length ≤ _
      rw [List.length_append, List.length_singleton]
      omega

/-- The imports that linking comes by stand in documents that it calls itself for. -/
theorem calls_of_mem_visits {library : Library} {level : Nat} {p : Position} {root : Element}
    {v : Visit} (h : v ∈ visits library limits level p root) :
    ∃ doc, Relation.ReflTransGen (Calls limits) (p, root) (v.position, doc) ∧
      v.element ∈ doc.findAll importTag := by
  induction p, root using @link_induction library limits generalizing level with
  | step p root ih =>
    rcases mem_visits.mp h with ⟨he, hposition, -⟩ | ⟨e, he, a, haccept, hv⟩
    · exact ⟨root, by rw [hposition], he⟩
    · obtain ⟨doc, hcalls, hmem⟩ := ih _ (mem_brought_of_ok he haccept) hv
      exact ⟨doc, .head ⟨library, e, he, a, haccept, rfl⟩ hcalls, hmem⟩

/-- The library has a document for an import that stands within the limit. -/
structure Loads (library : Library) (limits : Limits) (p : Position) (root e : Element)
    (loaded : Loaded) : Prop where
  element : e ∈ root.findAll importTag
  shallow : p.chain.length ≤ limits.imports
  document : ∃ reference, reference? e = some reference ∧ library.load reference p.id = .ok loaded

/-- Linking ends, whatever the library answers, and an import is refused for a cycle just where its
document is on the chain; elsewhere it is linked, also if it was linked before. -/
theorem imports_terminate (limits : Limits) :
    WellFounded (flip (Calls limits)) ∧
    (∀ library p root,
      link library limits p root = finish limits.expression p.space
        ((root.findAll importTag).foldl
          (addImport (acceptAt library limits p) (link library limits)) {}) root ∧
      Fault.refusals (link library limits p root).faults =
        (visits library limits 1 p root).filterMap (Visit.refusal? library limits) ∧
      ∀ v ∈ visits library limits 1 p root, ∃ doc, v.element ∈ doc.findAll importTag ∧
        Relation.ReflTransGen (Calls limits) (p, root) (v.position, doc)) ∧
    ∀ p root q doc, p.chain.length ≤ 1 →
      Relation.ReflTransGen (Calls limits) (p, root) (q, doc) →
      q.chain.Nodup ∧ q.chain.length ≤ limits.imports + 1 ∧
      ∀ library e loaded, Loads library limits q doc e loaded →
        let chain : List String := q.chain ++ [loaded.id]
        (acceptAt library limits q e = .error (.cycle chain) ↔ loaded.id ∈ q.chain) ∧
        (fault e.line (.cycle chain)).message =
          "Import cycle detected: " ++ Text.joined " -> " chain ∧
        (loaded.id ∉ q.chain → ∃ c ∈ brought library limits q doc,
          c.element = e ∧ c.accepted.root = loaded.root ∧ c.accepted.position.chain = chain ∧
          c.linked = link library limits c.accepted.position loaded.root) := by
  refine ⟨calls_wellFounded limits, fun library p root =>
    ⟨link_eq library limits p root, refusals_link library limits p root 1, fun v hv => ?_⟩,
    fun p root q doc hstart hcalls => ?_⟩
  · obtain ⟨doc, hcalls, hmem⟩ := calls_of_mem_visits hv
    exact ⟨doc, hmem, hcalls⟩
  have hnodup : p.chain.Nodup := by
    cases hchain : p.chain with
    | nil => exact List.nodup_nil
    | cons id rest =>
      rw [hchain, List.length_cons] at hstart
      rw [List.length_eq_zero_iff.mp (by omega : rest.length = 0)]
      exact List.nodup_singleton id
  obtain ⟨hdistinct, hbound⟩ := chain_of_calls hcalls hnodup (by show p.chain.length ≤ _; omega)
  refine ⟨hdistinct, hbound, fun library e loaded hloads => ?_⟩
  obtain ⟨he, hshort, reference, hreference, hload⟩ := hloads
  have haccept := acceptAt_loaded hreference hshort hload
  refine ⟨⟨fun hcycle => ?_, fun hmem => ?_⟩, rfl, fun hfresh => ?_⟩
  · by_contra hfresh
    rw [haccept, if_neg (by simpa using hfresh)] at hcycle
    cases hcycle
  · rw [haccept, if_pos (by simpa using hmem)]
  · rw [if_neg (by simpa using hfresh)] at haccept
    exact ⟨_, mem_brought_of_ok he haccept, rfl, rfl, rfl, rfl⟩

/-- Two documents that import each other. -/
def ring : Library := .ofDocuments (.ofList [("a", importing "b"), ("b", importing "a")])

/-- Where both are imported, each of them imports the other one, so that both are linked twice and
the chain is closed twice. -/
theorem imports_terminate_ring :
    let root : Element := (Element.leaf "tenet").addChildren [plainImport "a", plainImport "b"]
    let p : Position := ⟨some "main", none, ["main"]⟩
    let q : Position := ⟨some "a", none, ["main", "a"]⟩
    let r : Position := ⟨some "b", none, ["main", "a", "b"]⟩
    p.chain.length ≤ 1 ∧ "b" ∉ q.chain ∧
    Relation.ReflTransGen (Calls {}) (p, root) (q, importing "b") ∧
    Relation.ReflTransGen (Calls {}) (p, root) (r, importing "a") ∧
    Loads ring {} q (importing "b") (plainImport "b") ⟨"b", importing "a"⟩ ∧
    Loads ring {} r (importing "a") (plainImport "a") ⟨"a", importing "b"⟩ ∧
    (∃ c ∈ brought ring {} q (importing "b"), c.accepted.position.chain = r.chain) ∧
    acceptAt ring {} r (plainImport "a") = .error (.cycle ["main", "a", "b", "a"]) ∧
    (link ring {} p root).faults.map Fault.message =
      ["Import cycle detected: main -> a -> b -> a",
        "Import cycle detected: main -> b -> a -> b"] := by
  intro root p q r
  have hroot : plainImport "a" ∈ root.findAll importTag := by
    rw [Element.findAll_eq_filter]
    exact List.mem_cons_self
  have hmem : ∀ reference, plainImport reference ∈ (importing reference).findAll importTag := by
    intro reference
    rw [findAll_importing]
    exact List.mem_cons_self
  have hfirst : Relation.ReflTransGen (Calls {}) (p, root) (q, importing "b") :=
    .single ⟨ring, _, hroot, ⟨importing "b", q⟩, rfl, rfl⟩
  have hsecond : Relation.ReflTransGen (Calls {}) (p, root) (r, importing "a") :=
    hfirst.tail ⟨ring, _, hmem "b", ⟨importing "a", r⟩, rfl, rfl⟩
  have hopen : Loads ring {} q (importing "b") (plainImport "b") ⟨"b", importing "a"⟩ :=
    ⟨hmem "b", by decide, "b", rfl, rfl⟩
  have hclosed : Loads ring {} r (importing "a") (plainImport "a") ⟨"a", importing "b"⟩ :=
    ⟨hmem "a", by decide, "a", rfl, rfl⟩
  obtain ⟨-, -, hcycles⟩ := imports_terminate {}
  obtain ⟨-, -, hbelow⟩ := hcycles p root q _ (by decide) hfirst
  obtain ⟨-, -, hlast⟩ := hcycles p root r _ (by decide) hsecond
  obtain ⟨-, -, hlinked⟩ := hbelow ring _ _ hopen
  obtain ⟨hcycle, -, -⟩ := hlast ring _ _ hclosed
  obtain ⟨c, hc, -, -, hchain, -⟩ := hlinked (by decide)
  exact ⟨by decide, by decide, hfirst, hsecond, hopen, hclosed, ⟨c, hc, hchain⟩,
    hcycle.mpr (by decide), by decide +kernel⟩

end Link

end Premise
