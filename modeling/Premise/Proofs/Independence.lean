import Premise.Proofs.Session
import Premise.Proofs.Table
import Premise.Proofs.Walk

/-!
Elements are evaluated independently of one another.

What an element reports and records when nothing ran before it is all that it ever adds, so that a
list of elements adds what its members do, one after the other. Taking one out takes out its own
share, and two can change places as long as no result that either records is recorded by the other
or in between.
-/

namespace Premise

namespace Element

theorem AllNamed.ofSubset {es fs : List Element} (h : AllNamed es) (hsub : ∀ e ∈ fs, e ∈ es) :
    AllNamed fs := by
  intro x hx
  obtain ⟨e, he, hxe⟩ := mem_preorderAll.mp hx
  exact h x (mem_preorderAll.mpr ⟨e, hsub e he, hxe⟩)

end Element

namespace Session

/-- What an element reports when nothing ran before it. -/
def faultsOf (p : Program) (f : Frame) (e : Element) : List Fault := (visit p f {} e).faults

/-- What an element records when nothing ran before it. -/
def writesOf (p : Program) (f : Frame) (e : Element) : List (String × Value) :=
  (visit p f {} e).writes

/-- Whatever ran before, the elements report these faults and record these results. -/
structure Adds (p : Program) (f : Frame) (es : List Element) (reported : List Fault)
    (recorded : List (String × Value)) : Prop where
  faults : ∀ s : Session, (visitAll p f s es).faults = s.faults ++ reported
  writes : ∀ s : Session, (visitAll p f s es).writes = s.writes ++ recorded
  results : ∀ s : Session, (visitAll p f s es).results = s.results.insertAll recorded

variable {p : Program} {f : Frame}

theorem results_of_writes {s t : Session} {recorded : List (String × Value)}
    (h : t.writes = s.writes ++ recorded) : t.results = s.results.insertAll recorded := by
  unfold results
  rw [h]
  exact Table.insertAll_append _ _ _

/-- A session that had other results and faults, and another trace, gains the same. -/
theorem visit_adds {e : Element} (h : Element.AllNamed [e]) (s : Session) :
    (visit p f s e).faults = s.faults ++ faultsOf p f e ∧
      (visit p f s e).writes = s.writes ++ writesOf p f e := by
  have hsame : Parallel f f s (visit p f s e) {} (visit p f {} e) :=
    visit_parallel p (.refl f) e (.inr h)
  obtain ⟨faults, writes, hs, hfresh⟩ := hsame.gains
  have hfaults : faultsOf p f e = faults := hfresh.faults
  have hwrites : writesOf p f e = writes.map f.place := hfresh.writes
  rw [hfaults, hwrites]
  exact ⟨hs.faults, hs.writes⟩

theorem visitAll_adds {es : List Element} (h : Element.AllNamed es) :
    Adds p f es (es.flatMap (faultsOf p f)) (es.flatMap (writesOf p f)) := by
  have hboth : ∀ s : Session,
      (visitAll p f s es).faults = s.faults ++ es.flatMap (faultsOf p f) ∧
        (visitAll p f s es).writes = s.writes ++ es.flatMap (writesOf p f) := by
    induction es with
    | nil =>
      intro s
      unfold visitAll
      exact ⟨(List.append_nil _).symm, (List.append_nil _).symm⟩
    | cons e es ih =>
      intro s
      have hhead := visit_adds (p := p) (f := f) h.head s
      have htail := ih h.tail (visit p f s e)
      unfold visitAll
      rw [htail.1, htail.2, hhead.1, hhead.2, List.append_assoc, List.append_assoc]
      exact ⟨rfl, rfl⟩
  exact ⟨fun s => (hboth s).1, fun s => (hboth s).2, fun s => results_of_writes (hboth s).2⟩

/-- The elements add what each of them does from a fresh session, in their order. Without one of
them its own share is missing and nothing else, and the results are the same when two have changed
places of which neither records what the other does, or what one in between does. -/
theorem visitAll_independent (p : Program) (f : Frame) {es : List Element}
    (h : Element.AllNamed es) :
    Adds p f es (es.flatMap (faultsOf p f)) (es.flatMap (writesOf p f)) ∧
    (∀ before e after, es = before ++ e :: after →
      Adds p f es
        (before.flatMap (faultsOf p f) ++ faultsOf p f e ++ after.flatMap (faultsOf p f))
        (before.flatMap (writesOf p f) ++ writesOf p f e ++ after.flatMap (writesOf p f)) ∧
      Adds p f (before ++ after)
        (before.flatMap (faultsOf p f) ++ after.flatMap (faultsOf p f))
        (before.flatMap (writesOf p f) ++ after.flatMap (writesOf p f))) ∧
    (∀ before a mid b after, es = before ++ a :: mid ++ b :: after →
      Table.Apart (writesOf p f a) (writesOf p f b) →
      (∀ m ∈ mid, Table.Apart (writesOf p f m) (writesOf p f a) ∧
        Table.Apart (writesOf p f m) (writesOf p f b)) →
      ∀ s, (visitAll p f s (before ++ b :: mid ++ a :: after)).results =
        (visitAll p f s es).results) := by
  refine ⟨visitAll_adds h, ?_, ?_⟩
  · intro before e after hes
    have hwith : Adds p f es _ _ := visitAll_adds h
    have hwithout : Adds p f (before ++ after) _ _ := visitAll_adds (h.ofSubset (by grind))
    simp only [hes, List.flatMap_append, List.flatMap_cons, ← List.append_assoc] at hwith hwithout
    rw [hes]
    exact ⟨hwith, hwithout⟩
  · intro before a mid b after hes hab hmid s
    have hswapped : Element.AllNamed (before ++ b :: mid ++ a :: after) :=
      h.ofSubset (by grind)
    have hma : Table.Apart (mid.flatMap (writesOf p f)) (writesOf p f a) :=
      Table.apart_flatMap fun m hm => (hmid m hm).1
    have hmb : Table.Apart (mid.flatMap (writesOf p f)) (writesOf p f b) :=
      Table.apart_flatMap fun m hm => (hmid m hm).2
    rw [(visitAll_adds hswapped).results, (visitAll_adds h).results, hes]
    have hswap := Table.insertAll_swap (s.results.insertAll (before.flatMap (writesOf p f)))
      hab hma.symm hmb
    simp only [Table.insertAll_append] at hswap
    simp only [List.flatMap_append, List.flatMap_cons, Table.insertAll_append, hswap]

/-- A query by its name and its expression. -/
def queryOf (name text : String) : Element :=
  ((Element.leaf "query").setAttribute "name" name).setAttribute "expr" text

/-- Of three queries the one in the middle fails. It can be taken out, and the other two can change
places around it. -/
theorem visitAll_independent_failing :
    let p : Program := ⟨∅, ∅, ∅, {}⟩
    let f : Frame := .ofDocument (.ofTable ∅) none
    let first := queryOf "x" "'a'"
    let failing := queryOf "y" "-'b'"
    let last := queryOf "z" "'c'"
    Element.AllNamed [first, failing, last] ∧
    (writesOf p f failing).length = 0 ∧ (faultsOf p f failing).length = 1 ∧
    Adds p f [first, last] (faultsOf p f first ++ faultsOf p f last)
      (writesOf p f first ++ writesOf p f last) ∧
    (visitAll p f {} [last, failing, first]).results =
      (visitAll p f {} [first, failing, last]).results := by
  intro p f first failing last
  have hnamed : Element.AllNamed [first, failing, last] := by
    show ∀ e ∈ Element.preorderAll [first, failing, last], e.isNamed = true
    decide +kernel
  obtain ⟨-, hremoved, hswapped⟩ := visitAll_independent p f hnamed
  have hrest := (hremoved [first] failing [last] rfl).2
  simp only [List.flatMap_cons, List.flatMap_nil, List.append_nil] at hrest
  have hmid : ∀ m ∈ [failing], Table.Apart (writesOf p f m) (writesOf p f first) ∧
      Table.Apart (writesOf p f m) (writesOf p f last) := by decide +kernel
  have hends := hswapped [] first [failing] last [] rfl (by decide +kernel) hmid {}
  exact ⟨hnamed, by decide +kernel, by decide +kernel, hrest, hends⟩

/-- A query in between that records a result of the first one keeps it from changing places with the
last one, though these two record nothing in common. -/
theorem swap_around_rewritten :
    let p : Program := ⟨∅, ∅, ∅, {}⟩
    let f : Frame := .ofDocument (.ofTable ∅) none
    let first := queryOf "x" "'a'"
    let between := queryOf "x" "'b'"
    let last := queryOf "y" "'c'"
    Element.AllNamed [first, between, last] ∧
    Table.Apart (writesOf p f first) (writesOf p f last) ∧
    (visitAll p f {} [last, between, first]).results ≠
      (visitAll p f {} [first, between, last]).results := by
  intro p f first between last
  have hnamed : Element.AllNamed [first, between, last] := by
    show ∀ e ∈ Element.preorderAll [first, between, last], e.isNamed = true
    decide +kernel
  refine ⟨hnamed, by decide +kernel, fun heq => ?_⟩
  have htext := congrArg (fun t : Table Value => (t.get? "x").bind Value.text?) heq
  revert htext
  decide +kernel

end Session

end Premise
