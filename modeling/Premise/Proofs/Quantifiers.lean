import Premise.Proofs.Complement
import Premise.Proofs.Parentheses

/-!
Quantifiers over collections.

A quantifier evaluates its condition once for each element, in order, with the element bound, and
counts the values that are truthy. It comes to an end early only where one of the runs fails
(`countMatches_of_values`, `countMatches_of_failure`). With the condition between `!(` and `)` each
run ends the other way, so that the two counts make up the collection (`countMatches_complement`);
this needs the text not to be refused for its nesting, and one more level for each run, hence the
condition that no limit is reached. The bindings are laid over the scope of the frame for the runs
alone: what is evaluated later has the frame as it was.
-/

namespace Premise

/-- Whether a limit was reached, on the nesting of a text or on the levels of an evaluation. -/
def Cause.isLimit : Cause → Bool
  | .expression error => error.isNesting
  | .evaluation (.tooDeep _) => true
  | _ => false

namespace Element

/-- The element is a quantifier over what the target stands for, with this text for its condition.
-/
structure Quantifies (e : Element) (universal : Bool) (target text : String) : Prop where
  role : Role.ofTag e.tag = .quantifier universal
  target : e.trimmed? "target" = some target
  condition : e.attributeOrContent? ["condition"] = some text

/-- What a quantifier yields: whether it holds, and with the flag also for how many elements. -/
def verdict (e : Element) (holds : Bool) (matched : Nat) : Value :=
  if e.flag "count" then
    .ofFields [("result", .boolean holds), ("count", .number (Number.ofNat matched))]
  else .boolean holds

end Element

namespace Run

variable {α β : Type} {r : Run α}

theorem bind_of_ok {a : α} (h : r.outcome = .ok a) (f : α → Run β) :
    r >>= f = (f a).after r.faults r.steps := by
  show r.andThen f = _
  unfold andThen
  rw [h]

theorem bind_of_error {fault : Fault} (h : r.outcome = .error fault) (f : α → Run β) :
    r >>= f = ⟨.error fault, r.faults, r.steps⟩ := by
  show r.andThen f = _
  unfold andThen
  rw [h]

end Run

namespace Construct

variable {p : Program} {f : Frame} {condition : Expr Mark}

/-- The run of a condition for one element of a collection. -/
def answer (p : Program) (f : Frame) (condition : Expr Mark) (item : Value) : Run Value :=
  p.evaluate (f.scope.bind Name.item item) condition

theorem countMatches_cons (item : Value) (items : List Value) :
    countMatches p f condition (item :: items) =
      answer p f condition item >>= fun v => countMatches p f condition items >>= fun n =>
        .value (if v.isTruthy then n + 1 else n) := rfl

/-- Where every run has a value, those that are truthy are counted, and all faults are reported. -/
theorem countMatches_of_values {value : Value → Value} {items : List Value}
    (h : ∀ item ∈ items, (answer p f condition item).outcome = .ok (value item)) :
    (countMatches p f condition items).outcome =
        .ok (items.countP fun item => (value item).isTruthy) ∧
      (countMatches p f condition items).faults =
        items.flatMap fun item => (answer p f condition item).faults := by
  induction items with
  | nil => exact ⟨rfl, rfl⟩
  | cons item items ih =>
    obtain ⟨hitem, hitems⟩ := List.forall_mem_cons.mp h
    obtain ⟨hcount, hfaults⟩ := ih hitems
    rw [countMatches_cons, Run.bind_of_ok hitem, Run.bind_of_ok hcount, List.countP_cons]
    refine ⟨?_, ?_⟩
    · show Except.ok _ = _
      split_ifs <;> rfl
    · show _ ++ (_ ++ []) = _
      rw [List.append_nil, hfaults]
      rfl

/-- The first run that fails is the last. -/
theorem countMatches_of_failure {before after : List Value} {item : Value} {fault : Fault}
    (hbefore : ∀ x ∈ before, ∃ v, (answer p f condition x).outcome = .ok v)
    (hfault : (answer p f condition item).outcome = .error fault) :
    (countMatches p f condition (before ++ item :: after)).outcome = .error fault ∧
      (countMatches p f condition (before ++ item :: after)).faults =
        (before ++ [item]).flatMap fun x => (answer p f condition x).faults := by
  induction before with
  | nil =>
    rw [List.nil_append, countMatches_cons, Run.bind_of_error hfault]
    exact ⟨rfl, (List.append_nil _).symm⟩
  | cons x before ih =>
    obtain ⟨⟨v, hv⟩, hrest⟩ := List.forall_mem_cons.mp hbefore
    obtain ⟨houtcome, hfaults⟩ := ih hrest
    rw [List.cons_append, countMatches_cons, Run.bind_of_ok hv, Run.bind_of_error houtcome]
    exact ⟨rfl, congrArg (_ ++ ·) hfaults⟩

/-- The second condition is the opposite of the first, as long as its run does not want for a
level. -/
def Opposes (p : Program) (f : Frame) (condition opposite : Expr Mark) : Prop :=
  ∀ item, (answer p f opposite item).WithinDepth p.limits.evaluation →
    (answer p f opposite item).EndsAlike
      (answer p f condition item >>= fun v => .value (.boolean (!v.isTruthy)))

/-- Unless a level is missing, an element counts either for a condition or for its opposite, and
both fail at the same element. -/
theorem Opposes.countMatches {opposite : Expr Mark} (h : Opposes p f condition opposite)
    {items : List Value}
    (hwithin : (countMatches p f opposite items).WithinDepth p.limits.evaluation) :
    (∃ m m', m + m' = items.length ∧ (countMatches p f condition items).outcome = .ok m ∧
      (countMatches p f opposite items).outcome = .ok m') ∨
    ∃ fault fault', fault.unplaced = fault'.unplaced ∧
      (countMatches p f condition items).outcome = .error fault ∧
      (countMatches p f opposite items).outcome = .error fault' := by
  induction items with
  | nil => exact .inl ⟨0, 0, rfl, rfl, rfl⟩
  | cons item items ih =>
    rw [countMatches_cons] at hwithin
    rw [countMatches_cons, countMatches_cons]
    have hitem := h item hwithin.of_bind
    cases hv : (answer p f condition item).outcome with
    | error fault =>
      rw [Run.bind_of_error hv] at hitem ⊢
      rcases hitem.cases with ⟨a, -, ha⟩ | ⟨fault', _, hfault', ⟨⟩, hsame⟩
      · cases ha
      · rw [Run.bind_of_error hfault']
        exact .inr ⟨fault, fault', hsame.symm, rfl, rfl⟩
    | ok v =>
      rw [Run.bind_of_ok hv] at hitem ⊢
      rcases hitem.cases with ⟨_, hv', ⟨⟩⟩ | ⟨_, _, -, hfault, -⟩
      · rw [Run.bind_of_ok hv']
        rcases ih (hwithin.of_ok hv').of_bind with
          ⟨m, m', hsum, hm, hm'⟩ | ⟨fault, fault', hsame, hfault, hfault'⟩
        · rw [Run.bind_of_ok hm, Run.bind_of_ok hm']
          refine .inl ⟨if v.isTruthy then m + 1 else m, if !v.isTruthy then m' + 1 else m', ?_,
            rfl, rfl⟩
          rw [List.length_cons]
          cases v.isTruthy <;> simp <;> omega
        · rw [Run.bind_of_error hfault, Run.bind_of_error hfault']
          exact .inr ⟨fault, fault', hsame, rfl, rfl⟩
      · cases hfault

theorem opposes_complement (line line' : Option Nat) (built : Expr Unit) :
    Opposes p f (built.numbered line) (Expr.numbered line' (.complement () built)) :=
  fun item hwithin =>
    Expr.evaluate_complement (f.scope.bind Name.item item) line line' built hwithin

section

variable {e : Element} {universal : Bool} {target text : String} {items : List Value}

/-- The count says whether a quantifier holds. -/
def holds (universal : Bool) (items : List Value) (matched : Nat) : Bool :=
  if universal then matched == items.length else 0 < matched

theorem holds_countP (universal : Bool) (items : List Value) (truth : Value → Bool) :
    holds universal items (items.countP truth) =
      if universal then items.all truth else items.any truth := by
  rw [Bool.eq_iff_iff]
  cases universal with
  | true => simp [holds, List.countP_eq_length]
  | false => simp [holds, List.countP_pos_iff]

/-- A quantifier fails with its count, and what it yields hangs on the count alone. -/
theorem quantifier_of_quantifies (h : e.Quantifies universal target text)
    (hbound : f.Binds target items)
    (hparse : Expr.parse { scope := f.space } p.limits.expression e.line text = .ok condition) :
    quantifier p f universal e = countMatches p f condition items >>= fun matched =>
      Run.trace (.quantifier e.tag target matched items.length) >>= fun _ =>
        .value (e.verdict (holds universal items matched) matched) := by
  unfold quantifier
  rw [h.target, h.condition]
  simp only [hbound.collection, Frame.parse, hparse]
  rfl

theorem quantifier_of_count (h : e.Quantifies universal target text)
    (hbound : f.Binds target items)
    (hparse : Expr.parse { scope := f.space } p.limits.expression e.line text = .ok condition)
    {matched : Nat} (hcount : (countMatches p f condition items).outcome = .ok matched) :
    (quantifier p f universal e).outcome =
        .ok (e.verdict (holds universal items matched) matched) ∧
      (quantifier p f universal e).faults = (countMatches p f condition items).faults := by
  rw [quantifier_of_quantifies h hbound hparse, Run.bind_of_ok hcount]
  exact ⟨rfl, List.append_nil _⟩

theorem quantifier_of_failure (h : e.Quantifies universal target text)
    (hbound : f.Binds target items)
    (hparse : Expr.parse { scope := f.space } p.limits.expression e.line text = .ok condition)
    {fault : Fault} (hfault : (countMatches p f condition items).outcome = .error fault) :
    (quantifier p f universal e).outcome = .error fault ∧
      (quantifier p f universal e).faults = (countMatches p f condition items).faults := by
  rw [quantifier_of_quantifies h hbound hparse, Run.bind_of_error hfault]
  exact ⟨rfl, rfl⟩

end

/-- Where no limit is reached, a condition holds for all elements if its opposite holds for none,
and the two counts make up the collection. -/
theorem quantifier_dual {e e' : Element} {target text : String} {items : List Value}
    (h : e.Quantifies true target text) (h' : e'.Quantifies false target ("!(" ++ text ++ ")"))
    (hbound : f.Binds target items)
    (hparse : Expr.parse { scope := f.space } p.limits.expression e.line text = .ok condition)
    (hlimit : ∀ fault, (quantifier p f false e').outcome = .error fault →
      fault.cause.isLimit = false) :
    (∃ truth m m', m + m' = items.length ∧
      (quantifier p f true e).outcome = .ok (e.verdict truth m) ∧
      (quantifier p f false e').outcome = .ok (e'.verdict (!truth) m')) ∨
    ∃ fault fault', fault.unplaced = fault'.unplaced ∧
      (quantifier p f true e).outcome = .error fault ∧
      (quantifier p f false e').outcome = .error fault' := by
  obtain ⟨built, rfl, hcomplement⟩ := Expr.parse_complement hparse
  rcases hcomplement e'.line with ⟨error, herror, hnesting⟩ | hparse'
  · have hrefused : (quantifier p f false e').outcome =
        .error ((Fault.of (.expression error)).atLine e'.line) := by
      unfold quantifier
      rw [h'.target, h'.condition]
      simp only [hbound.collection, Frame.parse, herror]
      rfl
    have hfree : error.isNesting = false := hlimit _ hrefused
    rw [hnesting] at hfree
    cases hfree
  · have hwithin : (quantifier p f false e').WithinDepth p.limits.evaluation := by
      intro fault hfault heq
      have hfree := hlimit fault (Run.fault?_eq_some.mp hfault)
      rw [heq] at hfree
      cases hfree
    rw [quantifier_of_quantifies h' hbound hparse'] at hwithin
    rcases (opposes_complement e.line e'.line built).countMatches hwithin.of_bind with
      ⟨m, m', hsum, hm, hm'⟩ | ⟨fault, fault', hsame, hfault, hfault'⟩
    · have hvalue := (quantifier_of_count h hbound hparse hm).1
      have hvalue' := (quantifier_of_count h' hbound hparse' hm').1
      have hopposite : holds false items m' = !holds true items m := by
        rw [Bool.eq_iff_iff]
        simp [holds]
        omega
      rw [hopposite] at hvalue'
      exact .inl ⟨_, m, m', hsum, hvalue, hvalue'⟩
    · exact .inr ⟨fault, fault', hsame, (quantifier_of_failure h hbound hparse hfault).1,
        (quantifier_of_failure h' hbound hparse' hfault').1⟩

end Construct

namespace Session

open Construct

/-- What is added for a quantifier. -/
theorem Gains.quantifier {e : Element} {universal : Bool} (p : Program) (f : Frame) (s : Session)
    (h : Role.ofTag e.tag = .quantifier universal) :
    Gains f s (visit p f s e) ((Construct.quantifier p f universal e).reported e.line)
      ((Construct.quantifier p f universal e).recorded (s.nameOf e).1) := by
  rw [visit_quantifier p f s h]
  exact (Gains.nameOf f s e).trans (.conclude f _ _ e.line _)

/-- A quantifier goes through its collection. If no run of its condition fails, it records whether
all or some of the values are truthy, and their number, and the faults of the runs are reported in
order; the first run that fails is the last otherwise, and no value is recorded. Under no limit,
`forall` with a condition is the opposite of `exists` with the condition between `!(` and `)`. And
what is evaluated after a quantifier comes to the same as without it. -/
theorem quantifiers_iterate {p : Program} {f : Frame} {target : String} {items : List Value}
    (hbound : f.Binds target items) :
    (∀ (universal : Bool) (text : String) (e : Element) (condition : Expr Mark) (s : Session),
      e.Quantifies universal target text →
      Expr.parse { scope := f.space } p.limits.expression e.line text = .ok condition →
      (∀ value : Value → Value,
        (∀ item ∈ items, (answer p f condition item).outcome = .ok (value item)) →
        Gains f s (visit p f s e) (items.flatMap fun item => (answer p f condition item).faults)
          [((s.nameOf e).1, e.verdict
            (if universal then items.all fun item => (value item).isTruthy
              else items.any fun item => (value item).isTruthy)
            (items.countP fun item => (value item).isTruthy))]) ∧
      (∀ before item after fault, items = before ++ item :: after →
        (∀ x ∈ before, ∃ v, (answer p f condition x).outcome = .ok v) →
        (answer p f condition item).outcome = .error fault →
        Gains f s (visit p f s e)
          (((before ++ [item]).flatMap fun x => (answer p f condition x).faults) ++
            [fault.atLine e.line]) [])) ∧
    (∀ (text : String) (e e' : Element) (condition : Expr Mark),
      e.Quantifies true target text → e'.Quantifies false target ("!(" ++ text ++ ")") →
      Expr.parse { scope := f.space } p.limits.expression e.line text = .ok condition →
      (∀ fault, (Construct.quantifier p f false e').outcome = .error fault →
        fault.cause.isLimit = false) →
      (∃ truth m m', m + m' = items.length ∧
        (Construct.quantifier p f true e).outcome = .ok (e.verdict truth m) ∧
        (Construct.quantifier p f false e').outcome = .ok (e'.verdict (!truth) m')) ∨
      ∃ fault fault', fault.unplaced = fault'.unplaced ∧
        (Construct.quantifier p f true e).outcome = .error fault ∧
        (Construct.quantifier p f false e').outcome = .error fault') ∧
    (∀ (universal : Bool) (text : String) (e : Element) (after : List Element) (s : Session),
      e.Quantifies universal target text →
      SameValues f f s (visitAll p f s after)
        (visit p f s e) (visitAll p f (visit p f s e) after)) := by
  refine ⟨fun universal text e condition s h hparse => ⟨fun value hvalue => ?_,
    fun before item after fault hitems hbefore hfault => ?_⟩,
    fun text e e' condition h h' hparse hlimit => quantifier_dual h h' hbound hparse hlimit,
    fun universal text e after s _ => visitAll_sameValues p (.refl f) after s _⟩
  · have hgains := Gains.quantifier p f s h.role
    obtain ⟨hcount, hfaults⟩ := countMatches_of_values hvalue
    obtain ⟨houtcome, hreported⟩ := quantifier_of_count h hbound hparse hcount
    rw [hfaults] at hreported
    rw [holds_countP] at houtcome
    unfold Run.reported Run.recorded at hgains
    rw [houtcome, hreported] at hgains
    exact hgains
  · have hgains := Gains.quantifier p f s h.role
    subst hitems
    obtain ⟨hcount, hfaults⟩ := countMatches_of_failure hbefore hfault
    obtain ⟨houtcome, hreported⟩ := quantifier_of_failure h hbound hparse hcount
    rw [hfaults] at hreported
    unfold Run.reported Run.recorded at hgains
    rw [houtcome, hreported] at hgains
    exact hgains

/-- A quantifier as it is written in a document. -/
def quantifierOf (tag target condition : String) (line : Nat) : Element :=
  { (((Element.leaf tag).setAttribute "target" target).setAttribute
      "condition" condition).setAttribute "count" "yes" with line := some line }

/-- Of three numbers two are above a bound, and one is not. -/
theorem quantifiers_iterate_numbers :
    let p : Program := ⟨∅, ∅, ∅, {}⟩
    let items : List Value := [.number 1, .number 3, .number 5]
    let f : Frame := .ofDocument (.ofTable (.ofList [("values", .set items)])) none
    let all := quantifierOf "forall" " values " "item > 2" 4
    let some := quantifierOf "exists" " values " "!(item > 2)" 9
    let later := [(Element.leaf "query").setAttribute "expr" "item"]
    Gains f {} (visit p f {} all) [] [("forall1", all.verdict false 2)] ∧
    (∃ truth m m', m + m' = 3 ∧
      (Construct.quantifier p f true all).outcome = .ok (all.verdict truth m) ∧
      (Construct.quantifier p f false some).outcome = .ok (some.verdict (!truth) m')) ∧
    SameValues f f {} (visitAll p f {} later) (visit p f {} all) (visitAll p f (visit p f {} all)
      later) := by
  intro p items f all some later
  have hbound : f.Binds "values" items := .inr rfl
  have hall : all.Quantifies true "values" "item > 2" :=
    ⟨by decide, by decide, by decide⟩
  have hsome : some.Quantifies false "values" "!(item > 2)" :=
    ⟨by decide, by decide, by decide⟩
  obtain ⟨hvalues, hdual, hafter⟩ := @quantifiers_iterate p f "values" items hbound
  let condition : Expr Mark :=
    .comparison ⟨2, Option.some 4⟩ .greater (.reference ⟨0, Option.some 4⟩ "item")
      (.literal ⟨1, Option.some 4⟩ (.number 2))
  have hparse : Expr.parse { scope := f.space } p.limits.expression all.line "item > 2" =
    .ok condition := rfl
  let value : Value → Value := fun item => .boolean (item.number?.any fun x => 2 < x)
  have hanswers : ∀ item ∈ items, (answer p f condition item).outcome = .ok (value item) := by
    intro item hitem
    simp only [items, List.mem_cons, List.not_mem_nil, or_false] at hitem
    rcases hitem with rfl | rfl | rfl <;> rfl
  have hgains := (hvalues true "item > 2" all condition {} hall hparse).1 value hanswers
  have hname : (Session.nameOf {} all).1 = "forall1" := by decide
  have htruth : (items.all fun item => (value item).isTruthy) = false := by decide
  have hcount : (items.countP fun item => (value item).isTruthy) = 2 := by decide
  have hfaults : (items.flatMap fun item => (answer p f condition item).faults) = [] := rfl
  rw [hname, htruth, hcount, hfaults] at hgains
  have hopposite : (Construct.quantifier p f false some).outcome =
    .ok (some.verdict true 1) := rfl
  have hlimit : ∀ fault, (Construct.quantifier p f false some).outcome = .error fault →
      fault.cause.isLimit = false := by
    intro fault hfault
    rw [hopposite] at hfault
    cases hfault
  refine ⟨hgains, ?_, hafter true "item > 2" all later {} hall⟩
  rcases hdual "item > 2" all some condition hall hsome hparse hlimit with h | ⟨_, _, -, -, h⟩
  · exact h
  · rw [hopposite] at h
    cases h

end Session

end Premise
