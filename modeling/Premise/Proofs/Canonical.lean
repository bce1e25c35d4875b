import Premise.Proofs.FreeNames
import Premise.Proofs.Script
import Premise.Proofs.Table
import Premise.Proofs.ValueOrder

/-!
Sets keep one form.

A value is canonical if all sets in it, however deep, have ascending elements: then a set is
determined by which values occur in it (`Value.eq_of_ascending`), and the operations on sets can be
told by occurrence alone.

Operations make canonical values from canonical values, and so evaluation does in a canonical scope
(`Expr.evaluateAt_canonical`): a script that is answered with canonical values asks for nothing in
other scopes, and comes to a canonical value. This is told of a node by its own lemma for each
construction, and of all levels by induction.
-/

namespace Premise

namespace Value

/-! ### What determines a set -/

theorem compare_irrefl (v : Value) : ¬ compare v v = .lt := by
  rw [show compare v v = .eq from Std.ReflCmp.compare_self]
  exact nofun

theorem nodup_of_ascending {items : List Value} (h : Ascending items) : items.Nodup :=
  List.Pairwise.imp (fun {v w} (hlt : compare v w = .lt) (heq : v = w) =>
    compare_irrefl w (heq ▸ hlt)) h

/-- There is one way only to have the same elements ascend. -/
theorem eq_of_ascending {xs ys : List Value} (hxs : Ascending xs) (hys : Ascending ys)
    (h : ∀ v, v ∈ xs ↔ v ∈ ys) : xs = ys := by
  have hperm : xs.Perm ys :=
    (List.perm_ext_iff_of_nodup (nodup_of_ascending hxs) (nodup_of_ascending hys)).mpr h
  refine hperm.eq_of_pairwise (fun v w _ _ hvw hwv => ?_) hxs hys
  exact absurd (compare_trans hvw hwv) (compare_irrefl v)

theorem occursIn_eq_iff {xs ys : List Value} :
    (∀ v, occursIn v xs = occursIn v ys) ↔ ∀ v, v ∈ xs ↔ v ∈ ys :=
  forall_congr' fun v => by rw [Bool.eq_iff_iff, occursIn_iff, occursIn_iff]

/-- A set that is put together from a list forgets the order in it and the repetitions. -/
theorem ofSet_eq_iff {vs ws : List Value} :
    ofSet vs = ofSet ws ↔ ∀ v, occursIn v vs = occursIn v ws := by
  rw [occursIn_eq_iff]
  constructor
  · intro h v
    have helements : sortedElements vs = sortedElements ws := Value.set.inj h
    rw [← mem_sortedElements, helements, mem_sortedElements]
  · intro h
    have helements : sortedElements vs = sortedElements ws :=
      eq_of_ascending (ascending_sortedElements vs) (ascending_sortedElements ws) fun v => by
        rw [mem_sortedElements, mem_sortedElements, h v]
    rw [ofSet, ofSet, helements]

/-- Whether a value is in what an operation makes, by whether it is in its operands. -/
def occursAfter : SetOperator → Bool → Bool → Bool
  | .union, left, right => left || right
  | .intersect, left, right => left && right
  | .diff, left, right => left && !right

theorem occursIn_combine (op : SetOperator) (xs ys : List Value) (v : Value) :
    occursIn v (combine op xs ys) = occursAfter op (occursIn v xs) (occursIn v ys) := by
  rw [Bool.eq_iff_iff, occursIn_iff]
  cases op with
  | union => rw [mem_union, occursAfter, Bool.or_eq_true, occursIn_iff, occursIn_iff]
  | intersect => rw [mem_intersect, occursAfter, Bool.and_eq_true, occursIn_iff, occursIn_iff]
  | diff =>
    rw [mem_diff, occursAfter, Bool.and_eq_true, Bool.not_eq_true', ← Bool.not_eq_true,
      occursIn_iff, occursIn_iff]

/-! ### Canonical values -/

/-- The elements of every set in the value ascend. -/
inductive Canonical : Value → Prop
  | null : Canonical .null
  | number (x : Number) : Canonical (.number x)
  | text (s : String) : Canonical (.text s)
  | boolean (b : Bool) : Canonical (.boolean b)
  | graph (g : Graph) : Canonical (.graph g)
  | error (message : String) : Canonical (.error message)
  | list {items : List Value} (elements : ∀ v ∈ items, Canonical v) : Canonical (.list items)
  | set {items : List Value} (ascending : Ascending items) (elements : ∀ v ∈ items, Canonical v) :
    Canonical (.set items)
  | object {fields : List (String × Value)} (values : ∀ f ∈ fields, Canonical f.2) :
    Canonical (.object fields)

namespace Canonical

theorem ascending {items : List Value} (h : (Value.set items).Canonical) : Ascending items := by
  cases h with
  | set ascending elements => exact ascending

theorem ofSet {vs : List Value} (h : ∀ v ∈ vs, v.Canonical) : (Value.ofSet vs).Canonical :=
  .set (ascending_sortedElements vs) fun v hv => h v (mem_sortedElements.mp hv)

theorem ofFields {fields : List (String × Value)} (h : ∀ f ∈ fields, f.2.Canonical) :
    (Value.ofFields fields).Canonical := by
  refine .object fun e he => ?_
  rcases Entries.mem_foldl_insert he with hnil | hfields
  · cases hnil
  · exact h e hfields

theorem elements? {v : Value} (h : v.Canonical) {items : List Value}
    (hitems : v.elements? = some items) : ∀ w ∈ items, w.Canonical := by
  cases h with
  | list elements =>
    cases hitems
    exact elements
  | set ascending elements =>
    cases hitems
    exact elements
  | null | number | text | boolean | graph | error | object => cases hitems

theorem materialized {v : Value} (h : v.Canonical) : v.materialized.Canonical := by
  cases h with
  | set ascending elements => exact .list elements
  | list elements => exact .list elements
  | object values => exact .object values
  | null => exact .null
  | number x => exact .number x
  | text s => exact .text s
  | boolean b => exact .boolean b
  | graph g => exact .graph g
  | error message => exact .error message

/-- None of the operations on sets takes the elements out of order. -/
theorem combine {xs ys : List Value} (hxs : (Value.set xs).Canonical)
    (hys : (Value.set ys).Canonical) (op : SetOperator) :
    (Value.set (Value.combine op xs ys)).Canonical := by
  cases hxs with
  | set ascending left =>
    cases hys with
    | set _ right =>
      refine .set (ascending_combine ascending op ys) fun v hv => ?_
      cases op with
      | union => exact (mem_union.mp hv).elim (left v) (right v)
      | intersect => exact left v (mem_intersect.mp hv).1
      | diff => exact left v (mem_diff.mp hv).1

theorem setOperation {v w : Value} (hv : v.Canonical) (hw : w.Canonical) (op : SetOperator) :
    (Value.setOperation op v w).value.Canonical := by
  unfold Value.setOperation
  split
  · exact combine hv hw op
  · exact .null

theorem membership (v w : Value) : (Value.membership v w).value.Canonical := by
  unfold Value.membership
  split
  · exact .boolean _
  · exact .boolean _
  · split <;> exact .boolean _
  · exact .boolean _

theorem errorOf (vs : List Value) : (Value.errorOf vs).Canonical := by
  unfold Value.errorOf
  split <;> exact .error _

theorem pathOf (vs : List Value) : (Value.pathOf vs).value.Canonical := by
  unfold Value.pathOf
  split
  · split
    · refine .list fun v hv => ?_
      obtain ⟨name, -, rfl⟩ := List.mem_map.mp hv
      exact .text name
    · exact .null
  · exact .null
  · exact .null

theorem arithmetic {op : Arithmetic} {v w r : Value} (h : Value.arithmetic op v w = .ok r) :
    r.Canonical := by
  unfold Value.arithmetic at h
  split at h
  · rename_i x y
    cases hnumber : arithmeticNumber op x y with
    | error error =>
      rw [hnumber] at h
      cases h
    | ok z =>
      rw [hnumber] at h
      cases h
      exact .number z
  · cases h

theorem comparison {op : Comparison} {v w r : Value} (h : Value.comparison op v w = .ok r) :
    r.Canonical := by
  have hordered : ∀ op, (Value.ordered op v w).map Value.boolean = .ok r → r.Canonical := by
    intro op h
    cases hanswer : Value.ordered op v w with
    | error error =>
      rw [hanswer] at h
      cases h
    | ok b =>
      rw [hanswer] at h
      cases h
      exact .boolean b
  cases op with
  | equal | notEqual =>
    cases h
    exact .boolean _
  | greater | less | greaterOrEqual | lessOrEqual => exact hordered _ h

theorem negate {v r : Value} (h : v.negate = .ok r) : r.Canonical := by
  cases v with
  | number x =>
    cases h
    exact .number _
  | _ => cases h

end Canonical

end Value

/-! ### Scopes, expressions and rules -/

/-- Every name stands for a canonical value. -/
def Scope.Canonical (s : Scope) : Prop := ∀ name v, s.get? name = some v → v.Canonical

namespace Scope.Canonical

theorem bind {s : Scope} (h : s.Canonical) (name : String) {v : Value} (hv : v.Canonical) :
    (s.bind name v).Canonical := by
  intro other w hw
  by_cases heq : other = name
  · rw [heq, get?_bind_self] at hw
    cases hw
    exact hv
  · rw [get?_bind_of_ne s v heq] at hw
    exact h other w hw

theorem overlay {s : Scope} (h : s.Canonical) {bs : List (String × Value)}
    (hbs : ∀ b ∈ bs, b.2.Canonical) : (s.overlay bs).Canonical := by
  induction bs generalizing s with
  | nil => exact h
  | cons b bs ih =>
    obtain ⟨hhead, htail⟩ := List.forall_mem_cons.mp hbs
    rw [overlay_cons]
    exact ih (h.bind b.1 hhead) htail

end Scope.Canonical

namespace Expr

variable {α : Type}

/-- The value that stands in a node. -/
def value? : Expr α → Option Value
  | .literal _ v => some v
  | _ => none

/-- The values that stand in the expression are canonical. -/
inductive Canonical : Expr α → Prop
  | node {e : Expr α} (own : ∀ v, e.value? = some v → v.Canonical)
    (below : ∀ x ∈ e.operands, Canonical x) : Canonical e

namespace Canonical

theorem own {e : Expr α} (h : e.Canonical) {v : Value} (hv : e.value? = some v) :
    v.Canonical := by
  cases h with
  | node own below => exact own v hv

theorem literal (m : α) {v : Value} (h : v.Canonical) : (Expr.literal m v).Canonical := by
  refine .node (fun w hw => ?_) (List.forall_mem_nil _)
  cases hw
  exact h

/-- Any other node has no value of its own. -/
theorem ofOperands {e : Expr α} (hnone : e.value? = none)
    (h : ∀ x ∈ e.operands, x.Canonical) : e.Canonical := by
  refine .node (fun v hv => ?_) h
  rw [hnone] at hv
  cases hv

theorem operand {e x : Expr α} (h : e.Canonical) (hx : x ∈ e.operands) : x.Canonical := by
  cases h with
  | node own below => exact below x hx

end Canonical

end Expr

/-- The rule sees canonical values only, wherever it is called. -/
structure Rule.Canonical (r : Rule) : Prop where
  scope : r.scope.Canonical
  body : r.body.Canonical

def Rulebook.Canonical (b : Rulebook) : Prop := ∀ r ∈ b.rules, r.Canonical

theorem Rulebook.Canonical.get? {b : Rulebook} (h : b.Canonical) {name : String} {r : Rule}
    (hget : b.get? name = some r) : r.Canonical :=
  h r (List.mem_of_find?_eq_some hget)

namespace Rule

theorem canonical_bindings {name : String} {ps : List Parameter} {vs : List Value}
    {bs : List (String × Value)} (hvs : ∀ v ∈ vs, v.Canonical)
    (h : bindings name ps vs = .ok bs) : ∀ b ∈ bs, b.2.Canonical := by
  induction ps generalizing vs bs with
  | nil =>
    cases h
    exact List.forall_mem_nil _
  | cons p ps ih =>
    obtain ⟨rest, hrest, rfl⟩ := bindings_cons_eq_ok h
    have hhead : (vs.head?.getD .null).Canonical := by
      cases vs with
      | nil => exact .null
      | cons v vs => exact hvs v List.mem_cons_self
    have htail : ∀ v ∈ vs.tail, v.Canonical := fun v hv => hvs v (List.mem_of_mem_tail hv)
    exact List.forall_mem_cons.mpr ⟨hhead, ih htail hrest⟩

theorem canonical_callScope {r : Rule} (h : r.Canonical) {arguments : List Value}
    (harguments : ∀ v ∈ arguments, v.Canonical) {s : Scope} (hs : r.callScope arguments = .ok s) :
    s.Canonical := by
  unfold callScope at hs
  split at hs
  · cases hs
  · cases hbound : bindings r.name r.parameters arguments with
    | error error =>
      rw [hbound] at hs
      cases hs
    | ok bs =>
      rw [hbound] at hs
      cases hs
      exact h.scope.overlay (canonical_bindings harguments hbound)

theorem canonical_chainScope (r : Rule) {s : Scope} (h : s.Canonical) {v : Value}
    (hv : v.Canonical) : (r.chainScope s v).Canonical := by
  unfold chainScope
  cases r.parameters with
  | nil => exact h.bind Name.item hv
  | cons p ps => exact (h.bind Name.item hv).bind p.name hv

end Rule

/-! ### Evaluation -/

/-- What the run comes to, if it does not fail, is of this kind. -/
def Run.Yields {α : Type} (kind : α → Prop) (r : Run α) : Prop :=
  ∀ a, r.outcome = .ok a → kind a

theorem Run.Yields.bind {α β : Type} {kind : α → Prop} {kind' : β → Prop} {r : Run α}
    {f : α → Run β} (h : r.Yields kind) (hf : ∀ a, kind a → (f a).Yields kind') :
    (r >>= f).Yields kind' := by
  intro b hb
  change (r.andThen f).outcome = .ok b at hb
  unfold andThen at hb
  cases hout : r.outcome with
  | error fault =>
    simp only [hout] at hb
    cases hb
  | ok a =>
    simp only [hout] at hb
    exact hf a (h a hout) b hb

/-- In canonical scopes, canonical expressions come to canonical values. -/
def Evaluator.Canonical (evaluate : Evaluator) : Prop :=
  ∀ s e, s.Canonical → e.Canonical → (evaluate s e).Yields Value.Canonical

namespace Script

variable {α β : Type}

/-- As long as the answers are canonical, the script asks for canonical expressions in canonical
scopes, and what it comes to is of this kind. -/
inductive Keeps (kind : α → Prop) : Script α → Prop
  | ok {a : α} (h : kind a) : Keeps kind (.finish (.ok a))
  | error (fault : Fault) : Keeps kind (.finish (.error fault))
  | tell (faults : List Fault) (steps : List Step) {rest : Script α} (h : Keeps kind rest) :
    Keeps kind (.tell faults steps rest)
  | evaluate {scope : Scope} {e : Expr Mark} {rest : Value → Script α} (hscope : scope.Canonical)
    (hexpr : e.Canonical) (h : ∀ v, v.Canonical → Keeps kind (rest v)) :
    Keeps kind (.evaluate scope e rest)

theorem Keeps.run {kind : α → Prop} {evaluate : Evaluator} (heval : evaluate.Canonical)
    {x : Script α} (h : x.Keeps kind) : (x.run evaluate).Yields kind := by
  induction h with
  | ok h =>
    rintro a ⟨⟩
    exact h
  | error fault => exact fun a ha => nomatch ha
  | tell faults steps h ih => exact ih
  | evaluate hscope hexpr h ih => exact (heval _ _ hscope hexpr).bind ih

section

variable {kind : α → Prop} {kind' : β → Prop}

theorem Keeps.bind {x : Script α} {f : α → Script β} (h : x.Keeps kind)
    (hf : ∀ a, kind a → (f a).Keeps kind') : (x >>= f).Keeps kind' := by
  show (x.andThen f).Keeps kind'
  induction h with
  | ok h => exact hf _ h
  | error fault => exact .error fault
  | tell faults steps h ih => exact .tell faults steps ih
  | evaluate hscope hexpr h ih => exact .evaluate hscope hexpr ih

theorem keeps_pure {a : α} (h : kind a) : (pure a : Script α).Keeps kind := .ok h

theorem keeps_fail (fault : Fault) : (ofRun (.fail fault)).Keeps kind := .tell [] [] (.error fault)

theorem keeps_ofRun {r : Run α} (h : r.Yields kind) : (ofRun r).Keeps kind := by
  refine .tell r.faults r.steps ?_
  cases hout : r.outcome with
  | ok a => exact .ok (h a hout)
  | error fault => exact .error fault

theorem keeps_ofExcept {x : Except EvalError α} (h : ∀ a, x = .ok a → kind a) :
    (ofRun (.ofExcept x)).Keeps kind := by
  cases x with
  | ok a => exact .tell [] [] (.ok (h a rfl))
  | error error => exact keeps_fail _

theorem keeps_recover {r : Recovered} (h : r.value.Canonical) (line : Option Nat) :
    (ofRun (.recover line r)).Keeps Value.Canonical := .tell _ [] (.ok h)

/-- A step that is traced is not looked at any more. -/
theorem keeps_traced (s : Step) {a : α} (h : kind a) :
    (trace s >>= fun _ => pure a : Script α).Keeps kind := .tell [] [s] (.ok h)

end

section

variable {rules : Rulebook} (hrules : rules.Canonical) {scope : Scope} (hscope : scope.Canonical)

include hscope in
theorem keeps_ask {e : Expr Mark} (h : e.Canonical) : (ask scope e).Keeps Value.Canonical :=
  .evaluate hscope h fun _ hv => .ok hv

include hscope in
theorem keeps_askAll {es : List (Expr Mark)} (h : ∀ e ∈ es, e.Canonical) :
    (askAll scope es).Keeps fun vs => ∀ v ∈ vs, v.Canonical := by
  induction es with
  | nil => exact keeps_pure (List.forall_mem_nil _)
  | cons e es ih =>
    obtain ⟨hhead, htail⟩ := List.forall_mem_cons.mp h
    refine (keeps_ask hscope hhead).bind fun v hv => ?_
    exact (ih htail).bind fun vs hvs => keeps_pure (List.forall_mem_cons.mpr ⟨hv, hvs⟩)

include hrules

theorem keeps_call (name : String) {arguments : List Value}
    (h : ∀ v ∈ arguments, v.Canonical) : (call rules name arguments).Keeps Value.Canonical := by
  unfold call
  split
  · exact keeps_fail _
  · rename_i r hget
    have hr := hrules.get? hget
    refine (keeps_ofExcept fun s hs => Rule.canonical_callScope hr h hs).bind fun s hs => ?_
    exact keeps_ask hs hr.body

include hscope

theorem keeps_evalNamed {arguments : List Value} (h : ∀ v ∈ arguments, v.Canonical) :
    (evalNamed rules scope arguments).Keeps Value.Canonical := by
  unfold evalNamed
  split
  · exact keeps_pure .null
  · split
    · rename_i r hget
      exact keeps_ask hscope (hrules.get? hget).body
    · exact keeps_pure (.text _)
  · exact keeps_pure (h _ List.mem_cons_self)

theorem keeps_apply (line : Option Nat) (name : String) {arguments : List Value}
    (h : ∀ v ∈ arguments, v.Canonical) :
    (apply rules scope line name arguments).Keeps Value.Canonical := by
  unfold apply
  split
  · exact keeps_pure (.errorOf arguments)
  · split
    · exact keeps_recover (.pathOf arguments) line
    · split
      · exact keeps_evalNamed hrules hscope h
      · exact keeps_call hrules name h

omit hrules in
theorem keeps_connect (op : Connective) (left : Value) {right : Expr Mark} (h : right.Canonical) :
    (connect op left scope right).Keeps Value.Canonical := by
  have hright : ∀ f : Value → Bool,
      (ask scope right >>= fun v => pure (.boolean (f v))).Keeps Value.Canonical :=
    fun f => (keeps_ask hscope h).bind fun v _ => keeps_pure (.boolean _)
  unfold connect
  cases op with
  | and =>
    simp only
    split
    · exact hright _
    · exact keeps_pure (.boolean _)
  | or =>
    simp only
    split
    · exact keeps_pure (.boolean _)
    · exact hright _
  | implies =>
    simp only
    split
    · exact keeps_ask hscope h
    · exact keeps_pure (.boolean _)
  | iff => exact hright _

/-- What a node makes of canonical values is canonical. -/
theorem keeps_node {e : Expr Mark} (h : e.Canonical) :
    (node rules scope e).Keeps Value.Canonical := by
  have hoperand : ∀ x ∈ e.operands, (ask scope x).Keeps Value.Canonical :=
    fun x hx => keeps_ask hscope (h.operand hx)
  cases e with
  | literal m v => exact keeps_pure (h.own rfl)
  | reference m name =>
    refine keeps_traced _ ?_
    cases hget : scope.get? name with
    | none => exact .text name
    | some v => exact hscope name v hget
  | arithmetic m op left right =>
    refine (hoperand left (by simp [Expr.operands])).bind fun l _ => ?_
    refine (hoperand right (by simp [Expr.operands])).bind fun r _ => ?_
    exact (keeps_ofExcept fun v hv => .arithmetic hv).bind fun v hv => keeps_traced _ hv
  | comparison m op left right =>
    refine (hoperand left (by simp [Expr.operands])).bind fun l _ => ?_
    refine (hoperand right (by simp [Expr.operands])).bind fun r _ => ?_
    exact (keeps_ofExcept fun v hv => .comparison hv).bind fun v hv => keeps_traced _ hv
  | logical m op left right =>
    refine (hoperand left (by simp [Expr.operands])).bind fun l _ => ?_
    have hright : right.Canonical := h.operand (by simp [Expr.operands])
    exact (keeps_connect hscope op l hright).bind fun v hv => keeps_traced _ hv
  | sets m op left right =>
    refine (hoperand left (by simp [Expr.operands])).bind fun l hl => ?_
    refine (hoperand right (by simp [Expr.operands])).bind fun r hr => ?_
    exact (keeps_recover (hl.setOperation hr op) _).bind fun v hv => keeps_traced _ hv
  | membership m left right =>
    refine (hoperand left (by simp [Expr.operands])).bind fun l _ => ?_
    refine (hoperand right (by simp [Expr.operands])).bind fun r _ => ?_
    exact (keeps_recover (.membership l r) _).bind fun v hv => keeps_traced _ hv
  | negation m operand =>
    refine (hoperand operand (by simp [Expr.operands])).bind fun v _ => ?_
    exact (keeps_ofExcept fun v hv => .negate hv).bind fun v hv => keeps_traced _ hv
  | complement m operand =>
    refine (hoperand operand (by simp [Expr.operands])).bind fun v _ => ?_
    exact keeps_traced _ (.boolean _)
  | call m name arguments =>
    refine (keeps_askAll hscope fun x hx => h.operand hx).bind fun vs hvs => ?_
    exact (keeps_apply hrules hscope m.line name hvs).bind fun v hv => keeps_traced _ hv

end

end Script

namespace Expr

theorem evaluateAt_canonical {rules : Rulebook} (hrules : rules.Canonical) (limit levels : Nat) :
    Evaluator.Canonical (evaluateAt rules limit levels) := by
  induction levels with
  | zero => exact fun s e _ _ v hv => nomatch hv
  | succ levels ih =>
    intro s e hs he
    have hnode : (evaluateNode rules (evaluateAt rules limit levels) s e).Yields
        Value.Canonical := by
      rw [← Script.run_node]
      exact (Script.keeps_node hrules hs he).run ih
    intro v hv
    refine hnode v ?_
    change (Run.orLine e.mark.line _).outcome = .ok v at hv
    unfold Run.orLine at hv
    cases hout : (evaluateNode rules (evaluateAt rules limit levels) s e).outcome with
    | error fault =>
      rw [hout] at hv
      cases hv
    | ok w =>
      rw [hout] at hv
      exact hv

end Expr

end Premise
