import Premise.Proofs.Declarations

/-!
Declarations behind others.

Declarations of symbols come to the same whether the symbols of another document stand beside them
or its declarations in front of them, as long as they have no name in common. Declarations of rules
come to the same behind others whose names are not theirs and none of which was generated. What the
names in the bodies stand for only shows in the scope that the rules keep.
-/

namespace Premise

namespace Resolution

variable {scope : Option String} {external : SymbolTable}

/-- Both have the same symbols at hand, one of them beside the external ones and one behind them. -/
def AtHand (external : SymbolTable) (r r' : Resolution) : Prop :=
  ∀ name, r'.table.get? name = (r.table.get? name).or (external.get? name)

/-- What two resolutions go on to is the same, from wherever they are. -/
structure GoesOn (external : SymbolTable) (r s r' s' : Resolution) : Prop where
  table : AtHand external s s'
  faults : ∃ new, s.faults = r.faults ++ new ∧ s'.faults = r'.faults ++ new

theorem add_behind {r r' : Resolution} (h : AtHand external r r') {d : Element}
    (hfree : ∀ short, d.name? = some short → external.get? (Name.qualify scope short) = none) :
    GoesOn external r (add scope external r d) r' (add scope ∅ r' d) := by
  have hsame : Symbol.declare ⟨scope, r.table, external⟩ d =
      Symbol.declare ⟨scope, r'.table, ∅⟩ d := by
    refine Symbol.declare_congr rfl (funext fun name => ?_) fun short hshort => ?_
    · show (r.table.get? name).or (external.get? name) = (r'.table.get? name).or none
      rw [h name, Option.or_none]
    · show (r.table.get? _).isSome = (r'.table.get? _).isSome
      rw [h, hfree short hshort, Option.or_none]
  cases hdeclare : Symbol.declare ⟨scope, r.table, external⟩ d with
  | error error =>
    rw [add_error hdeclare, add_error (hsame ▸ hdeclare)]
    exact ⟨h, [fault d error], rfl, rfl⟩
  | ok declared =>
    rw [add_ok hdeclare, add_ok (hsame ▸ hdeclare)]
    refine ⟨fun name => ?_, declared.errors.map (fault d), rfl, rfl⟩
    show (r'.table.insert _ _).get? name = ((r.table.insert _ _).get? name).or _
    by_cases hname : name = declared.name
    · rw [hname, Table.get?_insert_self, Table.get?_insert_self]
      rfl
    · rw [Table.get?_insert_of_ne _ _ hname, Table.get?_insert_of_ne _ _ hname]
      exact h name

theorem foldl_behind {r r' : Resolution} (h : AtHand external r r') {ds : List Element}
    (hfree : ∀ d ∈ ds, ∀ short, d.name? = some short →
      external.get? (Name.qualify scope short) = none) :
    GoesOn external r (ds.foldl (add scope external) r) r' (ds.foldl (add scope ∅) r') := by
  induction ds generalizing r r' with
  | nil => exact ⟨h, [], (List.append_nil _).symm, (List.append_nil _).symm⟩
  | cons d ds ih =>
    obtain ⟨htable, new, hnew, hnew'⟩ := add_behind h (hfree d List.mem_cons_self)
    obtain ⟨hrest, more, hmore, hmore'⟩ := ih htable fun x hx => hfree x (List.mem_cons_of_mem d hx)
    refine ⟨hrest, new ++ more, ?_, ?_⟩
    · rw [List.foldl_cons, hmore, hnew, List.append_assoc]
    · rw [List.foldl_cons, hmore', hnew', List.append_assoc]

end Resolution

/-! ### Rules -/

namespace Rule

/-- The rule in another scope. -/
def keeping (values : Scope) (r : Rule) : Rule := { r with scope := values }

theorem keeping_of_scope {values : Scope} {r : Rule} (h : r.scope = values) :
    r.keeping values = r := by
  rw [← h]
  rfl

theorem compile_values (s : Surroundings) (values : Scope) (e : Element) (kind : RuleKind)
    (short : String) :
    compile { s with values } e kind short = (compile s e kind short).map (keeping values) := by
  have hbody : ∀ name parameters, bodyOf { s with values } e kind name parameters =
      bodyOf s e kind name parameters := by
    intro name parameters
    simp only [bodyOf]
  unfold compile
  simp only [hbody]
  cases parametersOf kind (Name.qualify s.scope short) ((e.attribute? "params").getD "") with
  | error error => rfl
  | ok parameters =>
    show (bodyOf s e kind (Name.qualify s.scope short) parameters >>= _) =
      (bodyOf s e kind (Name.qualify s.scope short) parameters >>= _).map _
    cases bodyOf s e kind (Name.qualify s.scope short) parameters <;> rfl

end Rule

namespace Compilation

variable {s : Rule.Surroundings} {values : Scope} {front : List Rule} {before : List Fault}
  {c c' : Compilation}

theorem attempt_values (s : Rule.Surroundings) (values : Scope) (unnamed : Nat) (e : Element) :
    attempt { s with values } unnamed e = (attempt s unnamed e).map (Rule.keeping values) := by
  unfold attempt
  cases RuleKind.ofTag? e.tag with
  | none => rfl
  | some kind => exact Rule.compile_values s values e kind _

theorem rules_subset_foldl (ds : List Element) :
    c.rules.rules ⊆ (ds.foldl (add s) c).rules.rules := by
  induction ds generalizing c with
  | nil => exact List.Subset.refl _
  | cons d ds ih =>
    refine List.Subset.trans ?_ ih
    rw [add_eq]
    rcases enter_cases { c with unnamed := countUnnamed c.unnamed d } d
      (attempt s c.unnamed d) with ⟨error, henter⟩ | ⟨rule, rules, -, hoffer, henter⟩
    · rw [henter]
      exact List.Subset.refl _
    · rw [henter]
      show _ ⊆ rules.rules
      rw [(Rulebook.rules_of_offer hoffer).2]
      exact List.subset_append_left _ _

/-- The second compilation is where the first one is, behind other rules and faults and in a scope
of its own. -/
structure Follows (values : Scope) (front : List Rule) (before : List Fault)
    (c c' : Compilation) : Prop where
  rules : c'.rules.rules = front ++ c.rules.rules.map (Rule.keeping values)
  faults : c'.faults = before ++ c.faults
  unnamed : c'.unnamed = c.unnamed

theorem Follows.get? (h : Follows values front before c c') (name : String) :
    c'.rules.get? name =
      (front.find? fun r => r.name = name).or ((c.rules.get? name).map (Rule.keeping values)) := by
  show c'.rules.rules.find? _ = _
  rw [h.rules, List.find?_append, List.find?_map]
  rfl

theorem Follows.refuse (h : Follows values front before c c') (e : Element) (error : RuleError) :
    Follows values front before (c.refuse e error) (c'.refuse e error) := by
  refine ⟨h.rules, ?_, h.unnamed⟩
  show c'.faults ++ _ = before ++ (c.faults ++ _)
  rw [h.faults, List.append_assoc]

theorem enter_follows (h : Follows values front before c c') (d : Element)
    (o : Except RuleError Rule)
    (hfree : ∀ r ∈ (c.enter d o).rules.rules, ∀ q ∈ front, q.name ≠ r.name) :
    Follows values front before (c.enter d o) (c'.enter d (o.map (Rule.keeping values))) := by
  cases o with
  | error error => exact h.refuse d error
  | ok r =>
    have hget := h.get? r.name
    change Follows values front before _ (c'.enter d (.ok (r.keeping values)))
    rcases c.rules.offer_cases r with ⟨q, hq, hoffer⟩ | ⟨hnone, b, hoffer, hb⟩ <;>
      rcases c'.rules.offer_cases (r.keeping values) with
        ⟨q', hq', hoffer'⟩ | ⟨hnone', b', hoffer', hb'⟩
    · have henter : c.enter d (.ok r) = c.refuse d (.duplicate r.name) := by
        simp only [enter, hoffer]
      have henter' : c'.enter d (.ok (r.keeping values)) = c'.refuse d (.duplicate r.name) := by
        simp only [enter, hoffer']
        rfl
      rw [henter, henter']
      exact h.refuse d _
    · -- the second one would have to have the rule that takes the name in the first one
      change c'.rules.get? r.name = none at hnone'
      rw [hget, hq, Option.or_eq_none_iff] at hnone'
      cases hnone'.2
    · have henter : c.enter d (.ok r) = { c with rules := b } := by
        simp only [enter, hoffer]
      rw [henter] at hfree
      -- the rule is not in front either, since the first one takes it
      have hfront : front.find? (fun q => q.name = r.name) = none := by
        refine List.find?_eq_none.mpr fun q hmem => ?_
        have hr : r ∈ b.rules := by
          rw [hb]
          exact List.mem_append_right _ List.mem_cons_self
        simpa using hfree r hr q hmem
      change c'.rules.get? r.name = some q' at hq'
      rw [hget, hnone, hfront] at hq'
      cases hq'
    · have henter : c.enter d (.ok r) = { c with rules := b } := by
        simp only [enter, hoffer]
      have henter' : c'.enter d (.ok (r.keeping values)) = { c' with rules := b' } := by
        simp only [enter, hoffer']
      rw [henter, henter']
      refine ⟨?_, h.faults, h.unnamed⟩
      show b'.rules = front ++ b.rules.map _
      rw [hb', hb, h.rules, List.map_append, List.append_assoc]
      rfl

theorem add_follows (h : Follows values front before c c') (d : Element)
    (hfree : ∀ r ∈ (add s c d).rules.rules, ∀ q ∈ front, q.name ≠ r.name) :
    Follows values front before (add s c d) (add { s with values } c' d) := by
  have hcounted : Follows values front before { c with unnamed := countUnnamed c.unnamed d }
      { c' with unnamed := countUnnamed c'.unnamed d } :=
    ⟨h.rules, h.faults, by rw [h.unnamed]⟩
  rw [add_eq] at hfree
  rw [add_eq, add_eq { s with values }, attempt_values s values, h.unnamed]
  rw [h.unnamed] at hcounted
  exact enter_follows hcounted d _ hfree

/-- Declarations come to the same rules behind others, as long as these have other names. -/
theorem foldl_follows (h : Follows values front before c c') {ds : List Element}
    (hfree : ∀ r ∈ (ds.foldl (add s) c).rules.rules, ∀ q ∈ front, q.name ≠ r.name) :
    Follows values front before (ds.foldl (add s) c) (ds.foldl (add { s with values }) c') := by
  induction ds generalizing c c' with
  | nil => exact h
  | cons d ds ih =>
    have hhead := add_follows h d fun r hr => hfree r (rules_subset_foldl ds hr)
    exact ih hhead hfree

theorem unnamed_foldl {ds : List Element}
    (h : ∀ d ∈ ds, (RuleKind.ofTag? d.tag).isSome → d.name?.isSome) :
    (ds.foldl (add s) c).unnamed = c.unnamed := by
  induction ds generalizing c with
  | nil => rfl
  | cons d ds ih =>
    have hcount : countUnnamed c.unnamed d = c.unnamed := by
      refine if_neg fun hunnamed => ?_
      have hname := h d List.mem_cons_self hunnamed.1
      rw [hunnamed.2] at hname
      cases hname
    rw [List.foldl_cons, ih fun x hx => h x (List.mem_cons_of_mem d hx), unnamed_add, hcount]

end Compilation

end Premise
