import Premise.Proofs.Table
import Premise.Rule.Compilation
import Premise.Symbol.Resolution

/-!
Single declarations: what one adds, and what of its surroundings it hangs on.

A declaration of a symbol looks names up and asks whether its own name is taken; nothing else of its
surroundings matters. A declaration of a rule comes to a rule or an error without a look at the
rules before it (`attempt`), and only then is the rule offered to them (`enter`).
-/

namespace Premise

namespace Rulebook

variable {b b' : Rulebook} {r r' : Rule}

def names (b : Rulebook) : List String := b.rules.map Rule.name

theorem nodup_names (b : Rulebook) : b.names.Nodup := List.pairwise_map.mpr b.distinct

theorem get?_eq_some {name : String} :
    b.get? name = some r ↔ r ∈ b.rules ∧ r.name = name := by
  constructor
  · intro h
    exact ⟨List.mem_of_find?_eq_some h, by simpa using List.find?_some h⟩
  · intro ⟨hmem, hname⟩
    obtain ⟨q, hq⟩ := Option.isSome_iff_exists.mp
      (List.find?_isSome.mpr ⟨r, hmem, (by simpa using hname)⟩ : (b.get? name).isSome)
    have hqname : q.name = name := by simpa using List.find?_some hq
    have heq : q = r := List.inj_on_of_nodup_map b.nodup_names (List.mem_of_find?_eq_some hq) hmem
      (hqname.trans hname.symm)
    rw [← heq]
    exact hq

theorem rules_of_offer (h : b.offer r = .ok b') :
    b.get? r.name = none ∧ b'.rules = b.rules ++ [r] := by
  unfold offer at h
  split at h
  · cases h
  · rename_i hfree
    cases h
    exact ⟨hfree, rfl⟩

theorem get?_of_offer_error (h : b.offer r = .error r') :
    (b.get? r.name).isSome ∧ r' = r := by
  unfold offer at h
  split at h
  · rename_i taken hfound
    cases h
    exact ⟨by rw [hfound]; rfl, rfl⟩
  · cases h

theorem offer_cases (b : Rulebook) (r : Rule) :
    (∃ q, b.get? r.name = some q ∧ b.offer r = .error r) ∨
      b.get? r.name = none ∧ ∃ b' : Rulebook, b.offer r = .ok b' ∧ b'.rules = b.rules ++ [r] := by
  cases hoffer : b.offer r with
  | error r' =>
    obtain ⟨htaken, rfl⟩ := get?_of_offer_error hoffer
    obtain ⟨q, hq⟩ := Option.isSome_iff_exists.mp htaken
    exact .inl ⟨q, hq, rfl⟩
  | ok b' =>
    obtain ⟨hfree, hrules⟩ := rules_of_offer hoffer
    exact .inr ⟨hfree, b', rfl, hrules⟩

end Rulebook

namespace Symbol

variable {s s' : Surroundings} {e : Element} {d : Declared}

/-- A value that is found is that of its literal, with its error. -/
theorem scalar_ok {expected : Shape} {name raw : String} {n : Noted}
    (h : scalar s name expected raw = .ok n) :
    (Meaning.ofLiteral s expected (Literal.classify raw)).value? = some n.value ∧
    (Meaning.ofLiteral s expected (Literal.classify raw)).error? name = n.errors.head? ∧
    (Meaning.ofLiteral s expected (Literal.classify raw)).isInvalidNumber = n.failedNumber := by
  unfold scalar at h
  cases hmeaning : Meaning.ofLiteral s expected (Literal.classify raw) with
  | value v =>
    rw [hmeaning] at h
    cases h
    exact ⟨rfl, rfl, rfl⟩
  | symbol reference found =>
    rw [hmeaning] at h
    simp only at h
    split at h
    · cases h
    · cases h
      exact ⟨rfl, rfl, rfl⟩
  | invalidNumber written =>
    rw [hmeaning] at h
    cases h
    exact ⟨rfl, rfl, rfl⟩
  | unresolved reference =>
    rw [hmeaning] at h
    cases h

/-- A declaration that adds a symbol has a free name, a kind, a shape and a value. -/
theorem declare_eq_ok (h : declare s e = .ok d) :
    ∃ short kind declared noted, e.name? = some short ∧
      s.table.contains (Name.qualify s.scope short) = false ∧
      SymbolKind.ofTag? e.tag = some kind ∧
      declaredShape e (Name.qualify s.scope short) = .ok declared ∧
      valueOf s e (Name.qualify s.scope short) kind declared = .ok noted ∧
      d = ⟨Name.qualify s.scope short, ⟨kind, kind.shape declared, noted.value, e.line⟩,
        noted.errors ++ mismatch (Name.qualify s.scope short) (kind.shape declared) noted⟩ := by
  unfold declare at h
  split at h
  · cases h
  · rename_i short hshort
    simp only at h
    split at h
    · cases h
    · rename_i hfree
      split at h
      · cases h
      · rename_i kind hkind
        cases hshape : declaredShape e (Name.qualify s.scope short) with
        | error error =>
          rw [hshape] at h
          cases h
        | ok declared =>
          cases hvalue : valueOf s e (Name.qualify s.scope short) kind declared with
          | error error =>
            simp only [hshape, hvalue, bind, Except.bind] at h
            cases h
          | ok noted =>
            simp only [hshape, hvalue, bind, Except.bind] at h
            cases h
            exact ⟨short, kind, declared, noted, hshort, by simpa using hfree, hkind, hshape, hvalue,
              rfl⟩

theorem declare_ok (h : declare s e = .ok d) :
    ∃ short, e.name? = some short ∧ d.name = Name.qualify s.scope short ∧
      s.table.contains d.name = false ∧ (SymbolKind.ofTag? e.tag).isSome := by
  obtain ⟨short, kind, declared, noted, hshort, hfree, hkind, -, -, rfl⟩ := declare_eq_ok h
  exact ⟨short, hshort, rfl, hfree, by rw [hkind]; rfl⟩

/-- What stands in the element around the declaration makes no difference to it. -/
theorem declare_children (s : Surroundings) (e : Element) (children : List Element) :
    declare s { e with children := children } = declare s e := by
  cases e
  rfl

theorem ofLiteral_congr (h : s.lookup? = s'.lookup?) :
    Meaning.ofLiteral s = Meaning.ofLiteral s' := by
  funext expected l
  cases l with
  | reference name =>
    unfold Meaning.ofLiteral
    rw [h]
  | quoted content | boolean b | number x | bare content => rfl

theorem valueOf_congr (h : s.lookup? = s'.lookup?) (e : Element) (name : String) (kind : SymbolKind)
    (declared : Option Shape) :
    valueOf s e name kind declared = valueOf s' e name kind declared := by
  cases kind with
  | var | const =>
    unfold valueOf scalar
    rw [ofLiteral_congr h]
  | set =>
    unfold valueOf setOf
    rw [ofLiteral_congr h]
  | graph | entity => rfl

theorem declare_congr (hscope : s.scope = s'.scope) (hexactly : s.exactly? = s'.exactly?)
    (htaken : ∀ short, e.name? = some short →
      s.table.contains (Name.qualify s.scope short) =
        s'.table.contains (Name.qualify s.scope short)) :
    declare s e = declare s' e := by
  have hlookup : s.lookup? = s'.lookup? := by
    funext reference
    unfold Surroundings.lookup?
    rw [hexactly, hscope]
  unfold declare
  split
  · rfl
  · rename_i short hshort
    have hsame := htaken short hshort
    rw [hscope] at hsame
    simp only [hscope, hsame, valueOf_congr hlookup]

end Symbol

namespace Resolution

variable {scope : Option String} {external : SymbolTable}

theorem add_error {r : Resolution} {e : Element} {error : SymbolError}
    (h : Symbol.declare ⟨scope, r.table, external⟩ e = .error error) :
    add scope external r e = { r with faults := r.faults ++ [fault e error] } := by
  unfold add
  rw [h]

theorem add_ok {r : Resolution} {e : Element} {d : Symbol.Declared}
    (h : Symbol.declare ⟨scope, r.table, external⟩ e = .ok d) :
    add scope external r e =
      ⟨r.table.insert d.name d.symbol, r.faults ++ d.errors.map (fault e)⟩ := by
  unfold add
  rw [h]

theorem cause_of_mem_faults {ds : List Element} {r : Resolution}
    (h : ∀ f ∈ r.faults, ∃ error, f.cause = .symbol error) :
    ∀ f ∈ (ds.foldl (add scope external) r).faults, ∃ error, f.cause = .symbol error := by
  induction ds generalizing r with
  | nil => exact h
  | cons d ds ih =>
    rw [List.foldl_cons]
    refine ih fun f hf => ?_
    cases hdeclare : Symbol.declare ⟨scope, r.table, external⟩ d with
    | error error =>
      rw [add_error hdeclare] at hf
      rcases List.mem_append.mp hf with hf | hf
      · exact h f hf
      · exact ⟨error, by rw [List.mem_singleton.mp hf]; rfl⟩
    | ok declared =>
      rw [add_ok hdeclare] at hf
      rcases List.mem_append.mp hf with hf | hf
      · exact h f hf
      · obtain ⟨error, _, heq⟩ := List.mem_map.mp hf
        exact ⟨error, by rw [← heq]; rfl⟩

/-- A name of the table is that of a declaration behind the namespace, or was there before. -/
theorem declared_of_contains {ds : List Element} {r : Resolution} {name : String}
    (h : (ds.foldl (add scope external) r).table.contains name = true) :
    r.table.contains name = true ∨ ∃ d ∈ ds, ∃ short, d.name? = some short ∧
      (SymbolKind.ofTag? d.tag).isSome ∧ name = Name.qualify scope short := by
  induction ds generalizing r with
  | nil => exact .inl h
  | cons d ds ih =>
    rcases ih h with hbefore | ⟨x, hx, hrest⟩
    · cases hdeclare : Symbol.declare ⟨scope, r.table, external⟩ d with
      | error error =>
        rw [add_error hdeclare] at hbefore
        exact .inl hbefore
      | ok declared =>
        rw [add_ok hdeclare] at hbefore
        obtain ⟨short, hshort, hname, -, hkind⟩ := Symbol.declare_ok hdeclare
        by_cases heq : name = declared.name
        · exact .inr ⟨d, List.mem_cons_self, short, hshort, hkind, heq.trans hname⟩
        · have hget : (r.table.insert declared.name declared.symbol).get? name =
              r.table.get? name := Table.get?_insert_of_ne _ _ heq
          unfold Table.contains at hbefore ⊢
          rw [hget] at hbefore
          exact .inl hbefore
    · exact .inr ⟨x, List.mem_cons_of_mem d hx, hrest⟩

end Resolution

theorem name_of_mem_resolve {space : Option String} {external : SymbolTable} {root : Element}
    {e : String × Symbol} (h : e ∈ (resolve space external root).table.toList) :
    ∃ d ∈ Resolution.declarations root, ∃ short, d.name? = some short ∧
      (SymbolKind.ofTag? d.tag).isSome ∧ e.1 = Name.qualify space short := by
  have hcontains : (resolve space external root).table.contains e.1 = true := by
    unfold Table.contains
    rw [Table.mem_toList.mp h]
    rfl
  rcases Resolution.declared_of_contains hcontains with hempty | hdeclared
  · cases hempty
  · exact hdeclared

namespace Rule

variable {s : Surroundings} {e : Element} {kind : RuleKind} {short : String} {r : Rule}

theorem bodyOf_eq_ok {name : String} {parameters : List Parameter} {body : Expr Mark} :
    bodyOf s e kind name parameters = .ok body ↔
      ∃ text, e.content?.or (e.attribute? "body") = some text ∧
        Expr.parse ⟨s.scope, parameters.map Parameter.name⟩ s.limit e.line text = .ok body := by
  unfold bodyOf
  cases e.content?.or (e.attribute? "body") with
  | none => simp
  | some text =>
    simp only [Option.some_inj, exists_eq_left']
    cases Expr.parse ⟨s.scope, parameters.map Parameter.name⟩ s.limit e.line text <;> simp

/-- A declaration that comes to a rule has parameters and a body, and the rule has what it says. -/
theorem compile_eq_ok : compile s e kind short = .ok r ↔
    r.name = Name.qualify s.scope short ∧ r.kind = kind ∧ r.line = e.line ∧ r.scope = s.values ∧
    parametersOf r.kind r.name ((e.attribute? "params").getD "") = .ok r.parameters ∧
    bodyOf s e r.kind r.name r.parameters = .ok r.body := by
  unfold compile
  constructor
  · intro h
    simp only at h
    cases hparameters : parametersOf kind (Name.qualify s.scope short)
        ((e.attribute? "params").getD "") with
    | error error =>
      rw [hparameters] at h
      cases h
    | ok parameters =>
      cases hbody : bodyOf s e kind (Name.qualify s.scope short) parameters with
      | error error =>
        simp only [hparameters, hbody, bind, Except.bind] at h
        cases h
      | ok body =>
        simp only [hparameters, hbody, bind, Except.bind] at h
        cases h
        exact ⟨rfl, rfl, rfl, rfl, hparameters, hbody⟩
  · obtain ⟨name, kind', body, parameters, line, values⟩ := r
    rintro ⟨rfl, rfl, rfl, rfl, hparameters, hbody⟩
    simp only [hparameters, hbody, bind, Except.bind]

/-- The rule has what the declaration says, under the short name. -/
structure Declares (s : Surroundings) (e : Element) (short : String) (r : Rule) : Prop where
  kind : RuleKind.ofTag? e.tag = some r.kind
  name : r.name = Name.qualify s.scope short
  line : r.line = e.line
  parameters : parametersOf r.kind r.name ((e.attribute? "params").getD "") = .ok r.parameters
  body : ∃ text, e.content?.or (e.attribute? "body") = some text ∧
    Expr.parse ⟨s.scope, r.parameters.map Parameter.name⟩ s.limit e.line text = .ok r.body
  scope : r.scope = s.values

end Rule

namespace Compilation

/-- What a declaration comes to where so many before it have no name. -/
def attempt (s : Rule.Surroundings) (unnamed : Nat) (e : Element) : Except RuleError Rule :=
  match RuleKind.ofTag? e.tag with
  | none => .error (.unknownKind e.tag)
  | some kind => Rule.compile s e kind (e.name?.getD (generatedName (unnamed + 1)))

/-- The name that a declaration goes by where so many before it have none. -/
def shortName (unnamed : Nat) (e : Element) : String := e.name?.getD (generatedName (unnamed + 1))

theorem attempt_eq_ok {s : Rule.Surroundings} {unnamed : Nat} {e : Element} {r : Rule} :
    attempt s unnamed e = .ok r ↔ r.Declares s e (shortName unnamed e) := by
  unfold attempt
  constructor
  · intro h
    split at h
    · cases h
    · rename_i kind hkind
      obtain ⟨hname, rfl, hline, hscope, hparameters, hbody⟩ := Rule.compile_eq_ok.mp h
      exact ⟨hkind, hname, hline, hparameters, Rule.bodyOf_eq_ok.mp hbody, hscope⟩
  · intro h
    simp only [h.kind]
    exact Rule.compile_eq_ok.mpr
      ⟨h.name, rfl, h.line, h.scope, h.parameters, Rule.bodyOf_eq_ok.mpr h.body⟩

theorem attempt_ok {s : Rule.Surroundings} {unnamed : Nat} {e : Element} {r : Rule}
    (h : attempt s unnamed e = .ok r) :
    RuleKind.ofTag? e.tag = some r.kind ∧ r.scope = s.values ∧
      r.name = Name.qualify s.scope (e.name?.getD (generatedName (unnamed + 1))) := by
  have hdeclares := attempt_eq_ok.mp h
  exact ⟨hdeclares.kind, hdeclares.scope, hdeclares.name⟩

/-- How many declarations without a name there are with this one. -/
def countUnnamed (unnamed : Nat) (e : Element) : Nat :=
  if (RuleKind.ofTag? e.tag).isSome ∧ e.name? = none then unnamed + 1 else unnamed

/-- Takes the rule in, unless there is none or its name is taken. -/
def enter (c : Compilation) (e : Element) : Except RuleError Rule → Compilation
  | .error error => c.refuse e error
  | .ok rule =>
    match c.rules.offer rule with
    | .error rule => c.refuse e (.duplicate rule.name)
    | .ok rules => { c with rules }

theorem add_eq (s : Rule.Surroundings) (c : Compilation) (e : Element) :
    add s c e = enter { c with unnamed := countUnnamed c.unnamed e } e (attempt s c.unnamed e) := by
  unfold add attempt countUnnamed
  cases RuleKind.ofTag? e.tag with
  | none => rfl
  | some kind =>
    cases hname : e.name? with
    | some short =>
      simp only [Option.getD_some, Option.isSome_some]
      unfold take
      cases Rule.compile s e kind short <;> rfl
    | none =>
      simp only [Option.getD_none, Option.isSome_some]
      unfold take
      cases Rule.compile s e kind (generatedName (c.unnamed + 1)) <;> rfl

@[simp] theorem unnamed_enter (c : Compilation) (e : Element) (o : Except RuleError Rule) :
    (c.enter e o).unnamed = c.unnamed := by
  unfold enter
  split
  · rfl
  · split <;> rfl

theorem unnamed_add (s : Rule.Surroundings) (c : Compilation) (e : Element) :
    (add s c e).unnamed = countUnnamed c.unnamed e := by
  rw [add_eq, unnamed_enter]

/-- A declaration adds its rule, or a fault. -/
theorem enter_cases (c : Compilation) (e : Element) (o : Except RuleError Rule) :
    (∃ error, c.enter e o = c.refuse e error) ∨
      ∃ rule rules, o = .ok rule ∧ c.rules.offer rule = .ok rules ∧
        c.enter e o = { c with rules } := by
  unfold enter
  split
  · exact .inl ⟨_, rfl⟩
  · rename_i rule
    cases hoffer : c.rules.offer rule with
    | error taken => exact .inl ⟨.duplicate taken.name, rfl⟩
    | ok rules => exact .inr ⟨rule, rules, rfl, hoffer, rfl⟩

theorem cause_of_mem_faults {s : Rule.Surroundings} {ds : List Element} {c : Compilation}
    (h : ∀ f ∈ c.faults, ∃ error, f.cause = .rule error) :
    ∀ f ∈ (ds.foldl (add s) c).faults, ∃ error, f.cause = .rule error := by
  induction ds generalizing c with
  | nil => exact h
  | cons d ds ih =>
    rw [List.foldl_cons]
    refine ih fun f hf => ?_
    rw [add_eq] at hf
    rcases enter_cases { c with unnamed := countUnnamed c.unnamed d } d (attempt s c.unnamed d) with
      ⟨error, henter⟩ | ⟨rule, rules, -, -, henter⟩
    · rw [henter] at hf
      rcases List.mem_append.mp hf with hf | hf
      · exact h f hf
      · exact ⟨error, by rw [List.mem_singleton.mp hf]; rfl⟩
    · rw [henter] at hf
      exact h f hf

/-- Every rule is what a declaration came to. -/
theorem attempt_of_mem {s : Rule.Surroundings} {ds : List Element} {c : Compilation} {r : Rule}
    (h : r ∈ (ds.foldl (add s) c).rules.rules) :
    r ∈ c.rules.rules ∨ ∃ d ∈ ds, ∃ unnamed, attempt s unnamed d = .ok r := by
  induction ds generalizing c with
  | nil => exact .inl h
  | cons d ds ih =>
    rcases ih h with hbefore | ⟨x, hx, hrest⟩
    · rw [add_eq] at hbefore
      rcases enter_cases { c with unnamed := countUnnamed c.unnamed d } d
        (attempt s c.unnamed d) with ⟨error, henter⟩ | ⟨rule, rules, hrule, hoffer, henter⟩
      · rw [henter] at hbefore
        exact .inl hbefore
      · rw [henter] at hbefore
        change r ∈ rules.rules at hbefore
        rw [(Rulebook.rules_of_offer hoffer).2] at hbefore
        rcases List.mem_append.mp hbefore with hbefore | hnew
        · exact .inl hbefore
        · rw [List.mem_singleton.mp hnew]
          exact .inr ⟨d, List.mem_cons_self, c.unnamed, hrule⟩
    · exact .inr ⟨x, List.mem_cons_of_mem d hx, hrest⟩

end Compilation

theorem attempt_of_mem_compile {space : Option String} {symbols : SymbolTable} {limit : Nat}
    {root : Element} {r : Rule} (h : r ∈ (compile space symbols limit root).rules.rules) :
    ∃ d ∈ Compilation.declarations root, ∃ unnamed,
      Compilation.attempt ⟨space, symbols.scope, limit⟩ unnamed d = .ok r := by
  rcases Compilation.attempt_of_mem h with hempty | hattempt
  · cases hempty
  · exact hattempt

/-- A rule goes by the name of a declaration behind the namespace, or by a generated one. -/
theorem name_of_mem_compile {space : Option String} {symbols : SymbolTable} {limit : Nat}
    {root : Element} {r : Rule} (h : r ∈ (compile space symbols limit root).rules.rules) :
    ∃ d ∈ Compilation.declarations root, (RuleKind.ofTag? d.tag).isSome ∧ ∃ short,
      r.name = Name.qualify space short ∧
      (d.name? = some short ∨ ∃ n, short = Compilation.generatedName n) := by
  obtain ⟨d, hd, unnamed, hattempt⟩ := attempt_of_mem_compile h
  obtain ⟨hkind, -, hname⟩ := Compilation.attempt_ok hattempt
  refine ⟨d, hd, by rw [hkind]; rfl, _, hname, ?_⟩
  cases d.name? with
  | some short => exact .inl rfl
  | none => exact .inr ⟨_, rfl⟩

end Premise
