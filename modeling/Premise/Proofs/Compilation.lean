import Mathlib.Data.List.Induction
import Premise.Proofs.Merge
import Premise.Proofs.Walk

/-!
Compilation accounts for every declaration, in order.

A declaration adds its rule behind the others (`Registers`), or is left out and one fault says why
(`LeavesOut`, with the reasons in `Refused`). What a declaration comes to hangs on the declarations
before it only through the number of those without a name, which counts whether or not they come to
anything. So the rules are those that the declarations come to, each taken on its own (`compiled`),
without the ones whose name an earlier one has.
-/

namespace Premise

namespace Rule

variable {s : Surroundings} {e : Element} {kind : RuleKind} {short name : String} {r : Rule}

theorem nodup_parametersAfter {read ps : List Parameter} {written : List String}
    (hread : (read.map Parameter.name).Nodup)
    (h : parametersAfter kind name read written = .ok ps) : (ps.map Parameter.name).Nodup := by
  induction written generalizing read with
  | nil =>
    cases h
    exact hread
  | cons w written ih =>
    unfold parametersAfter at h
    cases hparameter : parameter kind name w with
    | error error =>
      rw [hparameter] at h
      cases h
    | ok p =>
      simp only [hparameter, bind, Except.bind] at h
      split at h
      · cases h
      · rename_i hnew
        refine ih ?_ h
        rw [List.map_append, List.nodup_append]
        refine ⟨hread, List.nodup_singleton p.name, fun a ha b hb heq => hnew ?_⟩
        obtain ⟨q, hq, rfl⟩ := List.mem_map.mp ha
        rw [List.map_singleton, List.mem_singleton] at hb
        exact List.any_eq_true.mpr ⟨q, hq, by simpa using heq.trans hb⟩

/-- A rule has no two parameters of one name. -/
theorem Declares.nodup_parameters (h : Declares s e short r) :
    (r.parameters.map Parameter.name).Nodup :=
  @nodup_parametersAfter r.kind r.name [] r.parameters _ List.nodup_nil h.parameters

end Rule

namespace Compilation

variable {s : Rule.Surroundings} {e : Element} {r : Rule} {c c' : Compilation}

/-! ### One declaration -/

/-- Why a declaration is left out: its kind is unknown, its parameters cannot be read, it has no
body or one that cannot be parsed, or its name is taken. -/
inductive Refused (s : Rule.Surroundings) (c : Compilation) (e : Element) : RuleError → Prop
  | unknownKind (hkind : RuleKind.ofTag? e.tag = none) : Refused s c e (.unknownKind e.tag)
  | parameters {kind : RuleKind} {error : RuleError} (hkind : RuleKind.ofTag? e.tag = some kind)
      (herror : Rule.parametersOf kind (Name.qualify s.scope (shortName c.unnamed e))
        ((e.attribute? "params").getD "") = .error error) : Refused s c e error
  | missingBody {kind : RuleKind} (hkind : RuleKind.ofTag? e.tag = some kind)
      (hbody : e.content?.or (e.attribute? "body") = none) :
      Refused s c e (.missingBody kind (Name.qualify s.scope (shortName c.unnamed e)))
  | malformedBody {kind : RuleKind} {ps : List Parameter} {text : String} {error : ParseError}
      (hkind : RuleKind.ofTag? e.tag = some kind)
      (hparameters : Rule.parametersOf kind (Name.qualify s.scope (shortName c.unnamed e))
        ((e.attribute? "params").getD "") = .ok ps)
      (hbody : e.content?.or (e.attribute? "body") = some text)
      (herror : Expr.parse ⟨s.scope, ps.map Parameter.name⟩ s.limit e.line text = .error error) :
      Refused s c e (.malformedBody kind (Name.qualify s.scope (shortName c.unnamed e)) error)
  | duplicate {r q : Rule} (hdeclares : r.Declares s e (shortName c.unnamed e))
      (htaken : c.rules.get? r.name = some q) : Refused s c e (.duplicate r.name)

theorem refused_of_attempt {error : RuleError} (h : attempt s c.unnamed e = .error error) :
    Refused s c e error := by
  unfold attempt at h
  split at h
  · rename_i hkind
    cases h
    exact .unknownKind hkind
  · rename_i kind hkind
    have hcompile : Rule.compile s e kind (shortName c.unnamed e) = .error error := h
    unfold Rule.compile at hcompile
    simp only at hcompile
    cases hparameters : Rule.parametersOf kind (Name.qualify s.scope (shortName c.unnamed e))
        ((e.attribute? "params").getD "") with
    | error refusal =>
      simp only [hparameters, bind, Except.bind] at hcompile
      cases hcompile
      exact .parameters hkind hparameters
    | ok ps =>
      simp only [hparameters, bind, Except.bind, Rule.bodyOf] at hcompile
      cases hbody : e.content?.or (e.attribute? "body") with
      | none =>
        simp only [hbody] at hcompile
        cases hcompile
        exact .missingBody hkind hbody
      | some text =>
        simp only [hbody] at hcompile
        cases hparse : Expr.parse ⟨s.scope, ps.map Parameter.name⟩ s.limit e.line text with
        | ok body =>
          simp only [hparse] at hcompile
          cases hcompile
        | error refusal =>
          simp only [hparse] at hcompile
          cases hcompile
          exact .malformedBody hkind hparameters hbody hparse

theorem add_of_error {error : RuleError} (h : attempt s c.unnamed e = .error error) :
    add s c e = refuse { c with unnamed := countUnnamed c.unnamed e } e error := by
  rw [add_eq, h]
  rfl

theorem add_of_taken {q : Rule} (h : attempt s c.unnamed e = .ok r)
    (htaken : c.rules.get? r.name = some q) :
    add s c e = refuse { c with unnamed := countUnnamed c.unnamed e } e (.duplicate r.name) := by
  rw [add_eq, h]
  rcases c.rules.offer_cases r with ⟨q, -, hoffer⟩ | ⟨hfree, -⟩
  · simp only [enter, hoffer]
  · rw [hfree] at htaken
    cases htaken

theorem add_of_free (h : attempt s c.unnamed e = .ok r) (hfree : c.rules.get? r.name = none) :
    ∃ rules : Rulebook, rules.rules = c.rules.rules ++ [r] ∧
      add s c e = { c with rules, unnamed := countUnnamed c.unnamed e } := by
  rw [add_eq, h]
  rcases c.rules.offer_cases r with ⟨q, htaken, -⟩ | ⟨-, rules, hoffer, hrules⟩
  · rw [hfree] at htaken
    cases htaken
  · exact ⟨rules, hrules, by simp only [enter, hoffer]⟩

/-- A declaration adds its rule behind the others, where none has its name. -/
structure Registers (s : Rule.Surroundings) (e : Element) (r : Rule) (c c' : Compilation) :
    Prop where
  declares : r.Declares s e (shortName c.unnamed e)
  free : c.rules.get? r.name = none
  rules : c'.rules.rules = c.rules.rules ++ [r]
  faults : c'.faults = c.faults

/-- A declaration is left out, and all that comes of it is one fault at its line, which says why. -/
structure LeavesOut (s : Rule.Surroundings) (e : Element) (c c' : Compilation) : Prop where
  rules : c'.rules = c.rules
  reports : ∃ f, c'.faults = c.faults ++ [f] ∧ f.line = e.line ∧
    ∃ error, f.cause = .rule error ∧ Refused s c e error

theorem leavesOut_refuse {error : RuleError} (unnamed : Nat) (h : Refused s c e error) :
    LeavesOut s e c (refuse { c with unnamed } e error) :=
  ⟨rfl, _, rfl, Option.or_none, error, rfl, h⟩

theorem registers (hdeclares : r.Declares s e (shortName c.unnamed e))
    (hfree : c.rules.get? r.name = none) : Registers s e r c (add s c e) := by
  obtain ⟨rules, hrules, hadd⟩ := add_of_free (attempt_eq_ok.mpr hdeclares) hfree
  rw [hadd]
  exact ⟨hdeclares, hfree, hrules, rfl⟩

theorem add_cases (s : Rule.Surroundings) (c : Compilation) (e : Element) :
    (∃ r, Registers s e r c (add s c e)) ∨ LeavesOut s e c (add s c e) := by
  cases hattempt : attempt s c.unnamed e with
  | error error =>
    rw [add_of_error hattempt]
    exact .inr (leavesOut_refuse _ (refused_of_attempt hattempt))
  | ok r =>
    have hdeclares := attempt_eq_ok.mp hattempt
    cases htaken : c.rules.get? r.name with
    | none => exact .inl ⟨r, registers hdeclares htaken⟩
    | some q =>
      rw [add_of_taken hattempt htaken]
      exact .inr (leavesOut_refuse _ (.duplicate hdeclares htaken))

/-! ### All of them -/

/-- The rules that the declarations come to, each taken on its own. -/
def compiled (s : Rule.Surroundings) (unnamed : Nat) : List Element → List Rule
  | [] => []
  | d :: ds => (attempt s unnamed d).toOption.toList ++ compiled s (countUnnamed unnamed d) ds

theorem size_foldl (s : Rule.Surroundings) (ds : List Element) (c : Compilation) :
    (ds.foldl (add s) c).rules.size + (ds.foldl (add s) c).faults.length =
      c.rules.size + c.faults.length + ds.length := by
  induction ds generalizing c with
  | nil => rfl
  | cons d ds ih =>
    rw [List.foldl_cons, ih, List.length_cons]
    rcases add_cases s c d with ⟨r, hregisters⟩ | hout
    · have hsize : (add s c d).rules.size = c.rules.size + 1 := by
        unfold Rulebook.size
        rw [hregisters.rules, List.length_append]
        rfl
      rw [hsize, hregisters.faults]
      omega
    · obtain ⟨f, hf, -⟩ := hout.reports
      rw [hout.rules, hf, List.length_append, List.length_singleton]
      omega

/-- Of the rules that the declarations come to, those are added whose names are free. -/
theorem rules_foldl (s : Rule.Surroundings) (ds : List Element) (c : Compilation) :
    (ds.foldl (add s) c).rules.rules =
      c.rules.rules ++ Link.newRules c.rules.names (compiled s c.unnamed ds) := by
  induction ds generalizing c with
  | nil => exact (List.append_nil _).symm
  | cons d ds ih =>
    rw [List.foldl_cons, ih, unnamed_add, compiled]
    cases hattempt : attempt s c.unnamed d with
    | error error =>
      rw [add_of_error hattempt]
      rfl
    | ok r =>
      show _ = c.rules.rules ++ Link.newRules c.rules.names (r :: compiled s _ ds)
      cases htaken : c.rules.get? r.name with
      | some q =>
        have hmem : r.name ∈ c.rules.names := by
          obtain ⟨hq, hname⟩ := Rulebook.get?_eq_some.mp htaken
          exact List.mem_map.mpr ⟨q, hq, hname⟩
        rw [add_of_taken hattempt htaken, Link.newRules, if_pos hmem]
        rfl
      | none =>
        have hnot : r.name ∉ c.rules.names := by
          intro hmem
          obtain ⟨q, hq, hname⟩ := List.mem_map.mp hmem
          exact Rulebook.ne_of_get?_eq_none htaken q hq hname
        obtain ⟨rules, hrules, hadd⟩ := add_of_free hattempt htaken
        have hnames : rules.names = c.rules.names ++ [r.name] := by
          unfold Rulebook.names
          rw [hrules, List.map_append]
          rfl
        rw [hadd, Link.newRules, if_neg hnot]
        simp only [hnames, hrules, List.append_assoc, List.singleton_append]

/-- What the declarations come to, one after the other. -/
def after (s : Rule.Surroundings) (ds : List Element) : Compilation := ds.foldl (add s) {}

theorem after_concat (s : Rule.Surroundings) (ds : List Element) (d : Element) :
    after s (ds ++ [d]) = add s (after s ds) d :=
  List.foldl_append

/-- Every rule was added by a declaration. -/
theorem exists_registers {ds : List Element} (h : r ∈ (after s ds).rules.rules) :
    ∃ before e rest, ds = before ++ e :: rest ∧
      Registers s e r (after s before) (after s (before ++ [e])) := by
  induction ds using List.reverseRecOn with
  | nil => cases h
  | append_singleton ds d ih =>
    have hearlier : r ∈ (after s ds).rules.rules → ∃ before e rest,
        ds ++ [d] = before ++ e :: rest ∧
          Registers s e r (after s before) (after s (before ++ [e])) := by
      intro hds
      obtain ⟨before, e, rest, rfl, hregisters⟩ := ih hds
      exact ⟨before, e, rest ++ [d], by simp, hregisters⟩
    rcases add_cases s (after s ds) d with ⟨q, hregisters⟩ | hout
    · rw [← after_concat] at hregisters
      rw [hregisters.rules] at h
      rcases List.mem_append.mp h with h | h
      · exact hearlier h
      · rw [List.mem_singleton.mp h]
        exact ⟨ds, d, [], rfl, hregisters⟩
    · rw [after_concat, hout.rules] at h
      exact hearlier h

/-- A rule whose name is free when its declaration comes is there in the end. -/
theorem mem_compile {scope : Option String} {symbols : SymbolTable} {limit : Nat} {root : Element}
    {before rest : List Element} (hsplit : declarations root = before ++ e :: rest)
    (hdeclares : r.Declares ⟨scope, symbols.scope, limit⟩ e
      (shortName (after ⟨scope, symbols.scope, limit⟩ before).unnamed e))
    (hfree : (after ⟨scope, symbols.scope, limit⟩ before).rules.get? r.name = none) :
    r ∈ (compile scope symbols limit root).rules.rules := by
  have hwhole : compile scope symbols limit root = rest.foldl (add ⟨scope, symbols.scope, limit⟩)
      (add ⟨scope, symbols.scope, limit⟩ (after ⟨scope, symbols.scope, limit⟩ before) e) := by
    unfold compile after
    rw [hsplit, List.foldl_append, List.foldl_cons]
  rw [hwhole, rules_foldl, (registers hdeclares hfree).rules]
  exact List.mem_append_left _ (List.mem_append_right _ List.mem_cons_self)

/-- The declarations are the children of the sections of rules, in document order. Each of them adds
one rule or is left out with one fault, so that rules and faults are together as many as the
declarations. The rules are those that the declarations come to, in document order, and of one name
the first. A rule has parameters of different names and the body that its declaration's text is
parsed as, and it sees the symbols of the table and nothing else. -/
theorem compile_accounts (scope : Option String) (symbols : SymbolTable) (limit : Nat)
    (root : Element) :
    let s : Rule.Surroundings := ⟨scope, symbols.scope, limit⟩
    let c := compile scope symbols limit root
    declarations root =
        ((Element.preorder root).filter fun x => x.tag = sectionTag).flatMap Element.children ∧
      (∀ before e rest, declarations root = before ++ e :: rest →
        (∃ r, Registers s e r (after s before) (after s (before ++ [e]))) ∨
          LeavesOut s e (after s before) (after s (before ++ [e]))) ∧
      c.rules.size + c.faults.length = (declarations root).length ∧
      c.rules.rules = Link.newRules [] (compiled s 0 (declarations root)) ∧
      ∀ r ∈ c.rules.rules,
        (∃ before e rest, declarations root = before ++ e :: rest ∧
          Registers s e r (after s before) (after s (before ++ [e])) ∧
          ∃ text, e.content?.or (e.attribute? "body") = some text ∧
            Expr.parse ⟨scope, r.parameters.map Parameter.name⟩ limit e.line text = .ok r.body) ∧
        (r.parameters.map Parameter.name).Nodup ∧
        ∀ name, r.scope.get? name = (symbols.get? name).map Symbol.value := by
  intro s c
  refine ⟨?_, fun before e rest _ => ?_, ?_, ?_, fun r hr => ?_⟩
  · rw [declarations, Element.findAll_eq_filter]
  · rw [after_concat]
    exact add_cases s (after s before) e
  · have hsize := size_foldl s (declarations root) {}
    rw [show (Compilation.rules {}).size + (Compilation.faults {}).length = 0 from rfl,
      Nat.zero_add] at hsize
    exact hsize
  · exact rules_foldl s (declarations root) {}
  · obtain ⟨before, e, rest, hsplit, hregisters⟩ := @exists_registers s r (declarations root) hr
    refine ⟨⟨before, e, rest, hsplit, hregisters, hregisters.declares.body⟩,
      hregisters.declares.nodup_parameters, fun name => ?_⟩
    rw [hregisters.declares.scope]
    exact symbols.get?_scope name

/-- A document of seven declarations, of which four are left out: one reads a parameter twice, one
is of no known kind, one has no body, and one bears the name that was generated for another. -/
def motley : Element :=
  let declaration (tag : String) (attributes : List (String × String)) (line : Nat) : Element :=
    ⟨tag, Table.ofList attributes, [], none, some line⟩
  (Element.leaf "tenet").addChild ((Element.leaf sectionTag).addChildren
    [declaration "function" [("name", "f"), ("params", "x, y"), ("body", "x + y")] 1,
      declaration "rule" [("body", "f(1, 2)")] 2,
      declaration "function" [("name", "g"), ("params", "x, x"), ("body", "x")] 3,
      declaration "lemma" [("body", "true")] 4,
      declaration "constraint" [] 5,
      declaration "rule" [("name", "anonymous1"), ("body", "true")] 6,
      declaration "constraint" [("body", "f(1, 2) > 2")] 7])

theorem compile_accounts_mixed :
    let c := compile (some "n") ∅ 8 motley
    c.rules.names = ["n.f", "n.anonymous1", "n.anonymous3"] ∧
    c.faults.map Fault.line = [some 3, some 4, some 5, some 6] ∧
    c.rules.size + c.faults.length = 7 := by
  have hcount := (compile_accounts (some "n") ∅ 8 motley).2.2.1
  exact ⟨by decide +kernel, by decide +kernel, hcount.trans (by decide +kernel)⟩

end Compilation

end Premise
