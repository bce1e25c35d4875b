import Premise.Proofs.Merge

/-!
Stores in which the first entry of a name stays.

A rulebook lists its rules, and looks through the list to find one. A registry finds them in a table
and lists their names beside it, so that table and list have to be kept in step. They are, since an
offered rule goes into both or into neither: a registry stands for a rulebook all along, whatever is
offered to the two (`Registry.StandsFor`), and there is nothing to tell them apart by
(`stores_keep_first`).
-/

namespace Premise

section

variable {σ τ α β : Type}

/-- What comes of offering one entry: the store keeps it, or stays as it is and hands it back. -/
def tryOffer (offer : σ → α → Except β σ) (store : σ) (a : α) : σ × Option β :=
  match offer store a with
  | .ok store => (store, none)
  | .error back => (store, some back)

/-- Offers entries one after the other. For each of them the list says what was handed back. -/
def offerAll (offer : σ → α → Except β σ) (store : σ) : List α → σ × List (Option β)
  | [] => (store, [])
  | a :: as =>
    let first := tryOffer offer store a
    let others := offerAll offer first.1 as
    (others.1, first.2 :: others.2)

/-- Two stores that answer alike, and stay related when they do, answer alike all along. -/
theorem offerAll_alike {offer : σ → α → Except β σ} {offer' : τ → α → Except β τ}
    {alike : σ → τ → Prop}
    (hstep : ∀ s t a, alike s t → alike (tryOffer offer s a).1 (tryOffer offer' t a).1 ∧
      (tryOffer offer s a).2 = (tryOffer offer' t a).2)
    {s : σ} {t : τ} (h : alike s t) (as : List α) :
    alike (offerAll offer s as).1 (offerAll offer' t as).1 ∧
      (offerAll offer s as).2 = (offerAll offer' t as).2 := by
  induction as generalizing s t with
  | nil => exact ⟨h, rfl⟩
  | cons a as ih =>
    obtain ⟨halike, hback⟩ := hstep s t a h
    obtain ⟨hrest, hbacks⟩ := ih halike
    exact ⟨hrest, congrArg₂ List.cons hback hbacks⟩

end

/-! ### Rules -/

theorem fst_offerAll_rules (line : Rule → Option Nat) (b : Rulebook) (rs : List Rule) :
    (offerAll Rulebook.offer b rs).1 = (Link.mergeRules line b rs).1 := by
  induction rs generalizing b with
  | nil => rfl
  | cons r rs ih =>
    cases hoffer : b.offer r with
    | error r' =>
      rw [Link.mergeRules_taken hoffer, ← ih]
      simp only [offerAll, tryOffer, hoffer]
    | ok b' =>
      rw [Link.mergeRules_free hoffer, ← ih]
      simp only [offerAll, tryOffer, hoffer]

/-- Rules to be found by name, and their names in the order in which they came. -/
structure Registry where
  byName : Table Rule
  order : List String

namespace Registry

variable {g : Registry} {b : Rulebook}

def empty : Registry := ⟨∅, []⟩

instance : EmptyCollection Registry := ⟨empty⟩

/-- Adds a rule, or hands it back when its name is taken. -/
def offer (g : Registry) (r : Rule) : Except Rule Registry :=
  if g.byName.contains r.name then .error r
  else .ok ⟨g.byName.insert r.name r, g.order ++ [r.name]⟩

/-- The rules in order, those that are found. -/
def rules (g : Registry) : List Rule := g.order.filterMap g.byName.get?

def constraints (g : Registry) : List Rule := g.rules.filter fun r => r.kind = .constraint

/-- The registry finds what the rulebook finds, and lists the names of its rules. -/
structure StandsFor (g : Registry) (b : Rulebook) : Prop where
  found : ∀ name, g.byName.get? name = b.get? name
  listed : g.order = b.names

theorem tryOffer_offer (g : Registry) (r : Rule) : tryOffer offer g r =
    if g.byName.contains r.name then (g, some r)
    else (⟨g.byName.insert r.name r, g.order ++ [r.name]⟩, none) := by
  unfold tryOffer offer
  by_cases htaken : g.byName.contains r.name = true
  · simp only [htaken, if_true]
  · simp only [htaken, Bool.false_eq_true, if_false]

theorem standsFor_empty : StandsFor ∅ ∅ := ⟨fun _ => rfl, rfl⟩

theorem StandsFor.step (h : StandsFor g b) (r : Rule) :
    StandsFor (tryOffer offer g r).1 (tryOffer Rulebook.offer b r).1 ∧
      (tryOffer offer g r).2 = (tryOffer Rulebook.offer b r).2 := by
  unfold tryOffer offer Table.contains
  rw [h.found]
  rcases b.offer_cases r with ⟨q, htaken, hoffer⟩ | ⟨hfree, b', hoffer, hrules⟩
  · simp only [htaken, hoffer, Option.isSome_some, if_true, and_true]
    exact h
  · simp only [hfree, hoffer, Option.isSome_none, Bool.false_eq_true, if_false, and_true]
    refine ⟨fun name => ?_, ?_⟩
    · show (g.byName.insert r.name r).get? name = b'.rules.find? fun q => q.name = name
      rw [hrules, List.find?_append, List.find?_singleton]
      by_cases hname : name = r.name
      · subst hname
        have hnone : b.rules.find? (fun q => q.name = r.name) = none := hfree
        rw [Table.get?_insert_self, hnone]
        simp
      · rw [Table.get?_insert_of_ne _ _ hname, h.found, if_neg (by simpa using Ne.symm hname),
          Option.or_none]
        rfl
    · show g.order ++ [r.name] = b'.rules.map Rule.name
      rw [hrules, List.map_append, h.listed]
      rfl

theorem StandsFor.rules_eq (h : StandsFor g b) : g.rules = b.rules := by
  have hget : ∀ r ∈ b.rules, g.byName.get? r.name = some r := fun r hr => by
    rw [h.found, Rulebook.get?_eq_some]
    exact ⟨hr, rfl⟩
  unfold rules
  rw [h.listed, Rulebook.names, List.filterMap_map]
  have hsome : b.rules.filterMap (g.byName.get? ∘ Rule.name) = b.rules.filterMap some :=
    List.filterMap_congr hget
  rw [hsome, List.filterMap_some]

theorem StandsFor.mem_order (h : StandsFor g b) {name : String} :
    name ∈ g.order ↔ g.byName.contains name = true := by
  unfold Table.contains
  rw [h.listed, h.found, Option.isSome_iff_exists, Rulebook.names, List.mem_map]
  exact exists_congr fun r => Rulebook.get?_eq_some.symm

theorem standsFor_offerAll (rs : List Rule) :
    StandsFor (offerAll offer ∅ rs).1 (offerAll Rulebook.offer ∅ rs).1 ∧
      (offerAll offer ∅ rs).2 = (offerAll Rulebook.offer ∅ rs).2 :=
  offerAll_alike (fun _ _ r h => h.step r) standsFor_empty rs

end Registry

/-! ### Symbols -/

namespace Table

variable {α : Type}

/-- Offers a name with what it is to be bound to. -/
def offerEntry (t : Table α) (e : String × α) : Except α (Table α) := t.offer e.1 e.2

theorem tryOffer_offerEntry (t : Table α) (e : String × α) : tryOffer offerEntry t e =
    if t.contains e.1 then (t, some e.2) else (t.insert e.1 e.2, none) := by
  unfold tryOffer offerEntry offer
  by_cases htaken : t.contains e.1 = true
  · simp only [htaken, if_true]
  · simp only [htaken, Bool.false_eq_true, if_false]

theorem get?_offerAll (t : Table α) (es : List (String × α)) (name : String) :
    (offerAll offerEntry t es).1.get? name =
      (t.get? name).or ((es.find? fun e => e.1 = name).map Prod.snd) := by
  induction es generalizing t with
  | nil => exact (Option.or_none).symm
  | cons e es ih =>
    rw [offerAll, ih, tryOffer_offerEntry, List.find?_cons]
    unfold contains
    by_cases hname : e.1 = name
    · subst hname
      cases hbound : t.get? e.1 <;> simp [hbound]
    · have hother : (t.insert e.1 e.2).get? name = t.get? name :=
        t.get?_insert_of_ne e.2 (Ne.symm hname)
      cases t.get? e.1 <;> simp [hname, hother]

end Table

/-- A name is found among entries where one of them has it. -/
theorem isSome_find?_name {α : Type} (name : α → String) (as : List α) (n : String) :
    (as.find? fun a => name a = n).isSome = as.any fun a => name a = n := by
  rw [Bool.eq_iff_iff, List.find?_isSome, List.any_eq_true]

/-- What a table binds, its scope binds to the values. -/
theorem SymbolTable.names_scope (t : SymbolTable) : t.scope.base.names = t.names :=
  List.map_map

/-- Whatever rules are offered to an empty registry, its list has every name once and the names that
are found in its table; its rules are those offered, of each name the first, in their order, and so
are its constraints; and a rule whose name came before is handed back, with nothing changed. A
rulebook that is offered the same rules has the same ones, finds them by the same names and hands
the same ones back. A table of symbols binds each name to the first symbol offered under it, and
hands back the others; and its scope binds the same names, to the values of their symbols. -/
theorem stores_keep_first :
    (∀ rs : List Rule,
      let kept := (offerAll Registry.offer ∅ rs).1
      let book := (offerAll Rulebook.offer ∅ rs).1
      kept.order.Nodup ∧ (∀ name, name ∈ kept.order ↔ kept.byName.contains name = true) ∧
      kept.rules.map Rule.name = kept.order ∧ kept.rules = Link.newRules [] rs ∧
      kept.constraints = (Link.newRules [] rs).filter (fun r => r.kind = .constraint) ∧
      (∀ name, kept.byName.get? name = rs.find? fun r => r.name = name) ∧
      (∀ r, tryOffer Registry.offer kept r =
        if rs.any fun q => q.name = r.name then (kept, some r)
        else (⟨kept.byName.insert r.name r, kept.order ++ [r.name]⟩, none)) ∧
      book.rules = kept.rules ∧ book.constraints = kept.constraints ∧
      (∀ name, book.get? name = kept.byName.get? name) ∧
      (offerAll Rulebook.offer ∅ rs).2 = (offerAll Registry.offer ∅ rs).2) ∧
    ∀ es : List (String × Symbol),
      let kept : SymbolTable := (offerAll Table.offerEntry ∅ es).1
      (∀ name, kept.get? name = (es.find? fun e => e.1 = name).map Prod.snd) ∧
      (∀ e, tryOffer Table.offerEntry kept e =
        if es.any fun f => f.1 = e.1 then (kept, some e.2) else (kept.insert e.1 e.2, none)) ∧
      (∀ name, kept.scope.get? name = (kept.get? name).map Symbol.value) ∧
      kept.scope.base.names = kept.names ∧ kept.scope.overrides = ∅ := by
  refine ⟨fun rs => ?_, fun es => ?_⟩
  · intro kept book
    obtain ⟨hstands, hbacks⟩ : kept.StandsFor book ∧ _ := Registry.standsFor_offerAll rs
    have hmerge : book = (Link.mergeRules Rule.line ∅ rs).1 := fst_offerAll_rules Rule.line ∅ rs
    obtain ⟨hmerges, -, horder⟩ := Link.mergeRules_merges Rule.line ∅ rs
    rw [← hmerge] at hmerges horder
    have hrules : kept.rules = Link.newRules [] rs := hstands.rules_eq.trans horder
    have hfound : ∀ name, kept.byName.get? name = rs.find? fun r => r.name = name := fun name =>
      (hstands.found name).trans (hmerges.first name)
    refine ⟨?_, fun name => hstands.mem_order, ?_, hrules, ?_, hfound, fun r => ?_,
      hstands.rules_eq.symm, ?_, fun name => (hstands.found name).symm, hbacks.symm⟩
    · rw [hstands.listed]
      exact book.nodup_names
    · rw [hstands.rules_eq, hstands.listed]
      rfl
    · rw [← hrules]
      rfl
    · rw [Registry.tryOffer_offer, Table.contains, hfound, isSome_find?_name Rule.name]
    · unfold Rulebook.constraints Registry.constraints
      rw [hstands.rules_eq]
  · intro kept
    have hbound : ∀ name, kept.get? name = (es.find? fun e => e.1 = name).map Prod.snd :=
      Table.get?_offerAll ∅ es
    refine ⟨hbound, fun e => ?_, kept.get?_scope, kept.names_scope, rfl⟩
    rw [Table.tryOffer_offerEntry, Table.contains, hbound, Option.isSome_map,
      isSome_find?_name Prod.fst]

end Premise
