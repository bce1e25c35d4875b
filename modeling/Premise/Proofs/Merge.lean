import Premise.Link
import Premise.Proofs.Declarations

/-!
Merging named things into a store that keeps the first of each name.

`Merges` relates what a store held, what it was offered and what it holds then, and accounts for
every name that was turned away. It does not say how the store orders its contents, so it is about
tables and rulebooks alike, and merges compose: one behind another, and one whose outcome is offered
to a third store.
-/

namespace Premise

/-- Of one name the first counts: `after` has the first of every name in `before ++ offered`, and the
others are lost. The names in `conflicts` are theirs. -/
structure Merges {α : Type} (name : α → String) (before offered after : List α)
    (conflicts : List String) : Prop where
  first : ∀ n, after.find? (fun a => name a = n) = (before ++ offered).find? fun a => name a = n
  accounted : ∃ lost : List α, lost.map name = conflicts ∧ (after ++ lost).Perm (before ++ offered)

namespace Merges

variable {α : Type} {name : α → String} {before offered more mid after : List α}
  {conflicts further : List String}

theorem refl (name : α → String) (before : List α) : Merges name before [] before [] :=
  ⟨fun n => by rw [List.append_nil], [], rfl, .refl _⟩

theorem trans (h : Merges name before offered mid conflicts)
    (k : Merges name mid more after further) :
    Merges name before (offered ++ more) after (conflicts ++ further) := by
  obtain ⟨lost, hlost, hperm⟩ := h.accounted
  obtain ⟨lost', hlost', hperm'⟩ := k.accounted
  refine ⟨fun n => ?_, lost ++ lost', ?_, ?_⟩
  · have hall : before ++ (offered ++ more) = (before ++ offered) ++ more :=
      (List.append_assoc ..).symm
    rw [k.first, List.find?_append, h.first, hall, ← List.find?_append]
  · rw [List.map_append, hlost, hlost']
  · have hswap : (after ++ (lost ++ lost')).Perm (after ++ lost' ++ lost) := by
      rw [List.append_assoc]
      exact List.perm_append_comm.append_left after
    have hmid : (mid ++ more ++ lost).Perm (mid ++ lost ++ more) := by
      rw [List.append_assoc, List.append_assoc]
      exact List.perm_append_comm.append_left mid
    rw [← List.append_assoc before]
    exact ((hswap.trans (hperm'.append_right lost)).trans hmid).trans (hperm.append_right more)

/-- What a store came to is offered to another one in place of what it was offered itself. -/
theorem behind (h : Merges name [] offered mid conflicts)
    (k : Merges name before mid after further) :
    Merges name before offered after (conflicts ++ further) := by
  obtain ⟨lost, hlost, hperm⟩ := h.accounted
  obtain ⟨lost', hlost', hperm'⟩ := k.accounted
  refine ⟨fun n => ?_, lost ++ lost', ?_, ?_⟩
  · rw [k.first, List.find?_append, h.first, List.nil_append, List.find?_append]
  · rw [List.map_append, hlost, hlost']
  · have hswap : (after ++ (lost ++ lost')).Perm (after ++ lost' ++ lost) := by
      rw [List.append_assoc]
      exact List.perm_append_comm.append_left after
    have hrest : (before ++ mid ++ lost).Perm (before ++ offered) := by
      rw [List.append_assoc]
      exact hperm.append_left before
    exact (hswap.trans (hperm'.append_right lost)).trans hrest

/-- One more is kept where its name is free. -/
theorem keep {a : α} (hperm : mid.Perm (a :: before))
    (hfirst : ∀ n, mid.find? (fun a => name a = n) = (before ++ [a]).find? fun a => name a = n) :
    Merges name before [a] mid [] :=
  ⟨hfirst, [], rfl, by
    rw [List.append_nil]
    exact hperm.trans (List.perm_append_singleton a before).symm⟩

/-- One more is lost where its name is taken. -/
theorem lose {a : α} (h : (before.find? fun b => name b = name a).isSome) :
    Merges name before [a] before [name a] := by
  refine ⟨fun n => ?_, [a], rfl, .refl _⟩
  rw [List.find?_append]
  by_cases hn : name a = n
  · subst hn
    obtain ⟨b, hb⟩ := Option.isSome_iff_exists.mp h
    rw [hb]
    rfl
  · rw [List.find?_singleton, if_neg (by simpa using hn), Option.or_none]

theorem length_eq (h : Merges name before offered after conflicts) :
    conflicts.length + after.length = before.length + offered.length := by
  obtain ⟨lost, hlost, hperm⟩ := h.accounted
  have hlength := hperm.length_eq
  rw [List.length_append, List.length_append] at hlength
  rw [← hlost, List.length_map]
  omega

/-- Nothing is lost where no name comes twice. -/
theorem disjoint (h : Merges name before offered after conflicts)
    (hnodup : ((before ++ offered).map name).Nodup) :
    conflicts = [] ∧ after.Perm (before ++ offered) := by
  obtain ⟨lost, hlost, hperm⟩ := h.accounted
  have hall : ((after ++ lost).map name).Nodup := (hperm.map name).nodup_iff.mpr hnodup
  have hnone : lost = [] := by
    rw [List.eq_nil_iff_forall_not_mem]
    intro a ha
    have hoffered : a ∈ before ++ offered := hperm.mem_iff.mp (List.mem_append_right after ha)
    have hfind : (after.find? fun b => name b = name a).isSome := by
      rw [h.first, List.find?_isSome]
      exact ⟨a, hoffered, by simp⟩
    obtain ⟨b, hb, hname⟩ := List.find?_isSome.mp hfind
    rw [List.map_append, List.nodup_append] at hall
    exact hall.2.2 _ (List.mem_map_of_mem hb) _ (List.mem_map_of_mem ha) (by simpa using hname)
  rw [hnone, List.append_nil] at hperm
  rw [← hlost, hnone]
  exact ⟨rfl, hperm⟩

end Merges

namespace Fault

/-- The name that a conflict in a store is reported for. -/
def conflict? (store : Store) (f : Fault) : Option String :=
  match f.cause with
  | .link (.conflict found name) => if found = store then some name else none
  | _ => none

theorem conflict?_eq_some {store : Store} {f : Fault} {name : String} :
    f.conflict? store = some name ↔ f.cause = .link (.conflict store name) := by
  unfold conflict?
  split
  · rename_i found other heq
    rw [heq]
    by_cases h : found = store
    · simp [h]
    · simp [h]
  · rename_i hother
    constructor
    · intro h
      cases h
    · intro h
      exact absurd h (hother store name)

theorem message_of_conflict? {store : Store} {f : Fault} {name : String}
    (h : f.conflict? store = some name) :
    f.message = s!"{store.heading} conflict: '{name}' is already defined" := by
  unfold message
  rw [conflict?_eq_some.mp h]
  rfl

/-- The names that conflicts in a store are reported for, in the order of the reports. -/
def conflicts (store : Store) (faults : List Fault) : List String :=
  faults.filterMap (conflict? store)

theorem conflicts_append (store : Store) (fs gs : List Fault) :
    conflicts store (fs ++ gs) = conflicts store fs ++ conflicts store gs :=
  List.filterMap_append

theorem conflicts_eq_nil {store : Store} {faults : List Fault}
    (h : ∀ f ∈ faults, ∀ name, f.cause ≠ .link (.conflict store name)) :
    conflicts store faults = [] := by
  refine List.filterMap_eq_nil_iff.mpr fun f hf => ?_
  cases hconflict : f.conflict? store with
  | none => rfl
  | some name => exact absurd (conflict?_eq_some.mp hconflict) (h f hf name)

end Fault

namespace Link

/-- Symbols by the names they are listed under. -/
abbrev MergesSymbols := @Merges (String × Symbol) (·.1)

abbrev MergesRules := @Merges Rule Rule.name

@[simp] theorem conflicts_cons_self (store : Store) (line : Option Nat) (name : String)
    (faults : List Fault) :
    Fault.conflicts store (fault line (.conflict store name) :: faults) =
      [name] ++ Fault.conflicts store faults :=
  List.filterMap_cons_some (Fault.conflict?_eq_some.mpr rfl)

@[simp] theorem conflicts_cons_of_ne {store found : Store} (h : found ≠ store)
    (line : Option Nat) (name : String) (faults : List Fault) :
    Fault.conflicts store (fault line (.conflict found name) :: faults) =
      Fault.conflicts store faults :=
  List.filterMap_cons_none (if_neg h)

section

variable {line : Symbol → Option Nat} {t : SymbolTable} {name : String}

theorem mergeSymbols_taken (h : t.contains name = true) (s : Symbol) (es : List (String × Symbol)) :
    mergeSymbols line t ((name, s) :: es) =
      ((mergeSymbols line t es).1,
        fault (line s) (.conflict .symbols name) :: (mergeSymbols line t es).2) := by
  rw [mergeSymbols, Table.offer, if_pos h]

theorem mergeSymbols_free (h : t.get? name = none) (s : Symbol) (es : List (String × Symbol)) :
    mergeSymbols line t ((name, s) :: es) = mergeSymbols line (t.insert name s) es := by
  have hfree : ¬t.contains name = true := by simp [Table.contains, h]
  rw [mergeSymbols, Table.offer, if_neg hfree]

end

theorem cause_of_mem_mergeSymbols {line : Symbol → Option Nat} {t : SymbolTable}
    {es : List (String × Symbol)} :
    ∀ f ∈ (mergeSymbols line t es).2, ∃ name, f.cause = .link (.conflict .symbols name) := by
  induction es generalizing t with
  | nil =>
    intro f hf
    cases hf
  | cons e es ih =>
    intro f hf
    obtain ⟨name, s⟩ := e
    cases hfound : t.get? name with
    | some found =>
      rw [mergeSymbols_taken (by simp [Table.contains, hfound])] at hf
      rcases List.mem_cons.mp hf with rfl | hf
      · exact ⟨name, rfl⟩
      · exact ih f hf
    | none =>
      rw [mergeSymbols_free hfound] at hf
      exact ih f hf

theorem mergeSymbols_merges (line : Symbol → Option Nat) (t : SymbolTable)
    (es : List (String × Symbol)) :
    MergesSymbols t.toList es (mergeSymbols line t es).1.toList
      (Fault.conflicts .symbols (mergeSymbols line t es).2) ∧
    Fault.conflicts .rules (mergeSymbols line t es).2 = [] := by
  induction es generalizing t with
  | nil => exact ⟨.refl _ _, rfl⟩
  | cons e es ih =>
    obtain ⟨name, s⟩ := e
    cases hfound : t.get? name with
    | some found =>
      have htaken : t.contains name = true := by simp [Table.contains, hfound]
      have hlost : MergesSymbols t.toList [(name, s)] t.toList [name] := by
        refine .lose ?_
        show (t.toList.find? fun x => x.1 = name).isSome
        rw [Table.find?_toList, hfound]
        rfl
      obtain ⟨hrest, hrules⟩ := ih t
      rw [mergeSymbols_taken htaken, conflicts_cons_self, conflicts_cons_of_ne (by decide)]
      exact ⟨hlost.trans hrest, hrules⟩
    | none =>
      have hkept : MergesSymbols t.toList [(name, s)] (t.insert name s).toList [] := by
        refine .keep (Table.insert_perm_of_free s hfound) fun n => ?_
        rw [List.find?_append, Table.find?_toList, Table.find?_toList]
        by_cases hn : n = name
        · rw [hn, Table.get?_insert_self, hfound]
          simp
        · rw [Table.get?_insert_of_ne t s hn, List.find?_singleton,
            if_neg (by simpa using Ne.symm hn), Option.or_none]
      obtain ⟨hrest, hrules⟩ := ih (t.insert name s)
      rw [mergeSymbols_free hfound]
      exact ⟨hkept.trans hrest, hrules⟩

theorem MergesSymbols.get? {t u : SymbolTable} {es : List (String × Symbol)}
    {conflicts : List String} (h : MergesSymbols t.toList es u.toList conflicts) (name : String) :
    u.get? name = (t.get? name).or ((es.find? fun e => e.1 = name).map (·.2)) := by
  have hfirst := h.first name
  rw [List.find?_append, Table.find?_toList, Table.find?_toList] at hfirst
  have hvalue := congrArg (Option.map (·.2)) hfirst
  rw [Option.map_or, Option.map_map, Option.map_map] at hvalue
  simpa [Function.comp_def] using hvalue

theorem get?_mergeSymbols (line : Symbol → Option Nat) (t u : SymbolTable) (name : String) :
    (mergeSymbols line t u.toList).1.get? name = (t.get? name).or (u.get? name) := by
  rw [(mergeSymbols_merges line t u.toList).1.get?, Table.find?_toList, Option.map_map]
  simp [Function.comp_def]

theorem mergeSymbols_disjoint (line : Symbol → Option Nat) {t : SymbolTable}
    {es : List (String × Symbol)} (hnodup : (es.map (·.1)).Nodup)
    (hfree : ∀ e ∈ es, t.get? e.1 = none) : (mergeSymbols line t es).2 = [] := by
  induction es generalizing t with
  | nil => rfl
  | cons e es ih =>
    obtain ⟨hfirst, hrest⟩ := List.nodup_cons.mp hnodup
    rw [mergeSymbols_free (hfree e List.mem_cons_self)]
    refine ih hrest fun x hx => ?_
    have hne : x.1 ≠ e.1 := fun heq => hfirst (List.mem_map.mpr ⟨x, hx, heq⟩)
    rw [Table.get?_insert_of_ne t _ hne]
    exact hfree x (List.mem_cons_of_mem e hx)

/-- The rules whose names are not taken, by the names given or by a rule before them. -/
def newRules (taken : List String) : List Rule → List Rule
  | [] => []
  | r :: rest =>
    if r.name ∈ taken then newRules taken rest else r :: newRules (taken ++ [r.name]) rest

theorem newRules_append (taken : List String) (rs qs : List Rule) :
    newRules taken (rs ++ qs) =
      newRules taken rs ++ newRules (taken ++ (newRules taken rs).map Rule.name) qs := by
  induction rs generalizing taken with
  | nil => simp [newRules]
  | cons r rs ih =>
    by_cases h : r.name ∈ taken
    · simp only [List.cons_append, newRules, if_pos h, ih]
    · simp only [List.cons_append, newRules, if_neg h, ih, List.map_cons, List.append_assoc,
        List.nil_append]

theorem newRules_of_nodup {taken : List String} {rs : List Rule}
    (h : (taken ++ rs.map Rule.name).Nodup) : newRules taken rs = rs := by
  induction rs generalizing taken with
  | nil => rfl
  | cons r rs ih =>
    have hfree : r.name ∉ taken := by
      intro hmem
      exact (List.nodup_append.mp h).2.2 _ hmem _ List.mem_cons_self rfl
    rw [List.map_cons, ← List.singleton_append, ← List.append_assoc] at h
    rw [newRules, if_neg hfree, ih h]

/-- What was left out before would be left out now. -/
theorem newRules_newRules {taken inner : List String} (h : ∀ n ∈ inner, n ∈ taken)
    (rs : List Rule) : newRules taken (newRules inner rs) = newRules taken rs := by
  induction rs generalizing taken inner with
  | nil => rfl
  | cons r rs ih =>
    by_cases htaken : r.name ∈ taken
    · have hmore : ∀ n ∈ inner ++ [r.name], n ∈ taken := by
        intro n hn
        rcases List.mem_append.mp hn with hn | hn
        · exact h n hn
        · rw [List.mem_singleton.mp hn]
          exact htaken
      by_cases hinner : r.name ∈ inner
      · rw [newRules, newRules, if_pos hinner, if_pos htaken, ih h]
      · rw [newRules, newRules, if_neg hinner, newRules, if_pos htaken, if_pos htaken, ih hmore]
    · have hinner : r.name ∉ inner := fun hmem => htaken (h _ hmem)
      have hmore : ∀ n ∈ inner ++ [r.name], n ∈ taken ++ [r.name] := by
        intro n hn
        rcases List.mem_append.mp hn with hn | hn
        · exact List.mem_append_left _ (h n hn)
        · exact List.mem_append_right _ hn
      rw [newRules, newRules, if_neg hinner, newRules, if_neg htaken, if_neg htaken, ih hmore]

section

variable {line : Rule → Option Nat} {b b' : Rulebook} {r r' : Rule}

theorem mergeRules_taken (h : b.offer r = .error r') (rs : List Rule) :
    mergeRules line b (r :: rs) =
      ((mergeRules line b rs).1,
        fault (line r') (.conflict .rules r'.name) :: (mergeRules line b rs).2) := by
  rw [mergeRules, h]

theorem mergeRules_free (h : b.offer r = .ok b') (rs : List Rule) :
    mergeRules line b (r :: rs) = mergeRules line b' rs := by
  rw [mergeRules, h]

end

theorem cause_of_mem_mergeRules {line : Rule → Option Nat} {b : Rulebook} {rs : List Rule} :
    ∀ f ∈ (mergeRules line b rs).2, ∃ name, f.cause = .link (.conflict .rules name) := by
  induction rs generalizing b with
  | nil =>
    intro f hf
    cases hf
  | cons r rs ih =>
    intro f hf
    cases hoffer : b.offer r with
    | error taken =>
      rw [mergeRules_taken hoffer] at hf
      rcases List.mem_cons.mp hf with rfl | hf
      · exact ⟨taken.name, rfl⟩
      · exact ih f hf
    | ok b' =>
      rw [mergeRules_free hoffer] at hf
      exact ih f hf

theorem mergeRules_merges (line : Rule → Option Nat) (b : Rulebook) (rs : List Rule) :
    MergesRules b.rules rs (mergeRules line b rs).1.rules
      (Fault.conflicts .rules (mergeRules line b rs).2) ∧
    Fault.conflicts .symbols (mergeRules line b rs).2 = [] ∧
    (mergeRules line b rs).1.rules = b.rules ++ newRules b.names rs := by
  induction rs generalizing b with
  | nil => exact ⟨.refl _ _, rfl, (List.append_nil _).symm⟩
  | cons r rs ih =>
    cases hoffer : b.offer r with
    | error r' =>
      obtain ⟨htaken, heq⟩ := Rulebook.get?_of_offer_error hoffer
      have hlost : MergesRules b.rules [r] b.rules [r.name] := .lose htaken
      have hmem : r.name ∈ b.names := by
        obtain ⟨q, hq, hname⟩ := List.find?_isSome.mp htaken
        exact List.mem_map.mpr ⟨q, hq, by simpa using hname⟩
      obtain ⟨hrest, hsymbols, horder⟩ := ih b
      rw [mergeRules_taken hoffer, heq, conflicts_cons_self, conflicts_cons_of_ne (by decide),
        newRules, if_pos hmem]
      exact ⟨hlost.trans hrest, hsymbols, horder⟩
    | ok b' =>
      obtain ⟨hfree, hrules⟩ := Rulebook.rules_of_offer hoffer
      have hkept : MergesRules b.rules [r] b'.rules [] := by
        rw [hrules]
        exact .keep (List.perm_append_singleton r b.rules) fun n => rfl
      have hnot : r.name ∉ b.names := by
        intro hmem
        obtain ⟨q, hq, hname⟩ := List.mem_map.mp hmem
        exact Rulebook.ne_of_get?_eq_none hfree q hq hname
      obtain ⟨hrest, hsymbols, horder⟩ := ih b'
      rw [mergeRules_free hoffer, newRules, if_neg hnot]
      refine ⟨hkept.trans hrest, hsymbols, ?_⟩
      rw [horder, Rulebook.names, hrules, List.map_append, List.append_assoc]
      rfl

theorem get?_mergeRules (line : Rule → Option Nat) (b b' : Rulebook) (name : String) :
    (mergeRules line b b'.rules).1.get? name = (b.get? name).or (b'.get? name) := by
  have hfirst := (mergeRules_merges line b b'.rules).1.first name
  rw [List.find?_append] at hfirst
  exact hfirst

theorem mergeRules_disjoint (line : Rule → Option Nat) {b : Rulebook} {rs : List Rule}
    (hnodup : (rs.map Rule.name).Nodup) (hfree : ∀ r ∈ rs, b.get? r.name = none) :
    (mergeRules line b rs).2 = [] := by
  induction rs generalizing b with
  | nil => rfl
  | cons r rs ih =>
    obtain ⟨hfirst, hrest⟩ := List.nodup_cons.mp hnodup
    rcases b.offer_cases r with ⟨q, hq, -⟩ | ⟨-, b', hoffer, hb'⟩
    · rw [hfree r List.mem_cons_self] at hq
      cases hq
    · rw [mergeRules_free hoffer]
      refine ih hrest fun x hx => ?_
      have hne : r.name ≠ x.name := fun heq => hfirst (List.mem_map.mpr ⟨x, hx, heq.symm⟩)
      have hnone : b.rules.find? (fun q => q.name = x.name) = none :=
        hfree x (List.mem_cons_of_mem r hx)
      show b'.rules.find? _ = none
      rw [hb', List.find?_append, hnone, List.find?_singleton, if_neg (by simpa using hne)]
      rfl

end Link

end Premise
