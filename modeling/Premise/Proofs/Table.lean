import Mathlib.Data.List.Nodup
import Premise.Table

/-!
Tables by their lookups: two tables in which every name is bound alike are equal, and bindings of
different names can be made in either order, and across other ones that bind neither's names. By
their entries: a name that is bound has one entry, and binding a free one adds one.
-/

namespace Premise

namespace Entries

variable {α : Type}

theorem get?_eq_none_of_lt {es : List (String × α)} {name : String}
    (h : ∀ e ∈ es, name < e.1) : get? es name = none := by
  induction es with
  | nil => rfl
  | cons e rest ih =>
    have hhead : e.1 ≠ name := (String.ne_of_lt (h e List.mem_cons_self)).symm
    have hrest := ih fun x hx => h x (List.mem_cons_of_mem e hx)
    simp only [get?, hhead, if_false]
    exact hrest

theorem get?_cons_self (name : String) (a : α) (rest : List (String × α)) :
    get? ((name, a) :: rest) name = some a := by simp [get?]

theorem get?_cons_of_ne {name other : String} (a : α) (rest : List (String × α))
    (h : other ≠ name) : get? ((name, a) :: rest) other = get? rest other := by
  simp [get?, Ne.symm h]

/-- The order of the names leaves no choice in how a table is written down. -/
theorem eq_of_get? {es fs : List (String × α)} (hes : Ascending es) (hfs : Ascending fs)
    (h : ∀ name, get? es name = get? fs name) : es = fs := by
  induction es generalizing fs with
  | nil =>
    cases fs with
    | nil => rfl
    | cons f frest =>
      have hf := h f.1
      rw [show f = (f.1, f.2) from rfl, get?_cons_self] at hf
      cases hf
  | cons e erest ih =>
    obtain ⟨m, a⟩ := e
    cases fs with
    | nil =>
      have he := h m
      rw [get?_cons_self] at he
      cases he
    | cons f frest =>
      obtain ⟨n, b⟩ := f
      have hm : ∀ x ∈ erest, m < x.1 := (List.pairwise_cons.mp hes).1
      have hn : ∀ x ∈ frest, n < x.1 := (List.pairwise_cons.mp hfs).1
      have hmn : m = n := by
        refine Decidable.byContradiction fun hne => ?_
        have hgetm := h m
        have hgetn := h n
        rw [get?_cons_self, get?_cons_of_ne b frest hne] at hgetm
        rw [get?_cons_self, get?_cons_of_ne a erest (Ne.symm hne)] at hgetn
        by_cases hlt : m < n
        · rw [get?_eq_none_of_lt fun x hx => String.lt_trans hlt (hn x hx)] at hgetm
          cases hgetm
        · have hgt : n < m := lt_of_not_lt_of_ne hlt hne
          rw [get?_eq_none_of_lt fun x hx => String.lt_trans hgt (hm x hx)] at hgetn
          cases hgetn
      subst hmn
      have hab : a = b := by
        have hgetm := h m
        rw [get?_cons_self, get?_cons_self] at hgetm
        exact Option.some.inj hgetm
      subst hab
      have hrest : ∀ name, get? erest name = get? frest name := by
        intro name
        by_cases heq : name = m
        · subst heq
          rw [get?_eq_none_of_lt hm, get?_eq_none_of_lt hn]
        · have hname := h name
          rw [get?_cons_of_ne a erest heq, get?_cons_of_ne a frest heq] at hname
          exact hname
      rw [ih (List.pairwise_cons.mp hes).2 (List.pairwise_cons.mp hfs).2 hrest]

theorem find?_eq (es : List (String × α)) (name : String) :
    es.find? (fun e => e.1 = name) = (get? es name).map fun a => (name, a) := by
  induction es with
  | nil => rfl
  | cons e rest ih =>
    obtain ⟨n, a⟩ := e
    by_cases h : n = name
    · rw [h, get?_cons_self, List.find?_cons_of_pos (by simp)]
      rfl
    · rw [get?_cons_of_ne a rest (Ne.symm h), List.find?_cons_of_neg (by simpa using h), ih]

theorem insert_perm_of_free {es : List (String × α)} {name : String} (a : α)
    (h : get? es name = none) : (insert es name a).Perm ((name, a) :: es) := by
  induction es with
  | nil => exact .refl _
  | cons e rest ih =>
    obtain ⟨n, b⟩ := e
    have hne : name ≠ n := by
      intro heq
      rw [← heq, get?_cons_self] at h
      cases h
    rw [get?_cons_of_ne b rest hne] at h
    simp only [insert, if_neg hne]
    split
    · exact .refl _
    · exact ((ih h).cons (n, b)).trans (.swap _ _ _)

theorem mem_foldl_insert {es fs : List (String × α)} {e : String × α}
    (h : e ∈ fs.foldl (fun es f => insert es f.1 f.2) es) : e ∈ es ∨ e ∈ fs := by
  induction fs generalizing es with
  | nil => exact .inl h
  | cons f fs ih =>
    rcases ih h with hbefore | hrest
    · rcases mem_insert hbefore with rfl | hes
      · exact .inr List.mem_cons_self
      · exact .inl hes
    · exact .inr (List.mem_cons_of_mem f hrest)

theorem ascending_foldl_insert {es : List (String × α)} (h : Ascending es)
    (fs : List (String × α)) : Ascending (fs.foldl (fun es f => insert es f.1 f.2) es) := by
  induction fs generalizing es with
  | nil => exact h
  | cons f fs ih => exact ih (h.insert f.1 f.2)

/-- Of the bindings of one name the last counts. -/
theorem get?_foldl_insert (es fs : List (String × α)) (name : String) :
    get? (fs.foldl (fun es f => insert es f.1 f.2) es) name =
      ((fs.reverse.find? fun f => f.1 = name).map Prod.snd).or (get? es name) := by
  induction fs generalizing es with
  | nil => rfl
  | cons f fs ih =>
    rw [List.foldl_cons, ih, List.reverse_cons, List.find?_append, Option.map_or, Option.or_assoc]
    by_cases hname : f.1 = name
    · rw [List.find?_cons_of_pos (by simpa using hname), ← hname, get?_insert_self]
      rfl
    · rw [List.find?_cons_of_neg (by simpa using hname), get?_insert_of_ne es f.2 (Ne.symm hname)]
      rfl

end Entries

namespace Table

variable {α : Type}

theorem ext_get? {s t : Table α} (h : ∀ name, s.get? name = t.get? name) : s = t := by
  obtain ⟨es, hes⟩ := s
  obtain ⟨fs, hfs⟩ := t
  have heq : es = fs := Entries.eq_of_get? hes hfs h
  subst heq
  rfl

/-- What is bound after an insertion is the new entry, or was bound before. -/
theorem get?_insert_eq_some {t : Table α} {name other : String} {a b : α}
    (h : (t.insert name a).get? other = some b) :
    other = name ∧ b = a ∨ t.get? other = some b := by
  by_cases hname : other = name
  · rw [hname, get?_insert_self, Option.some_inj] at h
    exact .inl ⟨hname, h.symm⟩
  · rw [get?_insert_of_ne _ _ hname] at h
    exact .inr h

theorem insertAll_append (t : Table α) (es fs : List (String × α)) :
    t.insertAll (es ++ fs) = (t.insertAll es).insertAll fs := List.foldl_append

theorem insertAll_cons (t : Table α) (e : String × α) (es : List (String × α)) :
    t.insertAll (e :: es) = (t.insert e.1 e.2).insertAll es := rfl

theorem get?_insertAll_of_free (t : Table α) {es : List (String × α)} {name : String}
    (h : ∀ e ∈ es, e.1 ≠ name) : (t.insertAll es).get? name = t.get? name := by
  induction es generalizing t with
  | nil => rfl
  | cons e es ih =>
    rw [insertAll_cons, ih _ fun x hx => h x (List.mem_cons_of_mem e hx)]
    exact get?_insert_of_ne t e.2 (Ne.symm (h e List.mem_cons_self))

theorem get?_insertAll_eq_some {t : Table α} {es : List (String × α)} {name : String} {a : α}
    (h : (t.insertAll es).get? name = some a) : (name, a) ∈ es ∨ t.get? name = some a := by
  induction es generalizing t with
  | nil => exact .inr h
  | cons e es ih =>
    rcases ih h with hlater | hhere
    · exact .inl (List.mem_cons_of_mem e hlater)
    · rcases get?_insert_eq_some hhere with ⟨rfl, rfl⟩ | hbefore
      · exact .inl List.mem_cons_self
      · exact .inr hbefore

/-- A name that is bound to one thing only is bound to that, however often. -/
theorem get?_insertAll_of_unique (t : Table α) {es : List (String × α)} {name : String} {a : α}
    (h : (name, a) ∈ es) (hunique : ∀ e ∈ es, e.1 = name → e.2 = a) :
    (t.insertAll es).get? name = some a := by
  induction es generalizing t with
  | nil => cases h
  | cons e es ih =>
    rw [insertAll_cons]
    by_cases hlater : (name, a) ∈ es
    · exact ih _ hlater fun x hx => hunique x (List.mem_cons_of_mem e hx)
    · have hfree : ∀ x ∈ es, x.1 ≠ name := by
        intro x hx heq
        refine hlater ?_
        rwa [← heq, ← hunique x (List.mem_cons_of_mem e hx) heq]
      rw [get?_insertAll_of_free _ hfree]
      cases (List.mem_cons.mp h).resolve_right hlater
      exact get?_insert_self ..

/-- What a name that is bound anew was bound to before does not matter. -/
theorem get?_insertAll_of_bound (t u : Table α) {es : List (String × α)} {name : String}
    (h : ∃ e ∈ es, e.1 = name) : (t.insertAll es).get? name = (u.insertAll es).get? name := by
  induction es generalizing t u with
  | nil =>
    obtain ⟨e, he, _⟩ := h
    cases he
  | cons e es ih =>
    rw [insertAll_cons, insertAll_cons]
    by_cases hlater : ∃ x ∈ es, x.1 = name
    · exact ih _ _ hlater
    · have hfree : ∀ x ∈ es, x.1 ≠ name := fun x hx heq => hlater ⟨x, hx, heq⟩
      have hname : e.1 = name := by
        obtain ⟨x, hx, hxname⟩ := h
        rcases List.mem_cons.mp hx with hx | hx
        · rw [← hx]
          exact hxname
        · exact absurd hxname (hfree x hx)
      rw [get?_insertAll_of_free _ hfree, get?_insertAll_of_free _ hfree, ← hname,
        get?_insert_self, get?_insert_self]

/-- No name is among the bindings of both lists. -/
def Apart (es fs : List (String × α)) : Prop := ∀ e ∈ es, ∀ f ∈ fs, e.1 ≠ f.1

theorem Apart.symm {es fs : List (String × α)} (h : Apart es fs) : Apart fs es :=
  fun f hf e he heq => h e he f hf heq.symm

theorem insertAll_comm (t : Table α) {es fs : List (String × α)} (h : Apart es fs) :
    (t.insertAll es).insertAll fs = (t.insertAll fs).insertAll es := by
  refine ext_get? fun name => ?_
  by_cases hes : ∃ e ∈ es, e.1 = name
  · obtain ⟨e, he, hname⟩ := hes
    have hfree : ∀ f ∈ fs, f.1 ≠ name := fun f hf heq => h e he f hf (hname.trans heq.symm)
    rw [get?_insertAll_of_free _ hfree]
    exact get?_insertAll_of_bound t (t.insertAll fs) ⟨e, he, hname⟩
  · have hfree : ∀ e ∈ es, e.1 ≠ name := fun e he heq => hes ⟨e, he, heq⟩
    rw [get?_insertAll_of_free (t.insertAll fs) hfree]
    by_cases hfs : ∃ f ∈ fs, f.1 = name
    · exact get?_insertAll_of_bound (t.insertAll es) t hfs
    · have hfree' : ∀ f ∈ fs, f.1 ≠ name := fun f hf heq => hfs ⟨f, hf, heq⟩
      rw [get?_insertAll_of_free _ hfree', get?_insertAll_of_free _ hfree',
        get?_insertAll_of_free _ hfree]

instance (es fs : List (String × α)) : Decidable (Apart es fs) :=
  inferInstanceAs (Decidable (∀ e ∈ es, ∀ f ∈ fs, e.1 ≠ f.1))

theorem apart_flatMap {β : Type} {xs : List β} {g : β → List (String × α)}
    {fs : List (String × α)} (h : ∀ x ∈ xs, Apart (g x) fs) : Apart (xs.flatMap g) fs := by
  intro e he
  obtain ⟨x, hx, hex⟩ := List.mem_flatMap.mp he
  exact h x hx e hex

/-- Bindings change places across others that both are apart from. -/
theorem insertAll_swap (t : Table α) {es mid fs : List (String × α)} (hef : Apart es fs)
    (hem : Apart es mid) (hmf : Apart mid fs) :
    t.insertAll (fs ++ mid ++ es) = t.insertAll (es ++ mid ++ fs) := by
  have hfront : t.insertAll (fs ++ mid ++ es) = ((t.insertAll fs).insertAll es).insertAll mid := by
    rw [insertAll_append, insertAll_append]
    exact insertAll_comm _ hem.symm
  have hback : t.insertAll (es ++ mid ++ fs) = ((t.insertAll es).insertAll fs).insertAll mid := by
    rw [insertAll_append, insertAll_append]
    exact insertAll_comm _ hmf
  rw [hfront, hback, insertAll_comm t hef]

/-! ### Entries -/

theorem find?_toList (t : Table α) (name : String) :
    t.toList.find? (fun e => e.1 = name) = (t.get? name).map fun a => (name, a) :=
  Entries.find?_eq _ _

theorem insert_perm_of_free {t : Table α} {name : String} (a : α) (h : t.get? name = none) :
    (t.insert name a).toList.Perm ((name, a) :: t.toList) :=
  Entries.insert_perm_of_free a h

theorem size_insert_of_free {t : Table α} {name : String} (a : α) (h : t.get? name = none) :
    (t.insert name a).size = t.size + 1 :=
  (insert_perm_of_free a h).length_eq

theorem nodup_names (t : Table α) : (t.toList.map (·.1)).Nodup :=
  List.pairwise_map.mpr (t.ascending.imp fun h => String.ne_of_lt h)

theorem mem_toList {t : Table α} {e : String × α} :
    e ∈ t.toList ↔ t.get? e.1 = some e.2 := by
  constructor
  · intro h
    have hfind : ∃ x, t.toList.find? (fun x => x.1 = e.1) = some x :=
      Option.isSome_iff_exists.mp (List.find?_isSome.mpr ⟨e, h, by simp⟩)
    obtain ⟨x, hx⟩ := hfind
    have hname : x.1 = e.1 := by simpa using List.find?_some hx
    have heq : x = e :=
      List.inj_on_of_nodup_map t.nodup_names (List.mem_of_find?_eq_some hx) h hname
    rw [find?_toList, heq] at hx
    obtain ⟨a, ha, hpair⟩ := Option.map_eq_some_iff.mp hx
    rw [ha, ← hpair]
  · intro h
    have hfind := t.find?_toList e.1
    rw [h] at hfind
    exact List.mem_of_find?_eq_some hfind

theorem ofList_toList (t : Table α) : ofList t.toList = t := by
  refine ext_get? fun name => ?_
  cases hbound : t.get? name with
  | some a =>
    refine get?_insertAll_of_unique empty (mem_toList.mpr hbound) fun e he hname => ?_
    have hsame := mem_toList.mp he
    rw [hname, hbound] at hsame
    exact (Option.some.inj hsame).symm
  | none =>
    refine (get?_insertAll_of_free empty fun e he hname => ?_).trans rfl
    have hsame := mem_toList.mp he
    rw [hname, hbound] at hsame
    cases hsame

/-! ### Names -/

theorem mem_names {t : Table α} {name : String} : name ∈ t.names ↔ t.contains name = true := by
  unfold names contains
  rw [List.mem_map, Option.isSome_iff_exists]
  constructor
  · rintro ⟨e, he, rfl⟩
    exact ⟨e.2, mem_toList.mp he⟩
  · rintro ⟨a, ha⟩
    exact ⟨(name, a), mem_toList.mpr ha, rfl⟩

theorem contains_insert {t : Table α} {name other : String} {a : α} :
    (t.insert name a).contains other = true ↔ other = name ∨ t.contains other = true := by
  unfold contains
  by_cases heq : other = name
  · simp [heq]
  · simp [get?_insert_of_ne t a heq, heq]

theorem names_subset_insert (t : Table α) (name : String) (a : α) :
    t.names ⊆ (t.insert name a).names := by
  intro other hother
  rw [mem_names] at hother ⊢
  unfold contains at hother ⊢
  by_cases heq : other = name
  · rw [heq, get?_insert_self]
    rfl
  · rwa [get?_insert_of_ne t a heq]

theorem names_subset_insertAll (t : Table α) (es : List (String × α)) :
    t.names ⊆ (t.insertAll es).names := by
  induction es generalizing t with
  | nil => exact fun _ => id
  | cons e es ih =>
    rw [insertAll_cons]
    exact fun name hname => ih _ (t.names_subset_insert e.1 e.2 hname)

end Table

end Premise
