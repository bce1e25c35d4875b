/-!
Tables: finite maps from names to values, kept in ascending order of the names.

The order makes a table a canonical form (two tables with the same bindings are equal) and fixes
the order in which everything that is listed by name comes out. The operations are defined on the
plain list of entries, where recursive values keep their fields too.
-/

namespace Premise

namespace Entries

variable {α : Type}

/-- Each name comes before the names after it. -/
def Ascending (es : List (String × α)) : Prop := es.Pairwise fun a b => a.1 < b.1

def get? (es : List (String × α)) (name : String) : Option α :=
  match es with
  | [] => none
  | (n, a) :: rest => if n = name then some a else get? rest name

/-- Binds a name, in its place in the order, replacing what it was bound to. -/
def insert (es : List (String × α)) (name : String) (a : α) : List (String × α) :=
  match es with
  | [] => [(name, a)]
  | (n, b) :: rest =>
    if name < n then (name, a) :: (n, b) :: rest
    else if name = n then (name, a) :: rest
    else (n, b) :: insert rest name a

@[simp] theorem get?_insert_self (es : List (String × α)) (name : String) (a : α) :
    get? (insert es name a) name = some a := by
  induction es with
  | nil => simp [insert, get?]
  | cons e rest ih =>
    obtain ⟨n, b⟩ := e
    simp only [insert]
    split
    · simp [get?]
    · split
      · simp [get?]
      · rename_i h
        simp [get?, Ne.symm h, ih]

theorem get?_insert_of_ne (es : List (String × α)) {name other : String} (a : α)
    (h : other ≠ name) : get? (insert es name a) other = get? es other := by
  induction es with
  | nil => simp [insert, get?, Ne.symm h]
  | cons e rest ih =>
    obtain ⟨n, b⟩ := e
    simp only [insert]
    split
    · simp [get?, Ne.symm h]
    · split
      · rename_i hn
        subst hn
        simp [get?, Ne.symm h]
      · simp only [get?, ih]

theorem mem_insert {es : List (String × α)} {name : String} {a : α} {e : String × α}
    (h : e ∈ insert es name a) : e = (name, a) ∨ e ∈ es := by
  induction es with
  | nil => simpa [insert] using h
  | cons f rest ih =>
    obtain ⟨n, b⟩ := f
    simp only [insert] at h
    split at h
    · simpa using h
    · split at h
      · simp only [List.mem_cons] at h ⊢
        exact h.imp_right Or.inr
      · simp only [List.mem_cons] at h ⊢
        rcases h with h | h
        · exact Or.inr (Or.inl h)
        · exact (ih h).imp_right Or.inr

theorem lt_of_not_lt_of_ne {a b : String} (h : ¬ a < b) (hne : ¬ a = b) : b < a := by
  have hle : b ≤ a := String.not_lt.mp h
  exact Std.lt_of_le_of_ne hle (Ne.symm hne)

theorem Ascending.insert {es : List (String × α)} (h : Ascending es) (name : String) (a : α) :
    Ascending (Entries.insert es name a) := by
  induction es with
  | nil => simp [Entries.insert, Ascending]
  | cons e rest ih =>
    obtain ⟨n, b⟩ := e
    have hrest : Ascending rest := (List.pairwise_cons.mp h).2
    have hhead : ∀ x ∈ rest, n < x.1 := (List.pairwise_cons.mp h).1
    simp only [Entries.insert]
    split
    · rename_i hlt
      refine List.pairwise_cons.mpr ⟨fun x hx => ?_, h⟩
      rcases List.mem_cons.mp hx with hx | hx
      · subst hx; exact hlt
      · exact String.lt_trans hlt (hhead x hx)
    · split
      · rename_i _ heq
        subst heq
        exact List.pairwise_cons.mpr ⟨hhead, hrest⟩
      · rename_i hlt hne
        refine List.pairwise_cons.mpr ⟨fun x hx => ?_, ih hrest⟩
        rcases mem_insert hx with hx | hx
        · subst hx; exact lt_of_not_lt_of_ne hlt hne
        · exact hhead x hx

end Entries

/-- A finite map from names to values. -/
structure Table (α : Type) where
  entries : List (String × α)
  ascending : Entries.Ascending entries

namespace Table

variable {α β : Type}

def empty : Table α := ⟨[], List.Pairwise.nil⟩

instance : EmptyCollection (Table α) := ⟨empty⟩
instance : Inhabited (Table α) := ⟨empty⟩

instance [DecidableEq α] : DecidableEq (Table α) := fun s t =>
  decidable_of_iff (s.entries = t.entries) ⟨fun h => by cases s; cases t; simpa using h,
    fun h => h ▸ rfl⟩

def toList (t : Table α) : List (String × α) := t.entries

def names (t : Table α) : List String := t.entries.map (·.1)

def values (t : Table α) : List α := t.entries.map (·.2)

def size (t : Table α) : Nat := t.entries.length

def isEmpty (t : Table α) : Bool := t.entries.isEmpty

def get? (t : Table α) (name : String) : Option α := Entries.get? t.entries name

def contains (t : Table α) (name : String) : Bool := (t.get? name).isSome

def insert (t : Table α) (name : String) (a : α) : Table α :=
  ⟨Entries.insert t.entries name a, t.ascending.insert name a⟩

/-- Binds the names in order, so that a later entry replaces an earlier one of the same name. -/
def insertAll (t : Table α) (es : List (String × α)) : Table α :=
  es.foldl (fun t e => t.insert e.1 e.2) t

def ofList (es : List (String × α)) : Table α := empty.insertAll es

/-- Binds a name that is free; an entry for a taken name is handed back. -/
def offer (t : Table α) (name : String) (a : α) : Except α (Table α) :=
  if t.contains name then .error a else .ok (t.insert name a)

def map (f : α → β) (t : Table α) : Table β :=
  ⟨t.entries.map fun e => (e.1, f e.2), by
    simpa [Entries.Ascending, List.pairwise_map] using t.ascending⟩

@[simp] theorem get?_empty (name : String) : (empty : Table α).get? name = none := rfl

@[simp] theorem get?_insert_self (t : Table α) (name : String) (a : α) :
    (t.insert name a).get? name = some a := Entries.get?_insert_self ..

theorem get?_insert_of_ne (t : Table α) {name other : String} (a : α) (h : other ≠ name) :
    (t.insert name a).get? other = t.get? other := Entries.get?_insert_of_ne _ a h

theorem get?_map (f : α → β) (t : Table α) (name : String) :
    (t.map f).get? name = (t.get? name).map f := by
  obtain ⟨es, hes⟩ := t
  show Entries.get? (es.map fun e => (e.1, f e.2)) name = (Entries.get? es name).map f
  induction es with
  | nil => rfl
  | cons e rest ih =>
    obtain ⟨n, a⟩ := e
    simp only [List.map_cons, Entries.get?]
    split
    · rfl
    · exact ih (List.pairwise_cons.mp hes).2

end Table

/-- A set of names in ascending order. -/
abbrev NameSet := Table Unit

namespace NameSet

def add (s : NameSet) (name : String) : NameSet := s.insert name ()

end NameSet

end Premise
