import Mathlib.Data.List.Chain
import Mathlib.Data.List.Induction
import Mathlib.Data.List.Perm.Subperm
import Mathlib.Logic.Relation
import Premise.Graph.Path
import Premise.Proofs.Table

/-!
Breadth-first search finds shortest paths.

Every found node has a level: how many nodes precede it on the way back to the start. The queue is
in ascending order of levels, which are that of the node being left and the one above it, and an
edge from a node that was left leads to a found node, at most one level higher (`Layered`). A walk
no longer than the level being left says comes to found nodes only; so a target that was not found
before has no shorter walk than the one that finds it.

The way back comes by one node of each level, so it never comes by a node twice, and takes no more
steps than there are found nodes. These are found over different edges, which bounds the steps of
the search.
-/

namespace Premise.Graph

variable {g : Graph} {source target : String}

/-! ### Walks -/

def Leads (g : Graph) (a b : String) : Prop := ∃ label, ⟨a, label, b⟩ ∈ g.edgeList

/-- Nodes from one to another, each joined to the next by an edge. -/
structure Walk (g : Graph) (source target : String) (nodes : List String) : Prop where
  first : nodes.head? = some source
  last : nodes.getLast? = some target
  edges : nodes.IsChain g.Leads

/-- A walk that comes by no node twice, and than which none is shorter. -/
structure Shortest (g : Graph) (source target : String) (nodes : List String) : Prop where
  walk : g.Walk source target nodes
  nodup : nodes.Nodup
  least : ∀ other, g.Walk source target other → nodes.length ≤ other.length

/-- The edges that leave a node, in the order of their labels. -/
def outgoing (g : Graph) (name : String) : List (String × String) :=
  ((g.edges.get? name).map Table.toList).getD []

theorem neighbors_eq (g : Graph) (name : String) :
    g.neighbors name = (g.outgoing name).map Prod.snd := by
  unfold neighbors outgoing
  cases g.edges.get? name <;> rfl

theorem mem_outgoing {a b label : String} :
    (label, b) ∈ g.outgoing a ↔ ⟨a, label, b⟩ ∈ g.edgeList := by
  unfold outgoing edgeList
  constructor
  · intro h
    cases htargets : g.edges.get? a with
    | none =>
      rw [htargets] at h
      cases h
    | some targets =>
      rw [htargets] at h
      exact List.mem_flatMap.mpr ⟨(a, targets), Table.mem_toList.mpr htargets,
        List.mem_map.mpr ⟨(label, b), h, rfl⟩⟩
  · intro h
    obtain ⟨⟨first, targets⟩, htargets, h⟩ := List.mem_flatMap.mp h
    obtain ⟨edge, hmem, heq⟩ := List.mem_map.mp h
    cases heq
    rw [Table.mem_toList.mp htargets]
    exact hmem

theorem mem_neighbors {a b : String} : b ∈ g.neighbors a ↔ g.Leads a b := by
  rw [neighbors_eq]
  constructor
  · intro h
    obtain ⟨⟨label, target⟩, hmem, rfl⟩ := List.mem_map.mp h
    exact ⟨label, mem_outgoing.mp hmem⟩
  · rintro ⟨label, h⟩
    exact List.mem_map.mpr ⟨(label, b), mem_outgoing.mpr h, rfl⟩

theorem length_edgeList (g : Graph) : g.edgeList.length = g.edgeCount := by
  unfold edgeList edgeCount Table.values
  rw [List.length_flatMap, List.map_map, ← List.sum_eq_foldl]
  congr 1
  refine List.map_congr_left fun e _ => ?_
  exact List.length_map _

namespace Walk

variable {a b : String} {nodes : List String}

theorem single (g : Graph) (a : String) : g.Walk a a [a] := ⟨rfl, rfl, .singleton a⟩

theorem snoc (h : g.Walk source a nodes) (hedge : g.Leads a b) :
    g.Walk source b (nodes ++ [b]) := by
  refine ⟨?_, List.getLast?_concat, List.isChain_append.mpr ⟨h.edges, .singleton b, ?_⟩⟩
  · rw [List.head?_append, h.first]
    rfl
  · intro x hx y hy
    rw [h.last] at hx
    cases hx
    cases hy
    exact hedge

/-- What goes before the last node is a walk to a node from which an edge leads on. -/
theorem of_snoc (h : g.Walk source b (nodes ++ [a])) :
    a = b ∧ (nodes = [] ∧ b = source ∨ ∃ last, g.Walk source last nodes ∧ g.Leads last b) := by
  have heq : a = b := by simpa using h.last
  refine ⟨heq, ?_⟩
  cases hlast : nodes.getLast? with
  | none =>
    have hnil : nodes = [] := List.getLast?_eq_none_iff.mp hlast
    subst hnil
    exact .inl ⟨rfl, heq.symm.trans (Option.some.inj h.first)⟩
  | some last =>
    obtain ⟨hedges, -, hjoin⟩ := List.isChain_append.mp h.edges
    have hfirst : nodes.head? = some source := by
      have hall := h.first
      cases nodes with
      | nil => cases hlast
      | cons x xs => exact hall
    exact .inr ⟨last, ⟨hfirst, hlast, hedges⟩, hjoin last hlast b (by rw [heq]; rfl)⟩

theorem reaches (h : g.Walk source target nodes) : Relation.ReflTransGen g.Leads source target := by
  induction nodes using List.reverseRecOn generalizing target with
  | nil => cases h.first
  | append_singleton nodes a ih =>
    obtain ⟨-, ⟨-, rfl⟩ | ⟨last, hwalk, hedge⟩⟩ := h.of_snoc
    · exact .refl
    · exact (ih hwalk).tail hedge

end Walk

/-! ### Levels -/

def Search.Found (s : Search) (name : String) : Prop := ∃ origin, s.previous.get? name = some origin

namespace Search

variable {s : Search} {name other origin : String}

theorem contains_iff : s.previous.contains name = true ↔ s.Found name := Option.isSome_iff_exists

theorem found_start : (start source).Found name ↔ name = source := by
  constructor
  · rintro ⟨origin, horigin⟩
    rcases Table.get?_insert_eq_some horigin with ⟨heq, -⟩ | hnone
    · exact heq
    · cases hnone
  · rintro rfl
    exact ⟨name, Table.get?_insert_self ..⟩

theorem found_discover : (s.discover origin name).Found other ↔ other = name ∨ s.Found other := by
  constructor
  · rintro ⟨found, hfound⟩
    rcases Table.get?_insert_eq_some hfound with ⟨heq, -⟩ | hold
    · exact .inl heq
    · exact .inr ⟨found, hold⟩
  · intro h
    by_cases heq : other = name
    · rw [heq]
      exact ⟨origin, Table.get?_insert_self ..⟩
    · obtain ⟨found, hfound⟩ := h.resolve_left heq
      exact ⟨found, (Table.get?_insert_of_ne _ _ heq).trans hfound⟩

theorem size_discover (h : ¬s.Found name) :
    (s.discover origin name).previous.size = s.previous.size + 1 :=
  Table.size_insert_of_free origin (Option.eq_none_iff_forall_ne_some.mpr fun o ho => h ⟨o, ho⟩)

end Search

/-- A search that leaves a node, with the nodes next to it that it has not looked at yet. -/
structure Layered (g : Graph) (source : String) (level : String → Nat) (current : String)
    (pending : List String) (s : Search) : Prop where
  start : s.Found source ∧ level source = 0
  back : ∀ name origin, s.previous.get? name = some origin → name ≠ source →
    s.Found origin ∧ g.Leads origin name ∧ level name = level origin + 1
  queued : ∀ name ∈ s.queue, s.Found name ∧ level current ≤ level name
  ascending : s.queue.Pairwise fun a b => level a ≤ level b
  highest : ∀ name, s.Found name → level name ≤ level current + 1
  left : ∀ name next, s.Found name → name ∉ s.queue → g.Leads name next →
    name = current ∧ next ∈ pending ∨ s.Found next ∧ level next ≤ level name + 1
  pending : ∀ next ∈ pending, g.Leads current next
  current : s.Found current

namespace Layered

variable {level : String → Nat} {current name : String} {pending nodes : List String} {s : Search}

theorem start_search (g : Graph) (source : String) :
    Layered g source (fun _ => 0) source [] (.start source) where
  start := ⟨Search.found_start.mpr rfl, rfl⟩
  back := fun name origin h hne => absurd (Search.found_start.mp ⟨origin, h⟩) hne
  queued := by
    intro name hname
    rw [List.mem_singleton.mp hname]
    exact ⟨Search.found_start.mpr rfl, Nat.le_refl 0⟩
  ascending := List.pairwise_singleton ..
  highest := fun _ _ => Nat.zero_le _
  left := by
    intro name next hname hqueue hedge
    rw [Search.found_start.mp hname] at hqueue
    exact absurd List.mem_cons_self hqueue
  pending := fun _ hnone => absurd hnone List.not_mem_nil
  current := Search.found_start.mpr rfl

/-- The first node of the queue is left next. -/
theorem leave {previous : Table String} {next : String} {queue : List String}
    (h : Layered g source level current [] ⟨previous, next :: queue⟩) :
    Layered g source level next (g.neighbors next) ⟨previous, queue⟩ where
  start := h.start
  back := h.back
  queued := fun name hname => ⟨(h.queued name (List.mem_cons_of_mem next hname)).1,
    (List.pairwise_cons.mp h.ascending).1 name hname⟩
  ascending := (List.pairwise_cons.mp h.ascending).2
  highest := by
    intro name hname
    have hhighest := h.highest name hname
    have hnext := (h.queued next List.mem_cons_self).2
    omega
  left := by
    intro name further hname hqueue hedge
    by_cases heq : name = next
    · rw [heq] at hedge
      exact .inl ⟨heq, mem_neighbors.mpr hedge⟩
    · rcases h.left name further hname (by simpa [heq] using hqueue) hedge with ⟨-, hnone⟩ | hfound
      · cases hnone
      · exact .inr hfound
  pending := fun _ => mem_neighbors.mp
  current := (h.queued next List.mem_cons_self).1

/-- A node that was found before is passed over. -/
theorem pass (h : Layered g source level current (name :: pending) s) (hname : s.Found name) :
    Layered g source level current pending s where
  start := h.start
  back := h.back
  queued := h.queued
  ascending := h.ascending
  highest := h.highest
  left := by
    intro other next hother hqueue hedge
    rcases h.left other next hother hqueue hedge with ⟨rfl, hnext⟩ | hfound
    · rcases List.mem_cons.mp hnext with rfl | hnext
      · exact .inr ⟨hname, h.highest next hname⟩
      · exact .inl ⟨rfl, hnext⟩
    · exact .inr hfound
  pending := fun next hnext => h.pending next (List.mem_cons_of_mem name hnext)
  current := h.current

/-- A node that was not found before is put one level above the node being left. -/
theorem discover {level' : String → Nat} (h : Layered g source level current (name :: pending) s)
    (hname : level' name = level current + 1)
    (hsame : ∀ other, s.Found other → level' other = level other) :
    Layered g source level' current pending (s.discover current name) where
  start := ⟨Search.found_discover.mpr (.inr h.start.1), (hsame source h.start.1).trans h.start.2⟩
  back := by
    intro other origin horigin hsource
    rcases Table.get?_insert_eq_some horigin with ⟨rfl, rfl⟩ | hold
    · exact ⟨Search.found_discover.mpr (.inr h.current), h.pending other List.mem_cons_self,
        by rw [hname, hsame origin h.current]⟩
    · obtain ⟨hfound, hedge, hstep⟩ := h.back other origin hold hsource
      exact ⟨Search.found_discover.mpr (.inr hfound), hedge,
        by rw [hsame other ⟨origin, hold⟩, hsame origin hfound, hstep]⟩
  queued := by
    intro other hother
    rw [hsame current h.current]
    rcases List.mem_append.mp hother with hother | hother
    · obtain ⟨hfound, hhigher⟩ := h.queued other hother
      rw [hsame other hfound]
      exact ⟨Search.found_discover.mpr (.inr hfound), hhigher⟩
    · rw [List.mem_singleton.mp hother]
      exact ⟨Search.found_discover.mpr (.inl rfl), by omega⟩
  ascending := by
    refine List.pairwise_append.mpr ⟨?_, List.pairwise_singleton .., fun a ha b hb => ?_⟩
    · refine h.ascending.imp_of_mem fun {a b} ha hb hab => ?_
      rw [hsame a (h.queued a ha).1, hsame b (h.queued b hb).1]
      exact hab
    · rw [List.mem_singleton.mp hb, hname, hsame a (h.queued a ha).1]
      exact h.highest a (h.queued a ha).1
  highest := by
    intro other hother
    rw [hsame current h.current]
    rcases Search.found_discover.mp hother with rfl | hfound
    · exact Nat.le_of_eq hname
    · rw [hsame other hfound]
      exact h.highest other hfound
  left := by
    intro other next hother hqueue hedge
    obtain ⟨hold, hlast⟩ := not_or.mp (mt List.mem_append.mpr hqueue)
    rcases Search.found_discover.mp hother with rfl | hfound
    · exact absurd List.mem_cons_self hlast
    · rw [hsame other hfound]
      rcases h.left other next hfound hold hedge with ⟨rfl, hnext⟩ | ⟨hnext, hhigh⟩
      · rcases List.mem_cons.mp hnext with rfl | hnext
        · exact .inr ⟨Search.found_discover.mpr (.inl rfl), Nat.le_of_eq hname⟩
        · exact .inl ⟨rfl, hnext⟩
      · exact .inr ⟨Search.found_discover.mpr (.inr hnext), (hsame next hnext).trans_le hhigh⟩
  pending := fun next hnext => h.pending next (List.mem_cons_of_mem name hnext)
  current := Search.found_discover.mpr (.inr h.current)

/-- Looking at the nodes next to the one being left stops at the target, or comes to their end. Each
node that it finds joins the queue. -/
theorem look (h : Layered g source level current pending s) (hnew : ¬s.Found target) :
    ∃ level' rest, Layered g source level' current rest (s.look target current pending) ∧
      ((s.look target current pending).Found target → level' target = level current + 1) ∧
      (¬(s.look target current pending).Found target → rest = []) ∧
      (s.look target current pending).previous.size + s.queue.length =
        s.previous.size + (s.look target current pending).queue.length := by
  induction pending generalizing level s with
  | nil => exact ⟨level, [], h, fun hfound => absurd hfound hnew, fun _ => rfl, rfl⟩
  | cons name pending ih =>
    unfold Search.look
    by_cases hname : s.Found name
    · rw [if_pos (Search.contains_iff.mpr hname)]
      exact ih (h.pass hname) hnew
    · rw [if_neg (mt Search.contains_iff.mp hname)]
      let level' := Function.update level name (level current + 1)
      have hlevel : level' name = level current + 1 := Function.update_self ..
      have hsame : ∀ other, s.Found other → level' other = level other := fun other hother =>
        Function.update_of_ne (fun heq : other = name => hname (heq ▸ hother)) ..
      have hnext := h.discover hlevel hsame
      have hsize := @Search.size_discover s name current hname
      have hlength : (s.discover current name).queue.length = s.queue.length + 1 :=
        List.length_append
      by_cases heq : name = target
      · rw [if_pos heq]
        refine ⟨level', pending, hnext, fun _ => heq ▸ hlevel, fun hnot => absurd ?_ hnot, by omega⟩
        exact Search.found_discover.mpr (.inl heq.symm)
      · rw [if_neg heq]
        have hstill : ¬(s.discover current name).Found target := fun hfound =>
          (Search.found_discover.mp hfound).elim (Ne.symm heq) hnew
        obtain ⟨last, rest, hlayered, hfound, hend, hcount⟩ := ih hnext hstill
        rw [hsame current h.current] at hfound
        exact ⟨last, rest, hlayered, hfound, hend, by omega⟩

/-! ### What the levels say -/

/-- A walk up to the level of the node being left has only found nodes, none above its length. -/
theorem level_lt_length (h : Layered g source level current pending s)
    (hwalk : g.Walk source name nodes) (hshort : nodes.length ≤ level current + 1) :
    s.Found name ∧ level name < nodes.length := by
  induction nodes using List.reverseRecOn generalizing name with
  | nil => cases hwalk.first
  | append_singleton nodes a ih =>
    have hlength : (nodes ++ [a]).length = nodes.length + 1 := List.length_append
    obtain ⟨-, ⟨-, rfl⟩ | ⟨last, hbefore, hedge⟩⟩ := hwalk.of_snoc
    · have hzero := h.start.2
      exact ⟨h.start.1, by omega⟩
    · obtain ⟨hfound, hlower⟩ := ih hbefore (by omega)
      -- nodes below the level of the one being left have been left themselves
      have hqueue : last ∉ s.queue := by
        intro hmem
        have := (h.queued last hmem).2
        omega
      rcases h.left last name hfound hqueue hedge with ⟨rfl, -⟩ | ⟨hname, hstep⟩
      · omega
      · exact ⟨hname, by omega⟩

/-- From a found node the way back is a walk from the start, on which each level has one node. -/
theorem wayBack (h : Layered g source level current pending s) {steps : Nat} (path : List String)
    (hname : s.Found name) (hsteps : level name < steps) :
    ∃ nodes, wayBack s.previous source steps name path = .ok (nodes ++ path) ∧
      g.Walk source name nodes ∧ nodes.length = level name + 1 ∧ nodes.Nodup ∧
      ∀ n ∈ nodes, s.Found n ∧ level n ≤ level name := by
  induction steps generalizing name path with
  | zero => omega
  | succ steps ih =>
    unfold Graph.wayBack
    by_cases hsource : name = source
    · rw [if_pos hsource]
      have hzero := h.start.2
      refine ⟨[name], rfl, ?_, ?_, List.nodup_singleton name, fun n hn => ?_⟩
      · rw [hsource]
        exact .single g source
      · rw [hsource, hzero]
        rfl
      · rw [List.mem_singleton.mp hn]
        exact ⟨hname, Nat.le_refl _⟩
    · rw [if_neg hsource]
      obtain ⟨origin, horigin⟩ := hname
      obtain ⟨hfound, hedge, hlevel⟩ := h.back name origin horigin hsource
      obtain ⟨nodes, hnodes, hwalk, hlength, hnodup, hlower⟩ :=
        ih (name :: path) hfound (by omega)
      refine ⟨nodes ++ [name], ?_, hwalk.snoc hedge, ?_, ?_, fun n hn => ?_⟩
      · rw [List.append_assoc]
        simp only [horigin, hnodes]
        rfl
      · rw [List.length_append, hlength, hlevel]
        rfl
      · refine List.nodup_append.mpr ⟨hnodup, List.nodup_singleton name, fun a ha b hb hab => ?_⟩
        have hbelow := (hlower a ha).2
        rw [hab, List.mem_singleton.mp hb] at hbelow
        omega
      · rcases List.mem_append.mp hn with hn | hn
        · obtain ⟨hn, hbelow⟩ := hlower n hn
          exact ⟨hn, by omega⟩
        · rw [List.mem_singleton.mp hn]
          exact ⟨⟨origin, horigin⟩, Nat.le_refl _⟩

theorem length_le_size {nodes : List String} (hnodup : nodes.Nodup)
    (hfound : ∀ n ∈ nodes, s.Found n) : nodes.length ≤ s.previous.size := by
  have hsub : nodes ⊆ s.previous.toList.map (·.1) := by
    intro n hn
    obtain ⟨origin, horigin⟩ := hfound n hn
    exact List.mem_map.mpr ⟨(n, origin), Table.mem_toList.mpr horigin, rfl⟩
  have hlength := (List.Nodup.subperm hnodup hsub).length_le
  rw [List.length_map] at hlength
  exact hlength

/-- Every found node but the start was found over an edge of its own. -/
theorem size_le (h : Layered g source level current pending s) :
    s.previous.size ≤ g.edgeCount + 1 := by
  have hsub : s.previous.toList.map (·.1) ⊆ source :: g.edgeList.map Edge.target := by
    intro n hn
    obtain ⟨⟨name, origin⟩, hmem, rfl⟩ := List.mem_map.mp hn
    by_cases hsource : name = source
    · rw [hsource]
      exact List.mem_cons_self
    · obtain ⟨-, ⟨label, hedge⟩, -⟩ := h.back name origin (Table.mem_toList.mp hmem) hsource
      exact List.mem_cons_of_mem source (List.mem_map.mpr ⟨_, hedge, rfl⟩)
  have hlength := (List.Nodup.subperm (Table.nodup_names _) hsub).length_le
  rw [List.length_map, List.length_cons, List.length_map, length_edgeList] at hlength
  exact hlength

/-- Where nothing is left in the queue, all that can be reached is found. -/
theorem found_of_reaches {previous : Table String}
    (h : Layered g source level current [] ⟨previous, []⟩)
    (hreaches : Relation.ReflTransGen g.Leads source name) : Search.Found ⟨previous, []⟩ name := by
  induction hreaches with
  | refl => exact h.start.1
  | tail _ hedge ih =>
    rcases h.left _ _ ih List.not_mem_nil hedge with ⟨-, hnone⟩ | ⟨hfound, -⟩
    · cases hnone
    · exact hfound

/-- A target that was not found before the current node was left is found on a shortest path. -/
theorem shortest {s' : Search} {level' : String → Nat} {rest : List String}
    (h : Layered g source level current pending s) (hnew : ¬s.Found target)
    (h' : Layered g source level' current rest s') (hfound : s'.Found target)
    (hlevel : level' target = level current + 1) :
    ∃ nodes, Graph.wayBack s'.previous source s'.previous.size target [] = .ok nodes ∧
      g.Shortest source target nodes := by
  obtain ⟨trail, -, -, hlength, hnodup, hall⟩ := h'.wayBack [] hfound (Nat.lt_succ_self _)
  have hsize := length_le_size hnodup fun n hn => (hall n hn).1
  have hsteps : level' target < s'.previous.size := by omega
  obtain ⟨nodes, hnodes, hwalk, hlength, hnodup, -⟩ := h'.wayBack [] hfound hsteps
  rw [List.append_nil] at hnodes
  refine ⟨nodes, hnodes, hwalk, hnodup, fun other hother => ?_⟩
  by_contra hshorter
  exact hnew (h.level_lt_length hother (by omega)).1

end Layered

/-! ### The search -/

/-- What a search is right to answer. -/
def Answers (g : Graph) (source target : String) : Option (List String) → Prop
  | some nodes => g.Shortest source target nodes
  | none => ¬Relation.ReflTransGen g.Leads source target

theorem answers_of_layered {level : String → Nat} {current : String} {steps : Nat} {s : Search}
    (h : Layered g source level current [] s) (hnew : ¬s.Found target)
    (hsteps : steps + s.previous.size = g.edgeCount + 1 + s.queue.length) :
    ∃ answer, searchFrom g source target steps s = .ok answer ∧ g.Answers source target answer := by
  induction steps generalizing level current s with
  | zero =>
    obtain ⟨previous, queue⟩ := s
    cases queue with
    | nil => exact ⟨none, rfl, fun hreaches => hnew (h.found_of_reaches hreaches)⟩
    | cons next queue =>
      have hsize := h.size_le
      rw [List.length_cons] at hsteps
      omega
  | succ steps ih =>
    obtain ⟨previous, queue⟩ := s
    cases queue with
    | nil => exact ⟨none, rfl, fun hreaches => hnew (h.found_of_reaches hreaches)⟩
    | cons next queue =>
      have hleft := h.leave
      obtain ⟨level', rest, hlayered, hlevel, hend, hcount⟩ := hleft.look hnew
      unfold searchFrom
      by_cases hfound : (Search.look target next ⟨previous, queue⟩ (g.neighbors next)).Found target
      · obtain ⟨nodes, hnodes, hshortest⟩ :=
          hleft.shortest hnew hlayered hfound (hlevel hfound)
        refine ⟨some nodes, ?_, hshortest⟩
        simp only [Search.contains_iff.mpr hfound, if_true, hnodes]
        rfl
      · simp only [mt Search.contains_iff.mp hfound, Bool.false_eq_true, if_false]
        rw [hend hfound] at hlayered
        refine ih hlayered hfound ?_
        simp only [List.length_cons] at hsteps hcount
        omega

theorem search_answers (g : Graph) (source target : String) :
    ∃ answer, search g source target = .ok answer ∧ g.Answers source target answer := by
  unfold search
  by_cases heq : source = target
  · rw [if_pos heq]
    subst heq
    refine ⟨_, rfl, .single g source, List.nodup_singleton source, fun other hother => ?_⟩
    cases other with
    | nil => cases hother.first
    | cons name other => exact Nat.le_add_left 1 other.length
  · rw [if_neg heq]
    have hnew : ¬(Search.start source).Found target := fun hfound =>
      heq (Search.found_start.mp hfound).symm
    exact answers_of_layered (Layered.start_search g source) hnew rfl

/-- A search comes to its answer: it does not run out of steps, and it knows from where each node on
the way back was found. There is a path if and only if edges lead from one node to the other, and it
is a walk between them that comes by no node twice, and than which none is shorter. -/
theorem shortestPath_least (g : Graph) (source target : String) :
    search g source target = .ok (g.shortestPath source target) ∧
    ((∃ path, g.shortestPath source target = some path) ↔
      target = source ∨ Relation.TransGen g.Leads source target) ∧
    ∀ path, g.shortestPath source target = some path →
      g.Walk source target path ∧ path.Nodup ∧
        ∀ other, g.Walk source target other → path.length ≤ other.length := by
  obtain ⟨answer, hanswer, hright⟩ := search_answers g source target
  have hpath : g.shortestPath source target = answer := by
    unfold shortestPath
    rw [hanswer]
  rw [hpath, ← Relation.reflTransGen_iff_eq_or_transGen]
  refine ⟨hanswer, ?_, fun path hsome => ?_⟩
  · cases answer with
    | none =>
      refine ⟨fun ⟨_, hsome⟩ => ?_, fun hreaches => absurd hreaches hright⟩
      cases hsome
    | some nodes => exact ⟨fun _ => hright.walk.reaches, fun _ => ⟨nodes, rfl⟩⟩
  · rw [hsome] at hright
    exact ⟨hright.walk, hright.nodup, hright.least⟩

/-- Two ways from `a` to `e`, of four edges and of three, with an edge back to `a` from the longer
one and a loop on the shorter one. -/
def detours : Graph :=
  ([⟨"a", "up", "b"⟩, ⟨"b", "on", "c"⟩, ⟨"c", "on", "d"⟩, ⟨"c", "back", "a"⟩, ⟨"d", "on", "e"⟩,
    ⟨"a", "down", "x"⟩, ⟨"x", "again", "x"⟩, ⟨"x", "on", "y"⟩, ⟨"y", "on", "e"⟩] : List Edge).foldl
    addEdge ∅

/-- No walk from `a` to `e` is shorter than the second way, and none leads back from `e`. -/
theorem shortestPath_least_detours :
    detours.shortestPath "a" "e" = some ["a", "x", "y", "e"] ∧
    detours.Walk "a" "e" ["a", "b", "c", "d", "e"] ∧
    (∀ other, detours.Walk "a" "e" other → 4 ≤ other.length) ∧
    ¬("a" = "e" ∨ Relation.TransGen detours.Leads "e" "a") ∧
    detours.shortestPath "z" "z" = some ["z"] := by
  have hpath : detours.shortestPath "a" "e" = some ["a", "x", "y", "e"] := by decide +kernel
  have hnone : detours.shortestPath "e" "a" = none := by decide +kernel
  have hwalk : detours.Walk "a" "e" ["a", "b", "c", "d", "e"] := by
    have hleads : ∀ a b, b ∈ detours.neighbors a → detours.Leads a b := fun _ _ => mem_neighbors.mp
    refine ⟨rfl, rfl, ?_⟩
    simp only [List.isChain_cons_cons, List.isChain_singleton, and_true]
    exact ⟨hleads _ _ (by decide +kernel), hleads _ _ (by decide +kernel),
      hleads _ _ (by decide +kernel), hleads _ _ (by decide +kernel)⟩
  obtain ⟨-, hleast⟩ := ((shortestPath_least detours "a" "e").2.2 _ hpath).2
  refine ⟨hpath, hwalk, hleast, fun hreaches => ?_, by decide +kernel⟩
  obtain ⟨path, hsome⟩ := (shortestPath_least detours "e" "a").2.1.mpr hreaches
  rw [hnone] at hsome
  cases hsome

end Premise.Graph
