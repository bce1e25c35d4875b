import Mathlib.Data.Prod.Lex
import Mathlib.Data.String.Basic
import Premise.Proofs.ShortestPath

/-!
Of the shortest paths the search finds the first one.

The labels of edges spell paths: from a node each label leads to one other node, so a sequence of
labels leads by one sequence of nodes (`Spells`). Sequences of labels have a place among all of
them, the shorter ones first and those of one length in lexicographic order (`place`).

Every found node has a route, the labels by which it was found. The queue is in ascending order of
routes, and whatever labels come before those that the search tries next lead to a node that is
found by now, by a route that is no later (`Ranked.found_of_place_lt`). The levels of the search
show in this as the lengths of the routes only.
-/

namespace Premise.Graph

variable {g : Graph} {source target : String}

/-! ### What labels spell -/

/-- Followed from the source, the labels lead to the target, by these nodes. -/
inductive Spells (g : Graph) (source : String) : List String → String → List String → Prop
  | start : Spells g source [] source [source]
  | step {labels nodes : List String} {a b label : String} (before : Spells g source labels a nodes)
      (edge : ⟨a, label, b⟩ ∈ g.edgeList) :
      Spells g source (labels ++ [label]) b (nodes ++ [b])

theorem ascending_outgoing (g : Graph) (name : String) :
    (g.outgoing name).Pairwise fun e f => e.1 < f.1 := by
  unfold outgoing
  cases g.edges.get? name with
  | none => exact .nil
  | some targets => exact targets.ascending

theorem target_unique {a b c label : String} (h : ⟨a, label, b⟩ ∈ g.edgeList)
    (k : ⟨a, label, c⟩ ∈ g.edgeList) : b = c := by
  rw [← mem_outgoing] at h k
  unfold outgoing at h k
  cases htargets : g.edges.get? a with
  | none =>
    rw [htargets] at h
    cases h
  | some targets =>
    rw [htargets] at h k
    exact Option.some.inj ((Table.mem_toList.mp h).symm.trans (Table.mem_toList.mp k))

namespace Spells

variable {labels nodes : List String} {label : String}

theorem of_concat (h : Spells g source (labels ++ [label]) target nodes) :
    ∃ a before, Spells g source labels a before ∧ ⟨a, label, target⟩ ∈ g.edgeList ∧
      nodes = before ++ [target] := by
  generalize hall : labels ++ [label] = all at h
  cases h with
  | start => exact absurd hall (by simp)
  | step hbefore hedge =>
    obtain ⟨rfl, hlast⟩ := List.append_inj' hall rfl
    cases hlast
    exact ⟨_, _, hbefore, hedge, rfl⟩

theorem length_eq (h : Spells g source labels target nodes) : nodes.length = labels.length + 1 := by
  induction h with
  | start => rfl
  | step _ _ ih =>
    rw [List.length_append, List.length_append, ih]
    rfl

/-- Labels lead from a node to one other node, by one sequence of nodes. -/
theorem unique {last : String} {passed : List String} (h : Spells g source labels target nodes)
    (k : Spells g source labels last passed) : last = target ∧ passed = nodes := by
  induction h generalizing last passed with
  | start =>
    generalize hnone : ([] : List String) = none at k
    cases k with
    | start => exact ⟨rfl, rfl⟩
    | step => exact absurd hnone (by simp)
  | step hbefore hedge ih =>
    obtain ⟨a, before, hsame, hlast, rfl⟩ := k.of_concat
    obtain ⟨rfl, rfl⟩ := ih hsame
    cases target_unique hlast hedge
    exact ⟨rfl, rfl⟩

end Spells

/-! ### The order of routes -/

/-- Where labels stand among all sequences of labels. -/
def place (labels : List String) : Nat ×ₗ List String := toLex (labels.length, labels)

section

variable {v w : List String} {k l : String}

theorem place_lt : place v < place w ↔ v.length < w.length ∨ v.length = w.length ∧ v < w :=
  Prod.Lex.toLex_lt_toLex

theorem place_injective (h : place v = place w) : v = w := congrArg (fun p => (ofLex p).2) h

theorem place_nil_le : place [] ≤ place w := by
  refine not_lt.mp fun h => ?_
  rcases place_lt.mp h with hlength | ⟨-, hlex⟩
  · exact absurd hlength (Nat.not_lt_zero _)
  · exact absurd hlex (List.not_lt_nil w)

theorem concat_lt (h : v.length = w.length) : v ++ [k] < w ++ [l] ↔ v < w ∨ v = w ∧ k < l := by
  induction v generalizing w with
  | nil =>
    cases w with
    | nil => simp [List.cons_lt_cons_iff]
    | cons b w => cases h
  | cons a v ih =>
    cases w with
    | nil => cases h
    | cons b w =>
      rw [List.cons_append, List.cons_append, List.cons_lt_cons_iff, List.cons_lt_cons_iff,
        ih (Nat.succ.inj h), List.cons.injEq, and_or_left, or_assoc, and_assoc]

theorem place_concat_lt :
    place (v ++ [k]) < place (w ++ [l]) ↔ place v < place w ∨ v = w ∧ k < l := by
  rw [place_lt, place_lt, List.length_append, List.length_append, List.length_singleton,
    List.length_singleton, Nat.add_lt_add_iff_right, Nat.add_right_cancel_iff, or_assoc]
  refine or_congr_right ⟨?_, ?_⟩
  · rintro ⟨hlength, hlex⟩
    exact ((concat_lt hlength).mp hlex).imp_left (⟨hlength, ·⟩)
  · rintro (⟨hlength, hlex⟩ | ⟨rfl, hlabel⟩)
    · exact ⟨hlength, (concat_lt hlength).mpr (.inl hlex)⟩
    · exact ⟨rfl, (concat_lt rfl).mpr (.inr ⟨rfl, hlabel⟩)⟩

theorem place_concat_le (h : place v ≤ place w) (l : String) :
    place (v ++ [l]) ≤ place (w ++ [l]) := by
  refine not_lt.mp fun hlt => ?_
  rcases place_concat_lt.mp hlt with hback | ⟨-, hself⟩
  · exact absurd h (not_le.mpr hback)
  · exact absurd hself (lt_irrefl l)

theorem place_lt_concat (w : List String) (l : String) : place w < place (w ++ [l]) := by
  refine place_lt.mpr (.inl ?_)
  rw [List.length_append]
  exact Nat.lt_succ_self _

end

/-! ### Routes -/

/-- A search that leaves a node, with the edges from there that it has not looked at yet. -/
structure Ranked (g : Graph) (source : String) (route : String → List String) (current : String)
    (pending : List (String × String)) (s : Search) : Prop where
  start : s.Found source ∧ route source = []
  back : ∀ name origin, s.previous.get? name = some origin → name ≠ source →
    s.Found origin ∧ place (route origin) ≤ place (route current) ∧
      ∃ label, ⟨origin, label, name⟩ ∈ g.edgeList ∧ route name = route origin ++ [label]
  queued : ∀ name ∈ s.queue, s.Found name ∧ place (route current) < place (route name)
  ascending : s.queue.Pairwise fun a b => place (route a) < place (route b)
  earlier : ∀ name, s.Found name → ∀ e ∈ pending,
    place (route name) < place (route current ++ [e.1])
  left : ∀ name label next, s.Found name → name ∉ s.queue → ⟨name, label, next⟩ ∈ g.edgeList →
    name = current ∧ (label, next) ∈ pending ∨
      s.Found next ∧ place (route next) ≤ place (route name ++ [label])
  edges : ∀ e ∈ pending, ⟨current, e.1, e.2⟩ ∈ g.edgeList
  labels : pending.Pairwise fun e f => e.1 < f.1
  current : s.Found current

namespace Ranked

variable {route : String → List String} {current name label : String}
  {pending : List (String × String)} {s : Search} {labels nodes : List String}

theorem leave_source (g : Graph) (source : String) :
    Ranked g source (fun _ => []) source (g.outgoing source)
      ⟨(Search.start source).previous, []⟩ where
  start := ⟨Search.found_start.mpr rfl, rfl⟩
  back := fun name origin h hne => absurd (Search.found_start.mp ⟨origin, h⟩) hne
  queued := fun _ hnone => absurd hnone List.not_mem_nil
  ascending := .nil
  earlier := fun _ _ e _ => place_lt_concat [] e.1
  left := by
    intro name label next hname _ hedge
    obtain rfl : name = source := Search.found_start.mp hname
    exact .inl ⟨rfl, mem_outgoing.mpr hedge⟩
  edges := fun _ => mem_outgoing.mp
  labels := ascending_outgoing g source
  current := Search.found_start.mpr rfl

/-- The first node of the queue is left next. -/
theorem leave {previous : Table String} {next : String} {queue : List String}
    (h : Ranked g source route current [] ⟨previous, next :: queue⟩) :
    Ranked g source route next (g.outgoing next) ⟨previous, queue⟩ where
  start := h.start
  back := by
    intro name origin horigin hsource
    obtain ⟨hfound, hbefore, hstep⟩ := h.back name origin horigin hsource
    exact ⟨hfound, hbefore.trans (h.queued next List.mem_cons_self).2.le, hstep⟩
  queued := fun name hname => ⟨(h.queued name (List.mem_cons_of_mem next hname)).1,
    (List.pairwise_cons.mp h.ascending).1 name hname⟩
  ascending := (List.pairwise_cons.mp h.ascending).2
  earlier := by
    -- every node so far was found from one that was left before `next`
    rintro name ⟨origin, horigin⟩ e -
    by_cases hsource : name = source
    · rw [hsource, h.start.2]
      exact place_nil_le.trans_lt (place_lt_concat _ _)
    · obtain ⟨-, hbefore, label, -, hroute⟩ := h.back name origin horigin hsource
      rw [hroute]
      exact place_concat_lt.mpr (.inl (hbefore.trans_lt (h.queued next List.mem_cons_self).2))
  left := by
    intro name label further hname hqueue hedge
    by_cases heq : name = next
    · rw [heq] at hedge
      exact .inl ⟨heq, mem_outgoing.mpr hedge⟩
    · rcases h.left name label further hname (by simpa [heq] using hqueue) hedge with
        ⟨-, hnone⟩ | hfound
      · cases hnone
      · exact .inr hfound
  edges := fun _ => mem_outgoing.mp
  labels := ascending_outgoing g next
  current := (h.queued next List.mem_cons_self).1

/-- A node that was found before was found by an earlier route. -/
theorem pass (h : Ranked g source route current ((label, name) :: pending) s)
    (hname : s.Found name) : Ranked g source route current pending s where
  start := h.start
  back := h.back
  queued := h.queued
  ascending := h.ascending
  earlier := fun other hother e he => h.earlier other hother e (List.mem_cons_of_mem _ he)
  left := by
    intro other label' next hother hqueue hedge
    rcases h.left other label' next hother hqueue hedge with ⟨rfl, hnext⟩ | hfound
    · rcases List.mem_cons.mp hnext with heq | hnext
      · cases heq
        exact .inr ⟨hname, (h.earlier name hname _ List.mem_cons_self).le⟩
      · exact .inl ⟨rfl, hnext⟩
    · exact .inr hfound
  edges := fun e he => h.edges e (List.mem_cons_of_mem _ he)
  labels := (List.pairwise_cons.mp h.labels).2
  current := h.current

/-- A node that was not found before is found by the route to the node being left and the label. -/
theorem discover {route' : String → List String}
    (h : Ranked g source route current ((label, name) :: pending) s)
    (hname : route' name = route current ++ [label])
    (hsame : ∀ other, s.Found other → route' other = route other) :
    Ranked g source route' current pending (s.discover current name) where
  start := ⟨Search.found_discover.mpr (.inr h.start.1), (hsame source h.start.1).trans h.start.2⟩
  back := by
    intro other origin horigin hsource
    rw [hsame current h.current]
    rcases Table.get?_insert_eq_some horigin with ⟨rfl, rfl⟩ | hold
    · rw [hsame origin h.current]
      exact ⟨Search.found_discover.mpr (.inr h.current), le_rfl, label,
        h.edges _ List.mem_cons_self, hname⟩
    · obtain ⟨hfound, hbefore, label', hedge, hroute⟩ := h.back other origin hold hsource
      rw [hsame origin hfound, hsame other ⟨origin, hold⟩]
      exact ⟨Search.found_discover.mpr (.inr hfound), hbefore, label', hedge, hroute⟩
  queued := by
    intro other hother
    rw [hsame current h.current]
    rcases List.mem_append.mp hother with hother | hother
    · obtain ⟨hfound, hlater⟩ := h.queued other hother
      rw [hsame other hfound]
      exact ⟨Search.found_discover.mpr (.inr hfound), hlater⟩
    · rw [List.mem_singleton.mp hother, hname]
      exact ⟨Search.found_discover.mpr (.inl rfl), place_lt_concat _ _⟩
  ascending := by
    refine List.pairwise_append.mpr ⟨?_, List.pairwise_singleton .., fun a ha b hb => ?_⟩
    · refine h.ascending.imp_of_mem fun {a b} ha hb hab => ?_
      rw [hsame a (h.queued a ha).1, hsame b (h.queued b hb).1]
      exact hab
    · have hfound := (h.queued a ha).1
      rw [List.mem_singleton.mp hb, hname, hsame a hfound]
      exact h.earlier a hfound _ List.mem_cons_self
  earlier := by
    intro other hother e he
    rw [hsame current h.current]
    rcases Search.found_discover.mp hother with rfl | hfound
    · rw [hname]
      exact place_concat_lt.mpr (.inr ⟨rfl, (List.pairwise_cons.mp h.labels).1 e he⟩)
    · rw [hsame other hfound]
      exact h.earlier other hfound e (List.mem_cons_of_mem _ he)
  left := by
    intro other label' next hother hqueue hedge
    obtain ⟨hold, hlast⟩ := not_or.mp (mt List.mem_append.mpr hqueue)
    rcases Search.found_discover.mp hother with rfl | hfound
    · exact absurd List.mem_cons_self hlast
    · rw [hsame other hfound]
      rcases h.left other label' next hfound hold hedge with ⟨rfl, hnext⟩ | ⟨hnext, hlater⟩
      · rcases List.mem_cons.mp hnext with heq | hnext
        · cases heq
          exact .inr ⟨Search.found_discover.mpr (.inl rfl), (congrArg place hname).le⟩
        · exact .inl ⟨rfl, hnext⟩
      · rw [hsame next hnext]
        exact .inr ⟨Search.found_discover.mpr (.inr hnext), hlater⟩
  edges := fun e he => h.edges e (List.mem_cons_of_mem _ he)
  labels := (List.pairwise_cons.mp h.labels).2
  current := Search.found_discover.mpr (.inr h.current)

/-- Labels that come before those that are tried next lead to a node that is found, by a route that
is no later than they are. -/
theorem found_of_place_lt (h : Ranked g source route current ((label, name) :: pending) s)
    (hspells : Spells g source labels target nodes)
    (hbefore : place labels < place (route current ++ [label])) :
    s.Found target ∧ place (route target) ≤ place labels := by
  induction hspells with
  | start =>
    rw [h.start.2]
    exact ⟨h.start.1, le_rfl⟩
  | @step labels nodes a b last _ hedge ih =>
    obtain ⟨hfound, hroute⟩ := ih ((place_lt_concat labels last).trans hbefore)
    have hcases := place_concat_lt.mp hbefore
    have hcurrent : place labels ≤ place (route current) :=
      hcases.elim le_of_lt fun h => (congrArg place h.1).le
    -- so the node before the last one was left already, or is being left
    have hqueue : a ∉ s.queue := fun hmem =>
      absurd ((h.queued a hmem).2.trans_le (hroute.trans hcurrent)) (lt_irrefl _)
    rcases h.left a last b hfound hqueue hedge with ⟨rfl, hpending⟩ | ⟨hnext, hlater⟩
    · have hlabel : last < label :=
        (hcases.resolve_left (not_lt.mpr hroute)).2
      rcases List.mem_cons.mp hpending with heq | hpending
      · cases heq
        exact absurd hlabel (lt_irrefl _)
      · exact absurd (hlabel.trans ((List.pairwise_cons.mp h.labels).1 _ hpending)) (lt_irrefl _)
    · exact ⟨hnext, hlater.trans (place_concat_le hroute last)⟩

/-- Looking at the edges from the node being left stops at the target, found by labels that come
before all others that lead there, or comes to their end. -/
theorem look (h : Ranked g source route current pending s) (hnew : ¬s.Found target) :
    ∃ route' rest,
      Ranked g source route' current rest (s.look target current (pending.map Prod.snd)) ∧
      ((s.look target current (pending.map Prod.snd)).Found target →
        ∀ labels nodes, Spells g source labels target nodes →
          place (route' target) ≤ place labels) ∧
      (¬(s.look target current (pending.map Prod.snd)).Found target → rest = []) := by
  induction pending generalizing route s with
  | nil => exact ⟨route, [], h, fun hfound => absurd hfound hnew, fun _ => rfl⟩
  | cons e pending ih =>
    obtain ⟨label, name⟩ := e
    rw [List.map_cons]
    unfold Search.look
    by_cases hname : s.Found name
    · rw [if_pos (Search.contains_iff.mpr hname)]
      exact ih (h.pass hname) hnew
    · rw [if_neg (mt Search.contains_iff.mp hname)]
      let route' := Function.update route name (route current ++ [label])
      have hroute : route' name = route current ++ [label] := Function.update_self ..
      have hsame : ∀ other, s.Found other → route' other = route other := fun other hother =>
        Function.update_of_ne (fun heq : other = name => hname (heq ▸ hother)) ..
      have hnext := h.discover hroute hsame
      by_cases heq : name = target
      · rw [if_pos heq]
        refine ⟨route', pending, hnext, fun _ labels nodes hspells => ?_, fun hnot => ?_⟩
        · rw [← heq, hroute]
          exact not_lt.mp fun hlt => hnew (h.found_of_place_lt hspells hlt).1
        · exact absurd (Search.found_discover.mpr (.inl heq.symm)) hnot
      · rw [if_neg heq]
        have hstill : ¬(s.discover current name).Found target := fun hfound =>
          (Search.found_discover.mp hfound).elim (Ne.symm heq) hnew
        exact ih hnext hstill

/-- The way back from a found node is spelled by its route. -/
theorem wayBack (h : Ranked g source route current pending s) {steps : Nat} {path : List String}
    (hname : s.Found name) (hback : wayBack s.previous source steps name path = .ok nodes) :
    ∃ before, nodes = before ++ path ∧ Spells g source (route name) name before := by
  induction steps generalizing name path with
  | zero => cases hback
  | succ steps ih =>
    unfold Graph.wayBack at hback
    by_cases hsource : name = source
    · rw [if_pos hsource] at hback
      cases hback
      rw [hsource, h.start.2]
      exact ⟨[source], rfl, .start⟩
    · obtain ⟨origin, horigin⟩ := hname
      rw [if_neg hsource] at hback
      simp only [horigin] at hback
      obtain ⟨hfound, -, label, hedge, hroute⟩ := h.back name origin horigin hsource
      obtain ⟨before, rfl, hspells⟩ := ih hfound hback
      rw [hroute]
      exact ⟨before ++ [name], List.append_cons .., hspells.step hedge⟩

end Ranked

/-! ### The search -/

/-- Nodes that are spelled by labels before which no others lead to the target. -/
def IsFirst (g : Graph) (source target : String) (labels nodes : List String) : Prop :=
  Spells g source labels target nodes ∧
    ∀ other passed, Spells g source other target passed → place labels ≤ place other

theorem isFirst_of_ranked {route : String → List String} {current : String} {steps : Nat}
    {previous : Table String} {queue nodes : List String}
    (h : Ranked g source route current (g.outgoing current) ⟨previous, queue⟩)
    (hnew : ¬Search.Found ⟨previous, queue⟩ target)
    (hsearch : searchFrom g source target steps ⟨previous, current :: queue⟩ = .ok (some nodes)) :
    ∃ labels, g.IsFirst source target labels nodes := by
  induction steps generalizing route current previous queue with
  | zero => cases hsearch
  | succ steps ih =>
    obtain ⟨route', rest, hranked, hfirst, hend⟩ := h.look hnew
    rw [← neighbors_eq] at hranked hfirst hend
    unfold searchFrom at hsearch
    generalize Search.look target current ⟨previous, queue⟩ (g.neighbors current) = s at *
    by_cases hfound : s.Found target
    · simp only [Search.contains_iff.mpr hfound, if_true] at hsearch
      cases hback : wayBack s.previous source s.previous.size target [] with
      | error error =>
        rw [hback] at hsearch
        cases hsearch
      | ok path =>
        rw [hback] at hsearch
        cases hsearch
        obtain ⟨before, rfl, hspells⟩ := hranked.wayBack hfound hback
        rw [List.append_nil]
        exact ⟨route' target, hspells, hfirst hfound⟩
    · simp only [mt Search.contains_iff.mp hfound, Bool.false_eq_true, if_false] at hsearch
      rw [hend hfound] at hranked
      obtain ⟨previous', queue'⟩ := s
      cases queue' with
      | nil =>
        unfold searchFrom at hsearch
        cases hsearch
      | cons next queue' => exact ih hranked.leave hfound hsearch

/-- Where edges lead from one node to another, the path between them is spelled by labels that come
first, in lexicographic order, among those that spell a path as short as it is. -/
theorem shortestPath_first (g : Graph) {source target : String} (hne : target ≠ source)
    (hreaches : Relation.ReflTransGen g.Leads source target) :
    ∃ labels nodes, g.shortestPath source target = some nodes ∧
      g.Shortest source target nodes ∧ Spells g source labels target nodes ∧
      (∀ last passed, Spells g source labels last passed → last = target ∧ passed = nodes) ∧
      ∀ other passed, Spells g source other target passed → passed.length = nodes.length →
        other = labels ∨ labels < other := by
  obtain ⟨answer, hanswer, hright⟩ := search_answers g source target
  cases answer with
  | none => exact absurd hreaches hright
  | some nodes =>
    have hpath : g.shortestPath source target = some nodes := by
      unfold shortestPath
      rw [hanswer]
    have hnew : ¬Search.Found ⟨(Search.start source).previous, []⟩ target := fun hfound =>
      hne (Search.found_start.mp hfound)
    unfold search at hanswer
    rw [if_neg (Ne.symm hne)] at hanswer
    obtain ⟨labels, hspells, hfirst⟩ :=
      isFirst_of_ranked (Ranked.leave_source g source) hnew hanswer
    refine ⟨labels, nodes, hpath, hright, hspells, fun last passed => hspells.unique,
      fun other passed hother hshort => ?_⟩
    have hlength : other.length = labels.length := by
      rw [hother.length_eq, hspells.length_eq] at hshort
      exact Nat.succ.inj hshort
    rcases (hfirst other passed hother).lt_or_eq with hlt | heq
    · rcases place_lt.mp hlt with hless | ⟨-, hlex⟩
      · omega
      · exact .inr hlex
    · exact .inl (place_injective heq).symm

/-- Two ways from `a` to `e` of two edges each. The first label decides, not the second one, and not
the name of the node between. -/
def rivals : Graph :=
  ([⟨"a", "l", "b"⟩, ⟨"b", "a", "e"⟩, ⟨"a", "k", "x"⟩, ⟨"a", "m", "x"⟩, ⟨"x", "z", "e"⟩] :
    List Edge).foldl addEdge ∅

theorem shortestPath_first_rivals :
    "e" ≠ "a" ∧ Relation.ReflTransGen rivals.Leads "a" "e" ∧
    rivals.shortestPath "a" "e" = some ["a", "x", "e"] ∧
    Spells rivals "a" ["l", "a"] "e" ["a", "b", "e"] ∧
    ∃ labels, Spells rivals "a" labels "e" ["a", "x", "e"] ∧ labels < ["l", "a"] := by
  have hedge : ∀ a label b, (label, b) ∈ rivals.outgoing a → ⟨a, label, b⟩ ∈ rivals.edgeList :=
    fun _ _ _ => mem_outgoing.mp
  have hbefore : Spells rivals "a" ["l"] "b" ["a", "b"] :=
    .step .start (hedge _ _ _ (by decide +kernel))
  have hother : Spells rivals "a" ["l", "a"] "e" ["a", "b", "e"] :=
    hbefore.step (hedge _ _ _ (by decide +kernel))
  have hreaches : Relation.ReflTransGen rivals.Leads "a" "e" :=
    (Relation.ReflTransGen.single ⟨"l", hedge "a" "l" "b" (by decide +kernel)⟩).tail
      ⟨"a", hedge "b" "a" "e" (by decide +kernel)⟩
  have hpath : rivals.shortestPath "a" "e" = some ["a", "x", "e"] := by decide +kernel
  obtain ⟨labels, nodes, hnodes, -, hspells, hunique, hfirst⟩ :=
    shortestPath_first rivals (by decide) hreaches
  cases Option.some.inj (hpath.symm.trans hnodes)
  refine ⟨by decide, hreaches, hpath, hother, labels, hspells, ?_⟩
  refine (hfirst _ _ hother rfl).resolve_left fun heq => ?_
  rw [← heq] at hunique
  exact absurd (hunique _ _ hother).2 (by decide)

end Premise.Graph
