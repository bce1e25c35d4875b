import Mathlib.Tactic.Linarith
import Premise.Proofs.RoundTrip
import Premise.Proofs.Tiers

/-!
The levels around the leaves of an expression, and the limit on them.

Groups, arguments of calls, exponents and signs are a level each around what they enclose. A chain is
folded from the left, so its operators end up around the operands before them (`enclosing`): the
first operand is under all of them, and the last under one. While the tree is built, though, an
operator is charged to the operands behind it (`preceding`). What the limit bounds is therefore the
second count (`parse_succeeds`). The first can exceed it, but no more than in proportion to its
square (`levels_of_parse`).
-/

namespace Premise

namespace Phrase

/-- The operators of a chain around its operand at a place, counted from 0: the one before it and all
behind it. -/
def enclosing (operators place : Nat) : Nat := min operators (operators + 1 - place)

/-- The operators of a chain that stand before its operand at a place. -/
def preceding (_operators place : Nat) : Nat := place

mutual

/-- The levels around each leaf, from left to right. `count` says how many of the operators of a
chain count for its operand at a place. -/
def levels (count : Nat → Nat → Nat) : Phrase → List Nat
  | .number _ _ => [0]
  | .text _ => [0]
  | .truth _ => [0]
  | .name _ => [0]
  | .call _ arguments => if arguments.isEmpty then [0] else argumentLevels count arguments
  | .group inner => (levels count inner).map (· + 1)
  | .signed _ operand => (levels count operand).map (· + 1)
  | .power base exponent => levels count base ++ (levels count exponent).map (· + 1)
  | .chain first links =>
    (levels count first).map (· + count links.length 0) ++ linkLevels count links.length 1 links

def argumentLevels (count : Nat → Nat → Nat) : List Phrase → List Nat
  | [] => []
  | p :: ps => (levels count p).map (· + 1) ++ argumentLevels count ps

/-- The levels around the leaves of the operands from a place on, in a chain of so many operators. -/
def linkLevels (count : Nat → Nat → Nat) (operators place : Nat) :
    List (BinaryOperator × Phrase) → List Nat
  | [] => []
  | (_, p) :: links =>
    (levels count p).map (· + count operators place) ++
      linkLevels count operators (place + 1) links

end

/-- No leaf has more levels around it than the limit says. -/
def Within (count : Nat → Nat → Nat) (limit : Nat) (p : Phrase) : Prop :=
  ∀ n ∈ p.levels count, n ≤ limit

instance (count : Nat → Nat → Nat) (limit : Nat) (p : Phrase) : Decidable (p.Within count limit) :=
  inferInstanceAs (Decidable (∀ n ∈ p.levels count, n ≤ limit))

/-- Every phrase has a leaf; a call without arguments is one itself. -/
theorem levels_ne_nil (count : Nat → Nat → Nat) (p : Phrase) : p.levels count ≠ [] := by
  cases p with
  | number whole fraction | text content | truth b | name name => exact List.cons_ne_nil _ _
  | call name arguments =>
    cases arguments with
    | nil => exact List.cons_ne_nil _ _
    | cons p ps =>
      simp only [levels, argumentLevels, List.isEmpty_cons, Bool.false_eq_true, if_false]
      exact List.append_ne_nil_of_left_ne_nil (by simpa using levels_ne_nil count p) _
  | group inner => simpa [levels] using levels_ne_nil count inner
  | signed op operand => simpa [levels] using levels_ne_nil count operand
  | power base exponent => exact List.append_ne_nil_of_left_ne_nil (levels_ne_nil count base) _
  | chain first links =>
    exact List.append_ne_nil_of_left_ne_nil (by simpa using levels_ne_nil count first) _

end Phrase

namespace Expr

open Phrase

/-! ### What the limit bounds -/

section

variable {α β ε : Type}

theorem bind_succeeds {x : Except ε α} {f : α → Except ε β} {q : Prop}
    (h : ∀ a, (∃ b, f a = .ok b) ↔ q) :
    (∃ b, (x >>= f) = .ok b) ↔ (∃ a, x = .ok a) ∧ q := by
  constructor
  · rintro ⟨b, hb⟩
    obtain ⟨a, ha, hf⟩ := bind_eq_ok.mp hb
    exact ⟨⟨a, ha⟩, (h a).mp ⟨b, hf⟩⟩
  · rintro ⟨⟨a, ha⟩, hq⟩
    obtain ⟨b, hf⟩ := (h a).mpr hq
    exact ⟨b, bind_eq_ok.mpr ⟨a, ha, hf⟩⟩

/-- A level can be entered while any remain, whether it is that of an operator or not. -/
def Enters (d : Depth) (x : Except ParseError Depth) : Prop :=
  ∀ deeper, x = .ok deeper ↔ d.enter? = some deeper

theorem enters_nest (d : Depth) : Enters d (nest d) := by
  intro deeper
  unfold nest
  cases d.enter? <;> simp

theorem enters_nestOperator (d : Depth) : Enters d (nestOperator d) := by
  intro deeper
  unfold nestOperator
  cases d.enter? <;> simp

theorem enter_succeeds {d : Depth} {x : Except ParseError Depth} (hx : Enters d x)
    {f : Depth → Except ParseError α} {q : Nat → Prop}
    (h : ∀ deeper, (∃ a, f deeper = .ok a) ↔ q deeper.remaining) :
    (∃ a, (x >>= f) = .ok a) ↔ ∃ r, r + 1 = d.remaining ∧ q r := by
  constructor
  · rintro ⟨a, ha⟩
    obtain ⟨deeper, hdeeper, hf⟩ := bind_eq_ok.mp ha
    have hremaining := Depth.remaining_of_enter? ((hx deeper).mp hdeeper)
    exact ⟨deeper.remaining, hremaining, (h deeper).mp ⟨a, hf⟩⟩
  · rintro ⟨r, hr, hq⟩
    obtain ⟨deeper, henter, hremaining⟩ := @Depth.exists_enter d (by omega)
    have heq : r = deeper.remaining := by omega
    rw [heq] at hq
    obtain ⟨a, hf⟩ := (h deeper).mpr hq
    exact ⟨a, bind_eq_ok.mpr ⟨deeper, (hx deeper).mpr henter, hf⟩⟩

end

/-- One more level is around a phrase than around what it encloses. -/
theorem exists_within_iff (p : Phrase) (remaining : Nat) :
    (∃ r, r + 1 = remaining ∧ p.Within preceding r) ↔
      ∀ n ∈ (p.levels preceding).map (· + 1), n ≤ remaining := by
  rw [List.forall_mem_map]
  constructor
  · rintro ⟨r, hr, h⟩ n hn
    have hle := h n hn
    omega
  · intro h
    obtain ⟨n, hn⟩ := List.exists_mem_of_ne_nil _ (p.levels_ne_nil preceding)
    have hle := h n hn
    refine ⟨remaining - 1, by omega, fun m hm => ?_⟩
    have hless := h m hm
    omega

mutual

/-- A tree is built if enough levels remain for each leaf, with the operators of a chain counted for
the operands behind them. -/
theorem ofPhrase_succeeds (names : Name.Reading) (d : Depth) (p : Phrase) :
    (∃ tree, ofPhrase names d p = .ok tree) ↔ p.Within preceding d.remaining := by
  cases p with
  | number whole fraction | text content | truth b | name name =>
    exact iff_of_true ⟨_, rfl⟩ (by simp [Within, levels])
  | call name arguments =>
    rw [ofPhrase, bind_succeeds fun trees => iff_of_true ⟨_, rfl⟩ trivial, and_true,
      ofArguments_succeeds names d arguments]
    cases arguments with
    | nil => simp [Within, levels, argumentLevels]
    | cons p ps => rfl
  | group inner =>
    rw [ofPhrase, enter_succeeds (q := fun r => inner.Within preceding r) (enters_nest d)
      fun deeper => ofPhrase_succeeds names deeper inner]
    exact exists_within_iff inner d.remaining
  | signed op operand =>
    rw [ofPhrase, enter_succeeds (q := fun r => operand.Within preceding r) (enters_nestOperator d)
      fun deeper => ?_]
    · exact exists_within_iff operand d.remaining
    · rw [bind_succeeds fun tree => iff_of_true ⟨_, rfl⟩ trivial, and_true]
      exact ofPhrase_succeeds names deeper operand
  | power base exponent =>
    rw [ofPhrase, bind_succeeds fun tree =>
      enter_succeeds (q := fun r => exponent.Within preceding r) (enters_nest d) fun deeper => ?_]
    · rw [ofPhrase_succeeds names d base, exists_within_iff]
      exact List.forall_mem_append.symm
    · rw [bind_succeeds fun other => iff_of_true ⟨_, rfl⟩ trivial, and_true]
      exact ofPhrase_succeeds names deeper exponent
  | chain first links =>
    rw [ofPhrase, bind_succeeds fun left => ofLinks_succeeds names d left links.length 1 links,
      ofPhrase_succeeds names d first]
    simp only [Within, levels, preceding, List.forall_mem_append, Nat.add_zero, List.map_id',
      Nat.add_le_add_iff_right]

theorem ofArguments_succeeds (names : Name.Reading) (d : Depth) (ps : List Phrase) :
    (∃ trees, ofArguments names d ps = .ok trees) ↔
      ∀ n ∈ argumentLevels preceding ps, n ≤ d.remaining := by
  cases ps with
  | nil => exact iff_of_true ⟨_, rfl⟩ (by simp [argumentLevels])
  | cons p ps =>
    rw [ofArguments, enter_succeeds
      (q := fun r => p.Within preceding r ∧ ∀ n ∈ argumentLevels preceding ps, n ≤ d.remaining)
      (enters_nest d) fun deeper => ?_]
    · rw [argumentLevels, List.forall_mem_append, ← exists_within_iff]
      simp only [← and_assoc, exists_and_right]
    · rw [bind_succeeds fun argument => ?_, ofPhrase_succeeds names deeper p]
      rw [bind_succeeds fun arguments => iff_of_true ⟨_, rfl⟩ trivial, and_true]
      exact ofArguments_succeeds names d ps

/-- The operand before the links has entered a level for each place before it. -/
theorem ofLinks_succeeds (names : Name.Reading) (d : Depth) (left : Expr Unit)
    (operators place : Nat) (links : List (BinaryOperator × Phrase)) :
    (∃ tree, ofLinks names d left links = .ok tree) ↔
      ∀ n ∈ linkLevels preceding operators place links, n + 1 ≤ d.remaining + place := by
  cases links with
  | nil => exact iff_of_true ⟨left, rfl⟩ (by simp [linkLevels])
  | cons link links =>
    obtain ⟨op, p⟩ := link
    rw [ofLinks, enter_succeeds
      (q := fun r => p.Within preceding r ∧
        ∀ n ∈ linkLevels preceding operators (place + 1) links, n + 1 ≤ r + (place + 1))
      (enters_nestOperator d) fun deeper => ?_]
    · rw [linkLevels, List.forall_mem_append, List.forall_mem_map]
      constructor
      · rintro ⟨r, hr, hp, hlinks⟩
        refine ⟨fun n hn => ?_, fun n hn => ?_⟩
        · have hle := hp n hn
          show n + place + 1 ≤ d.remaining + place
          omega
        · have hle := hlinks n hn
          omega
      · rintro ⟨hp, hlinks⟩
        have hbelow : ∀ n ∈ p.levels preceding, n + 1 ≤ d.remaining := by
          intro n hn
          have hle : n + place + 1 ≤ d.remaining + place := hp n hn
          omega
        obtain ⟨r, hr, hwithin⟩ := (exists_within_iff p d.remaining).mpr
          (List.forall_mem_map.mpr hbelow)
        refine ⟨r, hr, hwithin, fun n hn => ?_⟩
        have hle := hlinks n hn
        omega
    · rw [bind_succeeds fun right => ofLinks_succeeds names deeper (binary () op left right)
        operators (place + 1) links, ofPhrase_succeeds names deeper p]

end

/-- A text is parsed if it is that of a phrase, its estimate is within the limit, and so are the
levels that building the phrase enters. -/
theorem parse_succeeds (names : Name.Reading) (limit : Nat) (line : Option Nat) (text : String) :
    (∃ tree, parse names limit line text = .ok tree) ↔
      ∃ phrase, Phrase.read (expandProducts text).toList = .ok phrase ∧
        estimateNesting (expandProducts text).toList ≤ limit ∧ phrase.Within preceding limit := by
  simp only [parse_eq_ok]
  constructor
  · rintro ⟨tree, phrase, built, hread, hestimate, hbuilt, -⟩
    exact ⟨phrase, hread, hestimate, (ofPhrase_succeeds names _ phrase).mp ⟨built, hbuilt⟩⟩
  · rintro ⟨phrase, hread, hestimate, hwithin⟩
    obtain ⟨built, hbuilt⟩ := (ofPhrase_succeeds names { limit } phrase).mpr hwithin
    exact ⟨_, phrase, built, hread, hestimate, hbuilt, rfl⟩

theorem parse_of_charged {names : Name.Reading} {limit : Nat} {line : Option Nat} {text : String}
    {phrase : Phrase} (hread : Phrase.read (expandProducts text).toList = .ok phrase)
    (hcharged : phrase.Within preceding limit)
    (hestimate : estimateNesting (expandProducts text).toList ≤ limit) :
    ∃ tree, parse names limit line text = .ok tree :=
  (parse_succeeds names limit line text).mpr ⟨phrase, hread, hestimate, hcharged⟩

end Expr

/-! ### What the limit does not bound -/

namespace Phrase

theorem mem_argumentLevels {count : Nat → Nat → Nat} {ps : List Phrase} {n : Nat} :
    n ∈ argumentLevels count ps ↔ ∃ p ∈ ps, n ∈ (p.levels count).map (· + 1) := by
  induction ps with
  | nil => simp [argumentLevels]
  | cons p ps ih =>
    simp only [argumentLevels, List.mem_append, ih, List.mem_cons, exists_eq_or_imp]

theorem mem_linkLevels {count : Nat → Nat → Nat} {operators place : Nat}
    {links : List (BinaryOperator × Phrase)} {n : Nat} :
    n ∈ linkLevels count operators place links ↔
      ∃ (i : Nat) (link : BinaryOperator × Phrase), links[i]? = some link ∧
        n ∈ (link.2.levels count).map (· + count operators (place + i)) := by
  induction links generalizing place with
  | nil => simp [linkLevels]
  | cons link links ih =>
    obtain ⟨op, p⟩ := link
    rw [linkLevels, List.mem_append, ih]
    constructor
    · rintro (h | ⟨i, link, hlink, h⟩)
      · exact ⟨0, (op, p), rfl, h⟩
      · exact ⟨i + 1, link, hlink, by rwa [Nat.add_assoc, Nat.add_comm 1] at h⟩
    · rintro ⟨i, link, hlink, h⟩
      cases i with
      | zero =>
        cases hlink
        exact .inl h
      | succ i => exact .inr ⟨i, link, hlink, by rwa [Nat.add_assoc, Nat.add_comm 1]⟩

/-- A chain has no more operators than its last operand has levels charged to it. -/
theorem length_le_of_within {first : Phrase} {links : List (BinaryOperator × Phrase)} {r : Nat}
    (h : (chain first links).Within preceding r) : links.length ≤ r := by
  cases hlast : links.getLast? with
  | none =>
    rw [List.getLast?_eq_none_iff.mp hlast]
    exact Nat.zero_le r
  | some link =>
    obtain ⟨n, hn⟩ := List.exists_mem_of_ne_nil _ (link.2.levels_ne_nil preceding)
    have hmem : n + links.length ∈ linkLevels preceding links.length 1 links := by
      rw [List.getLast?_eq_getElem?] at hlast
      obtain ⟨hlt, -⟩ := List.getElem?_eq_some_iff.mp hlast
      refine mem_linkLevels.mpr ⟨links.length - 1, link, hlast, List.mem_map.mpr ⟨n, hn, ?_⟩⟩
      show n + (1 + (links.length - 1)) = n + links.length
      omega
    have hle := h _ (List.mem_append_right _ hmem)
    omega

/-- What the levels around the leaves come to at most, where the charged ones are within the limit. -/
def Bounded (tier : Tier) (p : Phrase) : Prop :=
  ∀ r, p.Within preceding r → ∀ n ∈ p.levels enclosing, n + r ≤ 2 * r * r + (4 - tier.rank) * r

/-- A level is enough room for four chains, one as the first operand of the other. -/
theorem Bounded.deeper {tier : Tier} {p : Phrase} (h : Bounded tier p) {r : Nat}
    (hr : ∀ n ∈ (p.levels preceding).map (· + 1), n ≤ r) :
    ∀ n ∈ (p.levels enclosing).map (· + 1), n + r ≤ 2 * r * r := by
  obtain ⟨s, rfl, hs⟩ := (Expr.exists_within_iff p r).mpr hr
  intro n hn
  obtain ⟨m, hm, rfl⟩ := List.mem_map.mp hn
  have hle := h s hs m hm
  have hweight : (4 - tier.rank) * s ≤ 4 * s := Nat.mul_le_mul_right s (by omega)
  nlinarith

theorem bounded_leaf {p : Phrase} (h : p.levels enclosing = [0]) : Bounded .primary p := by
  intro r _ n hn
  rw [h] at hn
  have hsquare := Nat.le_mul_self r
  rw [List.mem_singleton.mp hn]
  nlinarith

theorem bounded_chain {level : Precedence} {first : Phrase} {links : List (BinaryOperator × Phrase)}
    (hfirst : Bounded (Tier.chain level).next first)
    (hlinks : ∀ link ∈ links, Bounded (Tier.chain level).next link.2) :
    Bounded (.chain level) (.chain first links) := by
  intro r hr n hn
  have hlength := length_le_of_within hr
  have hweight : (4 - (Tier.chain level).rank) * r =
      (4 - (Tier.chain level).next.rank) * r + r := by
    cases level <;> simp only [Tier.rank, Tier.next] <;> omega
  obtain ⟨hrfirst, hrlinks⟩ := List.forall_mem_append.mp hr
  -- no operand is under more operators than the chain has, nor than it has levels left
  rcases List.mem_append.mp hn with hn | hn
  · obtain ⟨m, hm, rfl⟩ := List.mem_map.mp hn
    have hwithin : first.Within preceding r := fun m hm => hrfirst (m + 0) (List.mem_map_of_mem hm)
    have hle := hfirst r hwithin m hm
    have hcount : enclosing links.length 0 ≤ links.length := Nat.min_le_left _ _
    omega
  · obtain ⟨i, link, hlink, hn⟩ := mem_linkLevels.mp hn
    obtain ⟨m, hm, rfl⟩ := List.mem_map.mp hn
    have hwithin : link.2.Within preceding r := by
      intro m hm
      have hle := hrlinks (m + preceding links.length (1 + i))
        (mem_linkLevels.mpr ⟨i, link, hlink, List.mem_map_of_mem hm⟩)
      omega
    have hle := hlinks link (List.mem_of_getElem? hlink) r hwithin m hm
    have hcount : enclosing links.length (1 + i) ≤ links.length := Nat.min_le_left _ _
    omega

theorem Formed.bounded {tier : Tier} {p : Phrase} (h : Formed tier p) : Bounded tier p := by
  induction h with
  | number whole fraction | text content | truth b | name name => exact bounded_leaf rfl
  | @call name arguments harguments ih =>
    cases arguments with
    | nil => exact bounded_leaf rfl
    | cons p ps =>
      intro r hr n hn
      obtain ⟨a, ha, hna⟩ := mem_argumentLevels.mp hn
      have hra : ∀ m ∈ (a.levels preceding).map (· + 1), m ≤ r :=
        fun m hm => hr m (mem_argumentLevels.mpr ⟨a, ha, hm⟩)
      exact Nat.le_add_right_of_le ((ih a ha).deeper hra n hna)
  | group hinner ih => exact fun r hr n hn => Nat.le_add_right_of_le (ih.deeper hr n hn)
  | signed op hoperand ih => exact fun r hr n hn => Nat.le_add_right_of_le (ih.deeper hr n hn)
  | power hbase hexponent ihbase ihexponent =>
    intro r hr n hn
    obtain ⟨hrbase, hrexponent⟩ := List.forall_mem_append.mp hr
    rcases List.mem_append.mp hn with hn | hn
    · exact ihbase r hrbase n hn
    · exact Nat.le_add_right_of_le (ihexponent.deeper hrexponent n hn)
  | chain hfirst hlinks ihfirst ihlinks => exact bounded_chain ihfirst ihlinks
  | @tighter tier p hp ih =>
    intro r hr n hn
    have hle := ih r hr n hn
    have hrank : tier.rank ≤ tier.next.rank := tier.le_next
    have hweight : (4 - tier.next.rank) * r ≤ (4 - tier.rank) * r :=
      Nat.mul_le_mul_right r (by omega)
    omega

end Phrase

namespace Expr

open Phrase

/-- Where a text is parsed, no leaf has more levels charged to it than the limit says, which leaves
room for about twice its square around the leaf. -/
theorem levels_of_parse {names : Name.Reading} {limit : Nat} {line : Option Nat} {text : String}
    {tree : Expr Mark} (h : parse names limit line text = .ok tree) :
    ∃ phrase, Phrase.read (expandProducts text).toList = .ok phrase ∧
      phrase.Within preceding limit ∧ phrase.Within enclosing (limit * (2 * limit + 3)) := by
  obtain ⟨phrase, hread, -, hcharged⟩ := (parse_succeeds names limit line text).mp ⟨tree, h⟩
  refine ⟨phrase, hread, hcharged, fun n hn => ?_⟩
  have hle : n + limit ≤ 2 * limit * limit + 4 * limit :=
    (formed_of_read hread).bounded limit hcharged n hn
  nlinarith

/-- Four chains of one operator each, with a group as the first operand of the innermost: under a
limit of one, the leaf in the group has as many levels around it as there can be. -/
theorem levels_of_parse_chains :
    let text := "(1)*1+1==1&&1"
    ∃ tree phrase, parse {} 1 none text = .ok tree ∧
      Phrase.read (expandProducts text).toList = .ok phrase ∧ phrase.Within preceding 1 ∧
      phrase.Within enclosing (1 * (2 * 1 + 3)) ∧ ¬ phrase.Within enclosing 4 := by
  intro text
  let one : Phrase := .number ['1'] []
  let whole : Phrase :=
    .chain (.chain (.chain (.chain (.group one) [(.arithmetic .multiply, one)])
      [(.arithmetic .add, one)]) [(.comparison .equal, one)]) [(.logical .and, one)]
  have hwhole : Phrase.read (expandProducts "(1)*1+1==1&&1").toList = .ok whole := rfl
  obtain ⟨tree, htree⟩ : ∃ tree, parse {} 1 none text = .ok tree :=
    parse_of_charged hwhole (by decide) (by decide)
  obtain ⟨phrase, hread, hcharged, haround⟩ := levels_of_parse htree
  refine ⟨tree, phrase, htree, hread, hcharged, haround, ?_⟩
  rw [hwhole] at hread
  cases hread
  decide

/-- With a group as the first operand of the chain, a leaf has four levels around it where three are
allowed. With the group as the last operand no leaf has more than three, and the text is refused. -/
theorem group_charged_last :
    (∃ phrase, Phrase.read (expandProducts "(1) + 1 + 1 + 1").toList = .ok phrase ∧
      phrase.levels enclosing = [4, 3, 2, 1] ∧
      ∃ tree, parse {} 3 none "(1) + 1 + 1 + 1" = .ok tree) ∧
    ∃ phrase, Phrase.read (expandProducts "1 + 1 + 1 + (1)").toList = .ok phrase ∧
      phrase.levels enclosing = [3, 3, 2, 2] ∧
      parse {} 3 none "1 + 1 + 1 + (1)" = .error (.tooDeep 4 3) := by
  let one : Phrase := .number ['1'] []
  let plus : Phrase → BinaryOperator × Phrase := fun p => (.arithmetic .add, p)
  let front : Phrase := .chain (.group one) [plus one, plus one, plus one]
  have hfront : Phrase.read (expandProducts "(1) + 1 + 1 + 1").toList = .ok front := rfl
  have hparse : ∃ tree, parse {} 3 none "(1) + 1 + 1 + 1" = .ok tree :=
    parse_of_charged hfront (by decide) (by decide)
  exact ⟨⟨front, hfront, by decide, hparse⟩,
    .chain one [plus one, plus one, plus (.group one)], rfl, by decide, rfl⟩

/-- A text is parsed where no leaf has more levels around it than the limit says, nor more charged to
it, and the estimate from the text does not exceed the limit either. Of the two counts only what is
charged decides (`parse_of_charged`). -/
theorem parse_of_levels {names : Name.Reading} {limit : Nat} {line : Option Nat} {text : String}
    {phrase : Phrase} (hread : Phrase.read (expandProducts text).toList = .ok phrase)
    (hlevels : phrase.Within enclosing limit ∧ phrase.Within preceding limit)
    (hestimate : estimateNesting (expandProducts text).toList ≤ limit) :
    ∃ tree, parse names limit line text = .ok tree :=
  parse_of_charged hread hlevels.2 hestimate

/-- The limit is reached by the levels of a leaf and by the estimate alike. -/
theorem parse_of_levels_square :
    let text := "f(2 ^ -x)"
    let phrase : Phrase :=
      .call "f" [.power (.number ['2'] []) (.signed .negative (.name "x"))]
    Phrase.read (expandProducts text).toList = .ok phrase ∧
      (phrase.Within enclosing 3 ∧ phrase.Within preceding 3) ∧ ¬ phrase.Within enclosing 2 ∧
      estimateNesting (expandProducts text).toList = 3 ∧
      ∃ tree, parse { scope := some "unit" } 3 (some 7) text = .ok tree := by
  intro text phrase
  have hread : Phrase.read (expandProducts "f(2 ^ -x)").toList = .ok phrase := rfl
  have hlevels : phrase.Within enclosing 3 ∧ phrase.Within preceding 3 := by decide
  have hestimate : estimateNesting (expandProducts text).toList = 3 := by decide
  exact ⟨hread, hlevels, by decide, hestimate, parse_of_levels hread hlevels hestimate.le⟩

/-- The group is in one argument and the sign in another. No leaf has more than two levels around it,
but the estimate adds the two up, and refuses the text. -/
theorem estimate_over_levels : ¬ ∀ (names : Name.Reading) (limit : Nat) (line : Option Nat)
    (text : String) (phrase : Phrase),
    Phrase.read (expandProducts text).toList = .ok phrase → phrase.Within enclosing limit →
    ∀ levels, parse names limit line text ≠ .error (.tooDeep levels limit) ∧
      parse names limit line text ≠ .error (.tooManyOperators levels limit) := by
  intro h
  let one : Phrase := .number ['1'] []
  let arguments : List Phrase := [.group one, .signed .negative one]
  exact (h {} 2 none "f((1), -1)" (.call "f" arguments) rfl (by decide) 3).1 rfl

end Expr

end Premise
