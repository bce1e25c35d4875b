import Mathlib.Data.List.Basic
import Mathlib.Tactic.Ring
import Premise.Proofs.Evaluation
import Premise.Proofs.Levels

/-!
The height of parsed expressions.

No path through a tree has more nodes than its height says (`length_le_height`). A level enters the
height only once on the way from an operator to its operand behind it, but a chain that is folded
from the left has its first operand under all of its operators, and each of the four tiers of chains
may spend the levels that remain anew. So the height is bounded by twice their square, with a
summand for each tier of chains that the phrase may stand on (`Tier.tallest`); where a level is
entered the square decreases by more than the four summands come to.

A tree that is built with some levels remaining is built with more of them just so
(`ofPhrase_mono`): the limit decides whether there is a tree, and not which.
-/

namespace Premise

namespace Expr

/-! ### Height -/

section

variable {α : Type}

mutual

/-- The number of nodes on the longest path from the root. -/
def height : Expr α → Nat
  | .literal _ _ | .reference _ _ => 1
  | .arithmetic _ _ left right | .comparison _ _ left right | .logical _ _ left right
  | .sets _ _ left right | .membership _ left right => max (height left) (height right) + 1
  | .negation _ operand | .complement _ operand => height operand + 1
  | .call _ _ arguments => heightAll arguments + 1

def heightAll : List (Expr α) → Nat
  | [] => 0
  | e :: es => max (height e) (heightAll es)

end

theorem height_le_heightAll {e : Expr α} {es : List (Expr α)} (h : e ∈ es) :
    e.height ≤ heightAll es := by
  induction es with
  | nil => cases h
  | cons x xs ih =>
    rw [heightAll]
    rcases List.mem_cons.mp h with rfl | hrest
    · exact Nat.le_max_left _ _
    · exact (ih hrest).trans (Nat.le_max_right _ _)

theorem heightAll_le {es : List (Expr α)} {bound : Nat} (h : ∀ e ∈ es, e.height ≤ bound) :
    heightAll es ≤ bound := by
  induction es with
  | nil => exact Nat.zero_le bound
  | cons e es ih =>
    obtain ⟨hhead, htail⟩ := List.forall_mem_cons.mp h
    exact Nat.max_le.mpr ⟨hhead, ih htail⟩

theorem height_lt_of_operand {e x : Expr α} (h : x ∈ e.operands) : x.height < e.height := by
  cases e with
  | literal m v | reference m name => cases h
  | arithmetic m op left right | comparison m op left right | logical m op left right
  | sets m op left right | membership m left right =>
    rw [height]
    rcases List.mem_pair.mp h with rfl | rfl <;> omega
  | negation m operand | complement m operand =>
    rw [height, List.mem_singleton.mp h]
    exact Nat.lt_succ_self _
  | call m name arguments => exact Nat.lt_succ_of_le (height_le_heightAll h)

theorem height_pos (e : Expr α) : 0 < e.height := by
  cases e <;> exact Nat.succ_pos _

/-- A path goes from a node to one of its operands at each step. -/
def Path (path : List (Expr α)) : Prop := path.IsChain fun e x => x ∈ e.operands

theorem length_le_height {e : Expr α} {path : List (Expr α)} (h : Path (e :: path)) :
    (e :: path).length ≤ e.height := by
  induction path generalizing e with
  | nil => exact e.height_pos
  | cons x path ih =>
    obtain ⟨hoperand, hrest⟩ := List.isChain_cons_cons.mp h
    exact Nat.succ_le_of_lt ((ih hrest).trans_lt (height_lt_of_operand hoperand))

@[simp] theorem height_unary (m : α) (op : UnaryOperator) (operand : Expr α) :
    (unary m op operand).height = operand.height + 1 := by
  cases op <;> rfl

@[simp] theorem height_binary (m : α) (op : BinaryOperator) (left right : Expr α) :
    (binary m op left right).height = max left.height right.height + 1 := by
  cases op <;> rfl

mutual

/-- What the nodes are marked with makes no difference. -/
theorem height_numberFrom (line : Option Nat) (next : Nat) (e : Expr α) :
    (numberFrom line next e).1.height = e.height := by
  cases e with
  | literal m v | reference m name => rfl
  | arithmetic m op left right | comparison m op left right | logical m op left right
  | sets m op left right | membership m left right =>
    simp only [numberFrom, height, height_numberFrom line _ left, height_numberFrom line _ right]
  | negation m operand | complement m operand =>
    simp only [numberFrom, height, height_numberFrom line _ operand]
  | call m name arguments =>
    simp only [numberFrom, height, heightAll_numberAllFrom line _ arguments]

theorem heightAll_numberAllFrom (line : Option Nat) (next : Nat) (es : List (Expr α)) :
    heightAll (numberAllFrom line next es).1 = heightAll es := by
  cases es with
  | nil => rfl
  | cons e es =>
    simp only [numberAllFrom, heightAll, height_numberFrom line _ e,
      heightAll_numberAllFrom line _ es]

end

end

end Expr

/-! ### What the levels that remain say of the height -/

namespace Tier

/-- The height of a tree of the tier at most, where so many levels remain. -/
def tallest (tier : Tier) (remaining : Nat) : Nat :=
  match tier with
  | .unary | .primary => max 1 (2 * remaining * remaining)
  | tier => 2 * remaining * remaining + (4 - tier.rank) * remaining + 1

theorem le_tallest (tier : Tier) (r : Nat) : max 1 (2 * r * r) ≤ tier.tallest r := by
  unfold tallest
  split
  · exact le_rfl
  · exact le_rfl
  · exact Nat.max_le.mpr ⟨Nat.le_add_left _ _, by omega⟩

/-- A level is enough room for a tree of any tier and one node more. -/
theorem tallest_lt (tier : Tier) {r s : Nat} (h : s + 1 = r) : tier.tallest s + 1 ≤ 2 * r * r := by
  subst h
  have hsquare : 2 * (s + 1) * (s + 1) = 2 * s * s + 4 * s + 2 := by ring
  have hweight : (4 - tier.rank) * s ≤ 4 * s := Nat.mul_le_mul_right s (by omega)
  rw [hsquare]
  unfold tallest
  split <;> omega

theorem tallest_mono (tier : Tier) {r s : Nat} (h : s ≤ r) : tier.tallest s ≤ tier.tallest r := by
  have hsquare : 2 * s * s ≤ 2 * r * r := Nat.mul_le_mul (Nat.mul_le_mul_left 2 h) h
  have hweight : (4 - tier.rank) * s ≤ (4 - tier.rank) * r := Nat.mul_le_mul_left _ h
  unfold tallest
  split <;> omega

/-- A tier of chains has room for one operator for each level. -/
theorem tallest_chain (level : Precedence) (r : Nat) :
    (Tier.chain level).next.tallest r + r = (Tier.chain level).tallest r := by
  cases level <;> simp only [next, tallest, rank] <;> omega

theorem tallest_next (tier : Tier) (r : Nat) : tier.next.tallest r ≤ tier.tallest r := by
  cases tier with
  | chain level => exact (Nat.le_add_right _ r).trans (tallest_chain level r).le
  | power => exact le_tallest .power r
  | unary | primary => exact le_rfl

end Tier

namespace Expr

open Phrase

variable {names : Name.Reading}

/-- However many levels remain, a tree of the phrase is no taller than the tier allows. -/
def HeightWithin (names : Name.Reading) (tier : Tier) (p : Phrase) : Prop :=
  ∀ ⦃d tree⦄, ofPhrase names d p = .ok tree → tree.height ≤ tier.tallest d.remaining

/-- Every argument is one level down. -/
theorem exists_of_mem_arguments {d : Depth} {ps : List Phrase} {trees : List (Expr Unit)}
    (h : ofArguments names d ps = .ok trees) {tree : Expr Unit} (hmem : tree ∈ trees) :
    ∃ p ∈ ps, ∃ deeper : Depth, deeper.remaining + 1 = d.remaining ∧
      ofPhrase names deeper p = .ok tree := by
  induction ps generalizing trees with
  | nil =>
    cases h
    cases hmem
  | cons p ps ih =>
    obtain ⟨deeper, hdeeper, h⟩ := bind_eq_ok.mp h
    obtain ⟨first, hfirst, h⟩ := bind_eq_ok.mp h
    obtain ⟨others, hothers, h⟩ := bind_eq_ok.mp h
    cases h
    rcases List.mem_cons.mp hmem with rfl | hmem
    · have hremaining := Depth.remaining_of_enter? ((enters_nest d deeper).mp hdeeper)
      exact ⟨p, List.mem_cons_self, deeper, hremaining, hfirst⟩
    · obtain ⟨q, hq, hbuilt⟩ := ih hothers hmem
      exact ⟨q, List.mem_cons_of_mem p hq, hbuilt⟩

/-- Each operator of a chain comes above the tree to its left and takes one of the levels that
remain, so that the two together stay the same. -/
theorem height_ofLinks {tier : Tier} {links : List (BinaryOperator × Phrase)}
    (hlinks : ∀ link ∈ links, HeightWithin names tier link.2) {d : Depth} {left tree : Expr Unit}
    (h : ofLinks names d left links = .ok tree) {r above : Nat} (hr : above + d.remaining = r)
    (hleft : left.height ≤ tier.tallest r + above) : tree.height ≤ tier.tallest r + r := by
  induction links generalizing d left above with
  | nil =>
    cases h
    omega
  | cons link links ih =>
    obtain ⟨op, p⟩ := link
    obtain ⟨hp, hrest⟩ := List.forall_mem_cons.mp hlinks
    obtain ⟨deeper, hdeeper, h⟩ := bind_eq_ok.mp h
    obtain ⟨right, hright, h⟩ := bind_eq_ok.mp h
    have hremaining := Depth.remaining_of_enter? ((enters_nestOperator d deeper).mp hdeeper)
    have hbound : right.height ≤ tier.tallest r :=
      (hp hright).trans (tier.tallest_mono (by omega))
    refine ih hrest h (show above + 1 + deeper.remaining = r by omega) ?_
    rw [height_binary]
    omega

theorem heightWithin_of_formed {tier : Tier} {p : Phrase} (h : Formed tier p) :
    HeightWithin names tier p := by
  induction h with
  | number whole fraction | text content | truth b | name name =>
    intro d tree htree
    cases htree
    exact Nat.le_max_left _ _
  | @call name arguments harguments ih =>
    intro d tree htree
    obtain ⟨trees, htrees, htree⟩ := bind_eq_ok.mp htree
    cases htree
    have hbelow : heightAll trees ≤ 2 * d.remaining * d.remaining - 1 := by
      refine heightAll_le fun e he => ?_
      obtain ⟨p, hp, deeper, hremaining, hbuilt⟩ := exists_of_mem_arguments htrees he
      have hle := ih p hp hbuilt
      have hroom := Tier.tallest_lt (.chain .logical) hremaining
      omega
    show heightAll trees + 1 ≤ max 1 (2 * d.remaining * d.remaining)
    omega
  | group hinner ih =>
    intro d tree htree
    obtain ⟨deeper, hdeeper, htree⟩ := bind_eq_ok.mp htree
    have hremaining := Depth.remaining_of_enter? ((enters_nest d deeper).mp hdeeper)
    have hroom := Tier.tallest_lt (.chain .logical) hremaining
    exact ((Nat.le_succ_of_le (ih htree)).trans hroom).trans (Nat.le_max_right _ _)
  | signed op hoperand ih =>
    intro d tree htree
    obtain ⟨deeper, hdeeper, htree⟩ := bind_eq_ok.mp htree
    obtain ⟨operand, hbuilt, htree⟩ := bind_eq_ok.mp htree
    cases htree
    have hremaining := Depth.remaining_of_enter? ((enters_nestOperator d deeper).mp hdeeper)
    have hroom := Tier.tallest_lt .unary hremaining
    rw [height_unary]
    exact ((Nat.succ_le_succ (ih hbuilt)).trans hroom).trans (Nat.le_max_right _ _)
  | power hbase hexponent ihbase ihexponent =>
    intro d tree htree
    obtain ⟨base, hbuilt, htree⟩ := bind_eq_ok.mp htree
    obtain ⟨deeper, hdeeper, htree⟩ := bind_eq_ok.mp htree
    obtain ⟨exponent, hbuilt', htree⟩ := bind_eq_ok.mp htree
    cases htree
    have hremaining := Depth.remaining_of_enter? ((enters_nest d deeper).mp hdeeper)
    have hroom := Tier.tallest_lt .power hremaining
    have hleft : base.height ≤ max 1 (2 * d.remaining * d.remaining) := ihbase hbuilt
    have hright := ihexponent hbuilt'
    show max base.height exponent.height + 1 ≤ 2 * d.remaining * d.remaining + 0 * d.remaining + 1
    omega
  | @chain level first links hfirst hlinks ihfirst ihlinks =>
    intro d tree htree
    obtain ⟨left, hleft, htree⟩ := bind_eq_ok.mp htree
    rw [← Tier.tallest_chain]
    exact height_ofLinks ihlinks htree (Nat.zero_add _) (ihfirst hleft)
  | @tighter tier p hp ih =>
    exact fun d tree htree => (ih htree).trans (tier.tallest_next d.remaining)

/-! ### More levels -/

/-- Where a level can be entered, it can be with more levels remaining, and they remain below. -/
theorem Enters.mono {d d' : Depth} {x x' : Except ParseError Depth} (hx : Enters d x)
    (hx' : Enters d' x') (hle : d.remaining ≤ d'.remaining) {deeper : Depth}
    (h : x = .ok deeper) : ∃ deeper', x' = .ok deeper' ∧ deeper.remaining ≤ deeper'.remaining := by
  have hremaining := Depth.remaining_of_enter? ((hx deeper).mp h)
  obtain ⟨deeper', henter, hremaining'⟩ := @Depth.exists_enter d' (by omega)
  exact ⟨deeper', (hx' deeper').mpr henter, by omega⟩

mutual

/-- With more levels remaining a phrase has the same tree. -/
theorem ofPhrase_mono {d d' : Depth} (hle : d.remaining ≤ d'.remaining) (p : Phrase)
    {tree : Expr Unit} (h : ofPhrase names d p = .ok tree) : ofPhrase names d' p = .ok tree := by
  cases p with
  | number whole fraction | text content | truth b | name name => exact h
  | call name arguments =>
    obtain ⟨trees, htrees, h⟩ := bind_eq_ok.mp h
    exact bind_eq_ok.mpr ⟨trees, ofArguments_mono hle arguments htrees, h⟩
  | group inner =>
    obtain ⟨deeper, hdeeper, h⟩ := bind_eq_ok.mp h
    obtain ⟨deeper', hdeeper', hle'⟩ := (enters_nest d).mono (enters_nest d') hle hdeeper
    exact bind_eq_ok.mpr ⟨deeper', hdeeper', ofPhrase_mono hle' inner h⟩
  | signed op operand =>
    obtain ⟨deeper, hdeeper, h⟩ := bind_eq_ok.mp h
    obtain ⟨tree, htree, h⟩ := bind_eq_ok.mp h
    obtain ⟨deeper', hdeeper', hle'⟩ :=
      (enters_nestOperator d).mono (enters_nestOperator d') hle hdeeper
    exact bind_eq_ok.mpr ⟨deeper', hdeeper', bind_eq_ok.mpr
      ⟨tree, ofPhrase_mono hle' operand htree, h⟩⟩
  | power base exponent =>
    obtain ⟨left, hleft, h⟩ := bind_eq_ok.mp h
    obtain ⟨deeper, hdeeper, h⟩ := bind_eq_ok.mp h
    obtain ⟨right, hright, h⟩ := bind_eq_ok.mp h
    obtain ⟨deeper', hdeeper', hle'⟩ := (enters_nest d).mono (enters_nest d') hle hdeeper
    exact bind_eq_ok.mpr ⟨left, ofPhrase_mono hle base hleft, bind_eq_ok.mpr
      ⟨deeper', hdeeper', bind_eq_ok.mpr ⟨right, ofPhrase_mono hle' exponent hright, h⟩⟩⟩
  | chain first links =>
    obtain ⟨left, hleft, h⟩ := bind_eq_ok.mp h
    exact bind_eq_ok.mpr ⟨left, ofPhrase_mono hle first hleft, ofLinks_mono hle left links h⟩

theorem ofArguments_mono {d d' : Depth} (hle : d.remaining ≤ d'.remaining) (ps : List Phrase)
    {trees : List (Expr Unit)} (h : ofArguments names d ps = .ok trees) :
    ofArguments names d' ps = .ok trees := by
  cases ps with
  | nil => exact h
  | cons p ps =>
    obtain ⟨deeper, hdeeper, h⟩ := bind_eq_ok.mp h
    obtain ⟨tree, htree, h⟩ := bind_eq_ok.mp h
    obtain ⟨others, hothers, h⟩ := bind_eq_ok.mp h
    obtain ⟨deeper', hdeeper', hle'⟩ := (enters_nest d).mono (enters_nest d') hle hdeeper
    exact bind_eq_ok.mpr ⟨deeper', hdeeper', bind_eq_ok.mpr
      ⟨tree, ofPhrase_mono hle' p htree, bind_eq_ok.mpr
        ⟨others, ofArguments_mono hle ps hothers, h⟩⟩⟩

theorem ofLinks_mono {d d' : Depth} (hle : d.remaining ≤ d'.remaining) (left : Expr Unit)
    (links : List (BinaryOperator × Phrase)) {tree : Expr Unit}
    (h : ofLinks names d left links = .ok tree) : ofLinks names d' left links = .ok tree := by
  cases links with
  | nil => exact h
  | cons link links =>
    obtain ⟨op, p⟩ := link
    obtain ⟨deeper, hdeeper, h⟩ := bind_eq_ok.mp h
    obtain ⟨right, hright, h⟩ := bind_eq_ok.mp h
    obtain ⟨deeper', hdeeper', hle'⟩ :=
      (enters_nestOperator d).mono (enters_nestOperator d') hle hdeeper
    exact bind_eq_ok.mpr ⟨deeper', hdeeper', bind_eq_ok.mpr
      ⟨right, ofPhrase_mono hle' p hright, ofLinks_mono hle' (binary () op left right) links h⟩⟩

end

/-! ### Parsed texts -/

/-- Whatever the length of a text, the limit alone bounds the paths through its tree, and every
larger limit lets the same tree through. -/
theorem height_of_parse {limit : Nat} {line : Option Nat} {text : String} {tree : Expr Mark}
    (h : parse names limit line text = .ok tree) :
    (∀ path, Path (tree :: path) → (tree :: path).length ≤ 2 * (limit + 1) ^ 2 - 1) ∧
      ∀ limit', limit ≤ limit' → parse names limit' line text = .ok tree := by
  obtain ⟨phrase, built, hread, hestimate, hbuilt, rfl⟩ := parse_eq_ok.mp h
  refine ⟨fun path hpath => ?_, fun limit' hle => ?_⟩
  · have hlength : (built.numbered line :: path).length ≤ built.height :=
      (length_le_height hpath).trans_eq (height_numberFrom line 0 built)
    have hheight : built.height ≤ 2 * limit * limit + 4 * limit + 1 :=
      heightWithin_of_formed (formed_of_read hread) hbuilt
    have hsquare : 2 * (limit + 1) ^ 2 = 2 * limit * limit + 4 * limit + 2 := by ring
    omega
  · have hremaining : Depth.remaining { limit } ≤ Depth.remaining { limit := limit' } :=
      Nat.sub_le_sub_right hle 0
    have hmore := ofPhrase_mono hremaining phrase hbuilt
    exact parse_eq_ok.mpr ⟨phrase, built, hread, hestimate.trans hle, hmore, rfl⟩

/-- Four chains of one operator each and a group as the first operand of the innermost: under a
limit of one there is a path of five nodes, of the seven that are allowed, and no other path has
eight. -/
theorem height_of_parse_chains :
    let text := "(1)*1+1==1&&1"
    ∃ tree, parse {} 1 none text = .ok tree ∧
      (∃ path, Path (tree :: path) ∧ (tree :: path).length = 5) ∧
      (∀ path, Path (tree :: path) → (tree :: path).length ≤ 7) ∧
      parse {} 1000 none text = .ok tree := by
  intro text
  let one : Phrase := .number ['1'] []
  let whole : Phrase :=
    .chain (.chain (.chain (.chain (.group one) [(.arithmetic .multiply, one)])
      [(.arithmetic .add, one)]) [(.comparison .equal, one)]) [(.logical .and, one)]
  have hread : Phrase.read (expandProducts "(1)*1+1==1&&1").toList = .ok whole := rfl
  let leaf : Nat → Expr Mark := fun id => .literal ⟨id, none⟩ (.number 1)
  let product : Expr Mark := .arithmetic ⟨2, none⟩ .multiply (leaf 0) (leaf 1)
  let sum : Expr Mark := .arithmetic ⟨4, none⟩ .add product (leaf 3)
  let equation : Expr Mark := .comparison ⟨6, none⟩ .equal sum (leaf 5)
  let tree : Expr Mark := .logical ⟨8, none⟩ .and equation (leaf 7)
  have htree : parse {} 1 none text = .ok tree :=
    parse_eq_ok.mpr ⟨whole, tree.unmarked, hread, by decide, rfl, rfl⟩
  obtain ⟨hpaths, hlarger⟩ := height_of_parse htree
  refine ⟨tree, htree, ⟨[equation, sum, product, leaf 0], ?_, rfl⟩, hpaths, hlarger 1000 (by omega)⟩
  simp [Path, tree, equation, sum, product, operands]

end Expr

end Premise
