import Premise.Proofs.Recognition

/-!
The nonterminals that are tried while a text is matched, and in which others.

A nonterminal is tried where it stands in the pattern of another that is being tried, whether or not
either matches in the end (`Reaches`); so these are the calls of a parser that descends from the
whole text. Every node of a parse tree is that of such a call (`Tree.Path.reaches`). Only groups,
arguments and exponents lead back to a looser nonterminal, so without them there are no more than
nine calls in one another (`Reaches.length`).
-/

namespace Premise

namespace Grammar

/-- The nonterminals that stand in a pattern. -/
def Pattern.rules : Pattern → List Nonterminal
  | .char _ | .text _ => []
  | .rule n => [n]
  | .seq p q | .alt p q => p.rules ++ q.rules
  | .many p | .more p | .optional p | .not p => p.rules

/-- Matching a pattern on a text comes to trying a nonterminal of it on another: what stands before
it in a sequence has matched then, and what is tried before it has failed. -/
inductive Tries (m : Mode) : Pattern → List Char → Nonterminal → List Char → Prop
  | rule {n : Nonterminal} {cs : List Char} : Tries m (.rule n) cs n cs
  | seq {p q : Pattern} {cs cs' : List Char} {n : Nonterminal} (h : Tries m p cs n cs') :
      Tries m (.seq p q) cs n cs'
  | seqNext {p q : Pattern} {cs mid cs' : List Char} {ts : List Tree} {n : Nonterminal}
      (hp : Matches m p cs (some (ts, mid))) (h : Tries m q (m.gap mid) n cs') :
      Tries m (.seq p q) cs n cs'
  | alt {p q : Pattern} {cs cs' : List Char} {n : Nonterminal} (h : Tries m p cs n cs') :
      Tries m (.alt p q) cs n cs'
  | altNext {p q : Pattern} {cs cs' : List Char} {n : Nonterminal} (hp : Matches m p cs none)
      (h : Tries m q cs n cs') : Tries m (.alt p q) cs n cs'
  | many {p : Pattern} {cs cs' : List Char} {n : Nonterminal} (h : Tries m p cs n cs') :
      Tries m (.many p) cs n cs'
  | manyNext {p : Pattern} {cs mid cs' : List Char} {ts : List Tree} {n : Nonterminal}
      (hp : Matches m p cs (some (ts, mid))) (h : Tries m (.more p) mid n cs') :
      Tries m (.many p) cs n cs'
  | more {p : Pattern} {cs cs' : List Char} {n : Nonterminal} (h : Tries m p (m.gap cs) n cs') :
      Tries m (.more p) cs n cs'
  | moreNext {p : Pattern} {cs mid cs' : List Char} {ts : List Tree} {n : Nonterminal}
      (hp : Matches m p (m.gap cs) (some (ts, mid))) (h : Tries m (.more p) mid n cs') :
      Tries m (.more p) cs n cs'
  | optional {p : Pattern} {cs cs' : List Char} {n : Nonterminal} (h : Tries m p cs n cs') :
      Tries m (.optional p) cs n cs'
  | not {p : Pattern} {cs cs' : List Char} {n : Nonterminal} (h : Tries m p cs n cs') :
      Tries m (.not p) cs n cs'

/-- A nonterminal is tried in a text, with the calls it is tried in, the innermost first. -/
inductive Reaches (source : List Char) :
    List Nonterminal → Nonterminal → Mode → List Char → Prop
  | start : Reaches source [] .input .spaced source
  | call {outer : List Nonterminal} {n n' : Nonterminal} {m : Mode} {cs cs' : List Char}
      (h : Reaches source outer n m cs) (htries : Tries (n.mode m) n.pattern cs n' cs') :
      Reaches source (n :: outer) n' (n.mode m) cs'

/-- A node stands in a tree, below the nodes of other nonterminals, the innermost first. -/
inductive Tree.Path (t : Tree) : List Nonterminal → Tree → Prop
  | root : Path t [] t
  | inner {outer : List Nonterminal} {u v : Tree} (h : Path t outer u) (hinner : v ∈ u.inner) :
      Path t (u.root :: outer) v

/-- What is in the other is a group, an argument or an exponent. -/
def Nonterminal.nests : Nonterminal → Nonterminal → Bool
  | .unary, .chain .logical => true
  | .call, .chain .logical => true
  | .power, .power => true
  | _, _ => false

/-- How many groups, arguments and exponents there are among nonterminals, each of which is in the
next. -/
def nesting : List Nonterminal → Nat
  | inner :: outer :: others => nesting (outer :: others) + (outer.nests inner).toNat
  | _ => 0

def Nonterminal.isSign : Nonterminal → Bool
  | .sign _ => true
  | _ => false

/-- The signs in front of an operand. -/
def Tree.signs (t : Tree) : Nat := t.inner.countP fun u => u.root.isSign

variable {m : Mode} {p : Pattern} {n n' : Nonterminal} {cs cs' rest source : List Char}
  {ts : List Tree} {outer : List Nonterminal}

theorem Tries.mem_rules (h : Tries m p cs n cs') : n ∈ p.rules := by
  induction h with
  | rule => exact List.mem_singleton_self _
  | seq h ih | alt h ih => exact List.mem_append_left _ ih
  | seqNext hp h ih | altNext hp h ih => exact List.mem_append_right _ ih
  | many h ih | manyNext hp h ih | more h ih | moreNext hp h ih | optional h ih | not h ih =>
    exact ih

/-- Where nonterminals come to nodes, every node is that of one that was tried. -/
theorem Matches.exists_tries {r : Option (List Tree × List Char)} (h : Matches m p cs r)
    (hm : m ≠ .atomic) : ∀ found ∈ r, ∀ t ∈ found.1, ∃ start after, Tries m p cs t.root start ∧
      Matches (t.root.mode m) t.root.pattern start (some (t.inner, after)) := by
  induction h with
  | charFails | textFails | ruleFails | seqFails | seqEnds | notFails => exact nofun
  | char | text | manyNone | moreNone | optionalNone | not =>
    intro found hfound t ht
    cases hfound
    cases ht
  | rule h hcs =>
    intro found hfound t ht
    cases hfound
    rw [Mode.grow, if_neg hm, List.mem_singleton] at ht
    subst ht
    exact ⟨_, _, .rule, h⟩
  | seq hp hq ihp ihq =>
    intro found hfound t ht
    cases hfound
    rcases List.mem_append.mp ht with ht | ht
    · obtain ⟨start, after, htries, hmatches⟩ := ihp hm _ rfl t ht
      exact ⟨start, after, .seq htries, hmatches⟩
    · obtain ⟨start, after, htries, hmatches⟩ := ihq hm _ rfl t ht
      exact ⟨start, after, .seqNext hp htries, hmatches⟩
  | alt hp ihp =>
    intro found hfound t ht
    obtain ⟨start, after, htries, hmatches⟩ := ihp hm found hfound t ht
    exact ⟨start, after, .alt htries, hmatches⟩
  | altElse hp hq ihp ihq =>
    intro found hfound t ht
    obtain ⟨start, after, htries, hmatches⟩ := ihq hm found hfound t ht
    exact ⟨start, after, .altNext hp htries, hmatches⟩
  | many hp hmore ihp ihmore =>
    intro found hfound t ht
    cases hfound
    rcases List.mem_append.mp ht with ht | ht
    · obtain ⟨start, after, htries, hmatches⟩ := ihp hm _ rfl t ht
      exact ⟨start, after, .many htries, hmatches⟩
    · obtain ⟨start, after, htries, hmatches⟩ := ihmore hm _ rfl t ht
      exact ⟨start, after, .manyNext hp htries, hmatches⟩
  | more hp hmore ihp ihmore =>
    intro found hfound t ht
    cases hfound
    rcases List.mem_append.mp ht with ht | ht
    · obtain ⟨start, after, htries, hmatches⟩ := ihp hm _ rfl t ht
      exact ⟨start, after, .more htries, hmatches⟩
    · obtain ⟨start, after, htries, hmatches⟩ := ihmore hm _ rfl t ht
      exact ⟨start, after, .moreNext hp htries, hmatches⟩
  | optional hp ihp =>
    intro found hfound t ht
    obtain ⟨start, after, htries, hmatches⟩ := ihp hm found hfound t ht
    exact ⟨start, after, .optional htries, hmatches⟩

/-- Without nonterminals there are no nodes. -/
theorem Matches.eq_nil {r : Option (List Tree × List Char)} (h : Matches m p cs r)
    (hp : p.rules = []) : ∀ found ∈ r, found.1 = [] := by
  induction h with
  | charFails | textFails | ruleFails | seqFails | seqEnds | notFails => exact nofun
  | char | text | manyNone | moreNone | optionalNone | not =>
    intro found hfound
    cases hfound
    rfl
  | rule => cases hp
  | seq _ _ ihp ihq =>
    intro found hfound
    cases hfound
    obtain ⟨hfirst, hsecond⟩ := List.append_eq_nil_iff.mp hp
    exact List.append_eq_nil_iff.mpr ⟨ihp hfirst _ rfl, ihq hsecond _ rfl⟩
  | alt _ ihp => exact ihp (List.append_eq_nil_iff.mp hp).1
  | altElse _ _ _ ihq => exact ihq (List.append_eq_nil_iff.mp hp).2
  | many _ _ ihp ihmore | more _ _ ihp ihmore =>
    intro found hfound
    cases hfound
    exact List.append_eq_nil_iff.mpr ⟨ihp hp _ rfl, ihmore hp _ rfl⟩
  | optional _ ihp => exact ihp hp

theorem rules_operator (op : BinaryOperator) : (Nonterminal.operator op).pattern.rules = [] := by
  rw [Nonterminal.pattern_operator]
  cases Pattern.barred op <;> rfl

/-- Tokens have no nonterminals inside. -/
theorem rules_of_atomic (hm : m ≠ .atomic) (h : n.mode m = .atomic) : n.pattern.rules = [] := by
  cases n with
  | number | content | boolean | identifier => rfl
  | operator op => exact rules_operator op
  | string => cases h
  | input | chain | power | unary | sign | call | finish => exact absurd h hm

/-- Every node of the tree of a text is that of a nonterminal that was tried in the text. -/
theorem Tree.Path.reaches {t u : Tree} (hpath : t.Path outer u) (ht : Parses source t) :
    ∃ m start after, m ≠ .atomic ∧ Reaches source outer u.root m start ∧
      Matches (u.root.mode m) u.root.pattern start (some (u.inner, after)) := by
  induction hpath with
  | root =>
    obtain ⟨rest, hrule⟩ := ht
    obtain ⟨start, after, htries, hmatches⟩ :=
      hrule.exists_tries nofun _ rfl t (List.mem_singleton_self t)
    generalize t.root = n at htries hmatches ⊢
    cases htries
    exact ⟨.spaced, source, after, nofun, .start, hmatches⟩
  | inner _ hinner ih =>
    rename_i outer u v _
    obtain ⟨m, start, after, hm, hreaches, hmatches⟩ := ih
    by_cases hatomic : u.root.mode m = .atomic
    · have hnone : u.inner = [] := hmatches.eq_nil (rules_of_atomic hm hatomic) _ rfl
      rw [hnone] at hinner
      cases hinner
    · obtain ⟨start, after, htries, hmatches⟩ := hmatches.exists_tries hatomic _ rfl v hinner
      exact ⟨_, start, after, hatomic, hreaches.call htries, hmatches⟩

/-! ### How many calls there are to a nest -/

/-- At most so many nonterminals are in one another from this one on, where none is a group, an
argument or an exponent. -/
def Nonterminal.height : Nonterminal → Nat
  | .input => 9
  | .chain .logical => 8
  | .chain .comparison => 7
  | .chain .additive => 6
  | .chain .multiplicative => 5
  | .power => 4
  | .unary => 3
  | .call | .string => 2
  | .operator _ | .sign _ | .number | .content _ | .boolean | .identifier | .finish => 1

theorem Nonterminal.height_pos (n : Nonterminal) : 0 < n.height := by
  cases n with
  | chain level => cases level <;> decide
  | _ => exact Nat.succ_pos _

theorem height_of_mem_rules (h : n' ∈ n.pattern.rules) :
    n'.height + 1 ≤ n.height + 7 * (n.nests n').toNat := by
  revert n'
  cases n with
  | chain level => cases level <;> decide
  | operator op =>
    rw [rules_operator]
    exact nofun
  | sign | content => exact nofun
  | input | power | unary | call | number | string | boolean | identifier | finish => decide

theorem Reaches.length (h : Reaches source outer n m cs) :
    outer.length + n.height ≤ 9 + 7 * nesting (n :: outer) := by
  induction h with
  | start => exact Nat.le_refl 9
  | call h htries ih =>
    have hheight := height_of_mem_rules htries.mem_rules
    rw [List.length_cons, nesting, Nat.mul_add]
    omega

end Grammar

end Premise
