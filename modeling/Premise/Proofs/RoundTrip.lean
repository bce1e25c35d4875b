import Mathlib.Data.List.TakeWhile
import Premise.Proofs.Reading

/-!
Expressions are parsed back from their texts.

The tree of a layout is built from its phrase without running out of levels, since every level that
is entered stands for a token; numbering its nodes does not change it. With the reading of the text
this makes parsing undo writing, however the parentheses and the white space were chosen.
-/

namespace Premise

namespace Expr

variable {α : Type}

mutual

/-- The tree without its annotations. -/
def unmarked : Expr α → Expr Unit
  | .literal _ v => .literal () v
  | .reference _ name => .reference () name
  | .arithmetic _ op left right => .arithmetic () op left.unmarked right.unmarked
  | .comparison _ op left right => .comparison () op left.unmarked right.unmarked
  | .logical _ op left right => .logical () op left.unmarked right.unmarked
  | .sets _ op left right => .sets () op left.unmarked right.unmarked
  | .membership _ element collection => .membership () element.unmarked collection.unmarked
  | .negation _ operand => .negation () operand.unmarked
  | .complement _ operand => .complement () operand.unmarked
  | .call _ name arguments => .call () name (unmarkedAll arguments)

def unmarkedAll : List (Expr α) → List (Expr Unit)
  | [] => []
  | e :: es => e.unmarked :: unmarkedAll es

end

mutual

theorem unmarked_unit (e : Expr Unit) : e.unmarked = e := by
  cases e with
  | literal m v => rfl
  | reference m name => rfl
  | arithmetic m op left right => rw [unmarked, unmarked_unit left, unmarked_unit right]
  | comparison m op left right => rw [unmarked, unmarked_unit left, unmarked_unit right]
  | logical m op left right => rw [unmarked, unmarked_unit left, unmarked_unit right]
  | sets m op left right => rw [unmarked, unmarked_unit left, unmarked_unit right]
  | membership m element collection =>
    rw [unmarked, unmarked_unit element, unmarked_unit collection]
  | negation m operand => rw [unmarked, unmarked_unit operand]
  | complement m operand => rw [unmarked, unmarked_unit operand]
  | call m name arguments => rw [unmarked, unmarkedAll_unit arguments]

theorem unmarkedAll_unit (es : List (Expr Unit)) : unmarkedAll es = es := by
  cases es with
  | nil => rfl
  | cons e es => rw [unmarkedAll, unmarked_unit e, unmarkedAll_unit es]

end

mutual

theorem unmarked_numberFrom (line : Option Nat) (next : Nat) (e : Expr α) :
    (numberFrom line next e).1.unmarked = e.unmarked := by
  cases e with
  | literal m v => rfl
  | reference m name => rfl
  | arithmetic m op left right =>
    simp only [numberFrom, unmarked, unmarked_numberFrom line _ left,
      unmarked_numberFrom line _ right]
  | comparison m op left right =>
    simp only [numberFrom, unmarked, unmarked_numberFrom line _ left,
      unmarked_numberFrom line _ right]
  | logical m op left right =>
    simp only [numberFrom, unmarked, unmarked_numberFrom line _ left,
      unmarked_numberFrom line _ right]
  | sets m op left right =>
    simp only [numberFrom, unmarked, unmarked_numberFrom line _ left,
      unmarked_numberFrom line _ right]
  | membership m element collection =>
    simp only [numberFrom, unmarked, unmarked_numberFrom line _ element,
      unmarked_numberFrom line _ collection]
  | negation m operand => simp only [numberFrom, unmarked, unmarked_numberFrom line _ operand]
  | complement m operand => simp only [numberFrom, unmarked, unmarked_numberFrom line _ operand]
  | call m name arguments =>
    simp only [numberFrom, unmarked, unmarkedAll_numberAllFrom line _ arguments]

theorem unmarkedAll_numberAllFrom (line : Option Nat) (next : Nat) (es : List (Expr α)) :
    unmarkedAll (numberAllFrom line next es).1 = unmarkedAll es := by
  cases es with
  | nil => rfl
  | cons e es =>
    simp only [numberAllFrom, unmarkedAll, unmarked_numberFrom line _ e,
      unmarkedAll_numberAllFrom line _ es]

end

end Expr

namespace Number

/-- Digits with or without a fraction are read as they are. -/
theorem decimal?_token {whole fraction : List Char} (h : Layout.IsDecimal whole fraction) :
    decimal? (Layout.numberToken whole fraction) =
      some (Written.value ⟨whole, fraction, 0⟩) := by
  obtain ⟨d, ds, heq, hdigit, _⟩ := h.token
  obtain ⟨hne, hwhole, hfraction⟩ := h
  have hsign : d ≠ '-' := by
    rintro rfl
    exact absurd hdigit (by decide)
  have hunsigned : unsigned? (Layout.numberToken whole fraction) = some ⟨whole, fraction, 0⟩ := by
    have hempty : whole.isEmpty = false := by simpa using hne
    have htake := List.takeWhile_eq_self_iff.mpr hfraction
    have hdrop := List.dropWhile_eq_nil_iff.mpr hfraction
    unfold unsigned? Layout.numberToken
    cases fraction with
    | nil =>
      have hall := List.takeWhile_eq_self_iff.mpr hwhole
      have hnone := List.dropWhile_eq_nil_iff.mpr hwhole
      simp [hall, hnone, hempty]
    | cons c cs =>
      have hpoint : ∀ x ∈ ('.' :: c :: cs).head?, x.isDigit = false :=
        fun x hx => Option.some.inj hx ▸ rfl
      simp only [List.isEmpty_cons, Bool.false_eq_true, if_false]
      rw [Text.takeWhile_run hwhole hpoint, Text.dropWhile_run hwhole hpoint]
      simp [htake, hdrop, hempty]
  rw [heq] at hunsigned ⊢
  simp [decimal?, hsign, hunsigned]

end Number

namespace Depth

theorem exists_enter {d : Depth} (h : 0 < d.remaining) :
    ∃ deeper, d.enter? = some deeper ∧ deeper.remaining + 1 = d.remaining := by
  cases henter : d.enter? with
  | some deeper => exact ⟨deeper, rfl, remaining_of_enter? henter⟩
  | none =>
    unfold enter? at henter
    unfold remaining at h
    split at henter
    · cases henter
    · omega

end Depth

namespace Layout

theorem nest_of_remaining {d : Depth} (h : 0 < d.remaining) :
    ∃ deeper, Expr.nest d = .ok deeper ∧ Expr.nestOperator d = .ok deeper ∧
      deeper.remaining + 1 = d.remaining := by
  obtain ⟨deeper, henter, hremaining⟩ := Depth.exists_enter h
  unfold Expr.nest Expr.nestOperator
  rw [henter]
  exact ⟨deeper, rfl, rfl, hremaining⟩

theorem length_argumentTokens_le (ls : List Layout) :
    (argumentTokens ls).length ≤ (moreTokens ls).length := by
  cases ls with
  | nil => exact Nat.le_refl 0
  | cons l ls =>
    simp only [argumentTokens, moreTokens, List.length_append, List.length_cons]
    omega

/-- With a level for each token, the phrase comes to the tree. -/
def Builds (l : Layout) : Prop :=
  ∀ d : Depth, l.tokens.length ≤ d.remaining → Expr.ofPhrase {} d l.phrase = .ok l.tree

/-- The first operand and the links come to the tree, on which more links can be built. -/
def BuildsLinks (l : Layout) (level : Precedence) : Prop :=
  ∀ d : Depth, l.tokens.length ≤ d.remaining →
    ∃ start deeper, Expr.ofPhrase {} d (l.spine level).1 = .ok start ∧
      deeper.remaining + (l.spine level).2.length = d.remaining ∧
      ∀ more, Expr.ofLinks {} d start ((l.spine level).2 ++ more) = Expr.ofLinks {} deeper l.tree more

variable {l left right : Layout} {level : Precedence} {op : BinaryOperator}

theorem buildsLinks_of_ne (h : l.Builds) (hne : l.tier ≠ .chain level) : l.BuildsLinks level := by
  intro d hd
  rw [spine_of_ne hne]
  exact ⟨l.tree, d, h d hd, rfl, fun more => rfl⟩

theorem buildsLinks_binary (hop : op.level? = some level) (hleft : left.BuildsLinks level)
    (hright : right.Builds) : (binary op left right).BuildsLinks level := by
  intro d hd
  have hlen : left.tokens.length + (right.tokens.length + 1) ≤ d.remaining := by
    simpa [tokens] using hd
  have hspine : (left.spine level).2.length < left.tokens.length := length_spine_lt left _
  obtain ⟨start, deeper, hfirst, hremaining, hlinks⟩ := hleft d (by omega)
  obtain ⟨next, _, hnext, hless⟩ := @nest_of_remaining deeper (by omega)
  have hoperand := hright next (by omega)
  rw [spine_binary hop]
  refine ⟨start, next, hfirst, ?_, fun more => ?_⟩
  · simp only [List.length_append, List.length_cons, List.length_nil]
    omega
  · rw [List.append_assoc, hlinks, List.singleton_append, Expr.ofLinks, hnext]
    simp only [bind, Except.bind, hoperand, tree]

theorem builds_binary (hop : op.level? = some level)
    (h : (binary op left right).BuildsLinks level) : (binary op left right).Builds := by
  intro d hd
  obtain ⟨start, deeper, hfirst, _, hlinks⟩ := h d hd
  have hall := hlinks []
  rw [List.append_nil] at hall
  rw [spine_binary hop] at hfirst hall
  rw [phrase_binary hop, Expr.ofPhrase, hfirst]
  simp only [bind, Except.bind, hall, Expr.ofLinks]

mutual

theorem builds (l : Layout) (h : l.Valid) :
    l.Builds ∧ ∀ level, l.tier = .chain level → l.BuildsLinks level := by
  cases l with
  | number x whole fraction =>
    have hvalue := Number.decimal?_token h.1
    rw [h.2] at hvalue
    refine ⟨fun d _ => ?_, fun level hlevel => nomatch hlevel⟩
    rw [phrase, Expr.ofPhrase, tree, Option.some.inj hvalue]
  | text quote content =>
    exact ⟨fun d _ => by rw [phrase, Expr.ofPhrase, tree], fun level hlevel => nomatch hlevel⟩
  | truth b =>
    exact ⟨fun d _ => by rw [phrase, Expr.ofPhrase, tree], fun level hlevel => nomatch hlevel⟩
  | name spelling =>
    refine ⟨fun d _ => ?_, fun level hlevel => nomatch hlevel⟩
    rw [phrase, Expr.ofPhrase, tree]
    rfl
  | call function arguments =>
    refine ⟨fun d hd => ?_, fun level hlevel => nomatch hlevel⟩
    have hlen : (argumentTokens arguments).length < d.remaining := by
      simp only [tokens, List.length_append, List.length_cons, List.length_nil] at hd
      omega
    rw [phrase, Expr.ofPhrase, builds_arguments arguments h.2 d hlen, tree]
    rfl
  | group inner =>
    refine ⟨fun d hd => ?_, fun level hlevel => nomatch hlevel⟩
    have hlen : inner.tokens.length + 2 ≤ d.remaining := by
      simp only [tokens, List.length_append, List.length_cons, List.length_nil] at hd
      omega
    obtain ⟨deeper, hnest, _, hless⟩ := @nest_of_remaining d (by omega)
    rw [phrase, Expr.ofPhrase, hnest, tree]
    exact (builds inner h).1 deeper (by omega)
  | signed op operand =>
    refine ⟨fun d hd => ?_, fun level hlevel => nomatch hlevel⟩
    have hlen : operand.tokens.length + 1 ≤ d.remaining := by simpa [tokens] using hd
    obtain ⟨deeper, _, hnest, hless⟩ := @nest_of_remaining d (by omega)
    have hoperand := (builds operand h.1).1 deeper (by omega)
    rw [phrase, Expr.ofPhrase, hnest, tree]
    simp only [bind, Except.bind, hoperand]
  | power base exponent =>
    refine ⟨fun d hd => ?_, fun level hlevel => nomatch hlevel⟩
    have hlen : base.tokens.length + (exponent.tokens.length + 1) ≤ d.remaining := by
      simpa [tokens] using hd
    obtain ⟨deeper, hnest, _, hless⟩ := @nest_of_remaining d (by omega)
    have hbase := (builds base h.1).1 d (by omega)
    have hexponent := (builds exponent h.2.1).1 deeper (by omega)
    rw [phrase, Expr.ofPhrase, hbase, tree]
    simp only [bind, Except.bind, hnest, hexponent]
  | binary op left right =>
    obtain ⟨hleft, hright, level, hop, hlefttier, _⟩ := h
    have hlinks : left.BuildsLinks level := by
      by_cases heq : left.tier = .chain level
      · exact (builds left hleft).2 level heq
      · exact buildsLinks_of_ne (builds left hleft).1 heq
    have hall := buildsLinks_binary hop hlinks (builds right hright).1
    refine ⟨builds_binary hop hall, fun other hother => ?_⟩
    rw [tier_binary hop] at hother
    cases hother
    exact hall

theorem builds_arguments (ls : List Layout) (h : AllValid ls) (d : Depth)
    (hd : (argumentTokens ls).length < d.remaining) :
    Expr.ofArguments {} d (phrases ls) = .ok (trees ls) := by
  cases ls with
  | nil => rfl
  | cons l ls =>
    have hmore := length_argumentTokens_le ls
    have hlen : l.tokens.length + (moreTokens ls).length < d.remaining := by
      simpa [argumentTokens] using hd
    obtain ⟨deeper, hnest, _, hless⟩ := @nest_of_remaining d (by omega)
    have hargument := (builds l h.1).1 deeper (by omega)
    have hothers := builds_arguments ls h.2 d (by omega)
    rw [phrases, Expr.ofArguments, hnest, trees]
    simp only [bind, Except.bind, hargument, hothers]

end

/-! ### Every expression has a layout -/

/-- Parentheses around both operands are always enough. -/
theorem valid_binary (hop : op.level? = some level) (hleft : left.Valid) (hright : right.Valid) :
    (binary op (group left) (group right)).Valid :=
  ⟨hleft, hright, level, hop, Tier.le_primary _, Tier.le_primary _⟩

theorem exists_written {ts : List (List Char)} (hne : ts ≠ []) :
    ∃ text : String, Written ts text.toList := by
  have hbehind : ∀ us : List (List Char), Behind us (us.flatMap fun t => ' ' :: t) [] := by
    intro us
    induction us with
    | nil => rfl
    | cons u us ih =>
      have hspace : ∀ c ∈ [' '], Phrase.isSpace c = true := List.all_eq_true.mp rfl
      exact ⟨[' '], us.flatMap fun t => ' ' :: t, by simp, hspace, rfl, ih⟩
  cases ts with
  | nil => exact absurd rfl hne
  | cons t ts =>
    refine ⟨String.ofList (t ++ ts.flatMap fun u => ' ' :: u), ?_⟩
    rw [String.toList_ofList]
    exact ⟨[], _, [], by simp, rfl, hbehind ts, by simp⟩

end Layout

namespace Expr

variable {α : Type}

/-- Literals that have a text: booleans, numbers that some digits stand for, and texts that can stand
in quotes of one kind. -/
def IsWritable : Value → Prop
  | .boolean _ => True
  | .text s => ∃ quote, isQuote quote = true ∧ quote ∉ s.toList
  | .number x => ∃ whole fraction, Layout.IsDecimal whole fraction ∧
      Number.decimal? (Layout.numberToken whole fraction) = some x
  | _ => False

mutual

/-- Every literal of the tree and every name in it can be written. -/
def Writable : Expr α → Prop
  | .literal _ v => IsWritable v
  | .reference _ name => Layout.IsName name
  | .arithmetic _ _ left right => left.Writable ∧ right.Writable
  | .comparison _ _ left right => left.Writable ∧ right.Writable
  | .logical _ _ left right => left.Writable ∧ right.Writable
  | .sets _ _ left right => left.Writable ∧ right.Writable
  | .membership _ element collection => element.Writable ∧ collection.Writable
  | .negation _ operand => operand.Writable
  | .complement _ operand => operand.Writable
  | .call _ name arguments => Layout.IsName name ∧ AllWritable arguments

def AllWritable : List (Expr α) → Prop
  | [] => True
  | e :: es => e.Writable ∧ AllWritable es

end

open Layout in
theorem exists_layout_binary {op : BinaryOperator} {level : Precedence}
    (hop : op.level? = some level) {left right : Expr Unit}
    (hleft : ∃ l : Layout, l.Valid ∧ l.tree = left)
    (hright : ∃ r : Layout, r.Valid ∧ r.tree = right) :
    ∃ l : Layout, l.Valid ∧ l.tree = binary () op left right := by
  obtain ⟨l, hl, rfl⟩ := hleft
  obtain ⟨r, hr, rfl⟩ := hright
  exact ⟨.binary op (.group l) (.group r), valid_binary hop hl hr, rfl⟩

open Layout in
theorem exists_layout_unary (op : UnaryOperator) {operand : Expr Unit}
    (h : ∃ l : Layout, l.Valid ∧ l.tree = operand) :
    ∃ l : Layout, l.Valid ∧ l.tree = unary () op operand := by
  obtain ⟨l, hl, rfl⟩ := h
  exact ⟨.signed op (.group l), ⟨hl, Tier.le_primary _⟩, rfl⟩

mutual

theorem exists_layout (e : Expr α) (h : e.Writable) :
    ∃ l : Layout, l.Valid ∧ l.tree = e.unmarked := by
  cases e with
  | literal m v =>
    cases v with
    | boolean b => exact ⟨.truth b, trivial, rfl⟩
    | text s =>
      obtain ⟨quote, hquote, hs⟩ := h
      refine ⟨.text quote s.toList, ⟨hquote, hs⟩, ?_⟩
      rw [Layout.tree, String.ofList_toList, unmarked]
    | number x =>
      obtain ⟨whole, fraction, hdecimal, hx⟩ := h
      exact ⟨.number x whole fraction, ⟨hdecimal, hx⟩, rfl⟩
    | _ => exact absurd h id
  | reference m name => exact ⟨.name name, h, rfl⟩
  | arithmetic m op left right =>
    have hleft := exists_layout left h.1
    have hright := exists_layout right h.2
    cases op with
    | power =>
      obtain ⟨l, hl, heq⟩ := hleft
      obtain ⟨r, hr, heq'⟩ := hright
      refine ⟨.power (.group l) (.group r), ⟨hl, hr, Tier.le_primary _, Tier.le_primary _⟩, ?_⟩
      rw [unmarked, ← heq, ← heq']
      rfl
    | add => exact @exists_layout_binary (.arithmetic .add) _ rfl _ _ hleft hright
    | subtract => exact @exists_layout_binary (.arithmetic .subtract) _ rfl _ _ hleft hright
    | multiply => exact @exists_layout_binary (.arithmetic .multiply) _ rfl _ _ hleft hright
    | divide => exact @exists_layout_binary (.arithmetic .divide) _ rfl _ _ hleft hright
    | modulo => exact @exists_layout_binary (.arithmetic .modulo) _ rfl _ _ hleft hright
  | comparison m op left right =>
    exact @exists_layout_binary (.comparison op) _ rfl _ _ (exists_layout left h.1)
      (exists_layout right h.2)
  | logical m op left right =>
    exact @exists_layout_binary (.logical op) _ rfl _ _ (exists_layout left h.1)
      (exists_layout right h.2)
  | sets m op left right =>
    exact @exists_layout_binary (.sets op) _ rfl _ _ (exists_layout left h.1)
      (exists_layout right h.2)
  | membership m element collection =>
    exact @exists_layout_binary .membership _ rfl _ _ (exists_layout element h.1)
      (exists_layout collection h.2)
  | negation m operand => exact exists_layout_unary .negative (exists_layout operand h)
  | complement m operand => exact exists_layout_unary .not (exists_layout operand h)
  | call m name arguments =>
    obtain ⟨ls, hls, heq⟩ := exists_layouts arguments h.2
    refine ⟨.call name ls, ⟨h.1, hls⟩, ?_⟩
    rw [unmarked, ← heq, Layout.tree]

theorem exists_layouts (es : List (Expr α)) (h : AllWritable es) :
    ∃ ls : List Layout, Layout.AllValid ls ∧ Layout.trees ls = unmarkedAll es := by
  cases es with
  | nil => exact ⟨[], trivial, rfl⟩
  | cons e es =>
    obtain ⟨l, hl, heq⟩ := exists_layout e h.1
    obtain ⟨ls, hls, heqs⟩ := exists_layouts es h.2
    refine ⟨l :: ls, ⟨hl, hls⟩, ?_⟩
    rw [Layout.trees, unmarkedAll, heq, heqs]

end

/-- An expression can be written, and from whatever layout and whatever white space it was written
with, it is parsed as itself again, provided that the limit is not below the length of the text. -/
theorem parse_written (e : Expr α) (h : e.Writable) :
    (∃ (l : Layout) (text : String), l.Valid ∧ l.tree = e.unmarked ∧
      Layout.Written l.tokens text.toList) ∧
    ∀ (l : Layout) (text : String) (limit : Nat) (line : Option Nat),
      l.Valid → l.tree = e.unmarked → Layout.Written l.tokens text.toList →
      text.length ≤ limit →
      ∃ parsed, parse {} limit line text = .ok parsed ∧ parsed.unmarked = e.unmarked := by
  constructor
  · obtain ⟨l, hl, heq⟩ := exists_layout e h
    obtain ⟨text, htext⟩ := Layout.exists_written l.tokens_ne_nil
    exact ⟨l, text, hl, heq, htext⟩
  · intro l text limit line hl heq hwritten hlimit
    have htokens := l.isToken_of_mem hl
    have hne := l.tokens_ne_nil
    have hsource : (expandProducts text).toList = text.toList := by
      unfold expandProducts
      rw [String.toList_ofList, hwritten.withProducts_eq hne htokens]
    have hblank := hwritten.not_all_isBlank hne htokens
    have hlength : text.toList.length ≤ limit := by
      rw [String.length_toList]
      exact hlimit
    have hnesting := estimateNesting_le text.toList
    have hshallow : ¬ estimateNesting text.toList > limit := by omega
    have hcount := hwritten.length_le hne htokens
    have hread := l.read_written hl hwritten
    have hbuild := (l.builds hl).1 ⟨0, limit⟩ (show l.tokens.length ≤ limit - 0 by omega)
    refine ⟨l.tree.numbered line, ?_, ?_⟩
    · unfold parse
      simp only [hsource, hblank, Bool.false_eq_true, if_false, hshallow, hread, hbuild, bind,
        Except.bind]
    · unfold numbered
      rw [unmarked_numberFrom, unmarked_unit, heq]

/-- A sign binds tighter than a power, so that no parentheses are needed here, and a tab is as good as
a space. -/
theorem parse_written_square :
    let e : Expr Unit := .arithmetic () .power (.negation () (.reference () "x"))
      (.literal () (.number 2))
    let l : Layout := .power (.signed .negative (.name "x")) (.number 2 ['2'] [])
    e.Writable ∧ l.Valid ∧ l.tree = e.unmarked ∧ Layout.Written l.tokens "-\tx ^ 2 ".toList ∧
    ∃ parsed, parse {} 8 (some 3) "-\tx ^ 2 " = .ok parsed ∧ parsed.unmarked = e.unmarked := by
  intro e l
  have hname : Layout.IsName "x" := ⟨'x', [], rfl, by decide, by simp, by decide⟩
  have hdecimal : Layout.IsDecimal ['2'] [] := ⟨by decide, List.all_eq_true.mp rfl, by simp⟩
  have htwo : Number.decimal? (Layout.numberToken ['2'] []) = some 2 := rfl
  have he : e.Writable := ⟨hname, ['2'], [], hdecimal, htwo⟩
  have hl : l.Valid := ⟨⟨hname, by decide⟩, ⟨hdecimal, htwo⟩, by decide, by decide⟩
  have hwritten : Layout.Written l.tokens "-\tx ^ 2 ".toList := by
    have hspace : ∀ c ∈ [' '], Phrase.isSpace c = true := List.all_eq_true.mp rfl
    have htab : ∀ c ∈ ['\t'], Phrase.isSpace c = true := List.all_eq_true.mp rfl
    refine ⟨[], ['\t', 'x', ' ', '^', ' ', '2', ' '], [' '], by simp, rfl, ?_, hspace⟩
    refine ⟨['\t'], [' ', '^', ' ', '2', ' '], by decide, htab, rfl, ?_⟩
    refine ⟨[' '], [' ', '2', ' '], by decide, hspace, rfl, ?_⟩
    exact ⟨[' '], [' '], by decide, hspace, rfl, rfl⟩
  exact ⟨he, hl, rfl, hwritten,
    (parse_written e he).2 l "-\tx ^ 2 " 8 (some 3) hl rfl hwritten (by decide)⟩

end Expr

end Premise
