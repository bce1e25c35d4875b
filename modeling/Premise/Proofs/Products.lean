import Premise.Proofs.Source

/-!
Where products are written into a text, and where they are not.

A `*` is missing where a number ends and a name starts, outside quotes. `MeetsName` says so by the
text before and behind a position. The reader of a text knows its place instead: `Stands` says what
each place means for the text before it, one more character keeps the two in step, and so the `*`
goes exactly to the positions that lack it. A quoted part is passed over as a whole, closed or not,
and what follows it is read like a text of its own.
-/

namespace Premise.Expr

/-! ### Positions -/

/-- The quote that is open behind one more character. -/
def quoteAfter : Option Char → Char → Option Char
  | none, c => if isQuote c then some c else none
  | some q, c => if c = q then none else some q

/-- The quote that is open behind a text. -/
def openQuote (cs : List Char) : Option Char := cs.foldl quoteAfter none

/-- The characters of numbers. -/
def isNumeral (c : Char) : Bool := c.isDigit || c = '.'

/-- A run of digits and points that is as long as it can be. It starts with a digit, and no name or
number goes on in it. -/
def IsNumber (before run behind : List Char) : Prop :=
  (∃ d ∈ run.head?, d.isDigit = true) ∧ (∀ c ∈ run, isNumeral c = true) ∧
    (∀ c ∈ before.getLast?, isNameChar c = false) ∧ ∀ c ∈ behind.head?, isNumeral c = false

instance (before run behind : List Char) : Decidable (IsNumber before run behind) :=
  inferInstanceAs (Decidable (_ ∧ _ ∧ _ ∧ _))

/-- The position is outside quotes, and where it is a number ends and a name starts. -/
def MeetsName (cs : List Char) (i : Nat) : Prop :=
  openQuote (cs.take i) = none ∧
    (∃ j < i, IsNumber (cs.take j) ((cs.take i).drop j) (cs.drop i)) ∧
    ∃ c ∈ (cs.drop i).head?, isNameStart c = true

instance (cs : List Char) : DecidablePred (MeetsName cs) := fun _ =>
  inferInstanceAs (Decidable (_ ∧ _ ∧ _))

/-- The text with a `*` put in at each of the positions. -/
def starredAt (p : Nat → Prop) [DecidablePred p] (cs : List Char) : List Char :=
  (cs.mapIdx fun i c => if p i then ['*', c] else [c]).flatten

/-- A number ends the text, if nothing goes on behind it. -/
def EndsNumber (before : List Char) : Prop :=
  ∃ front run, before = front ++ run ∧ IsNumber front run []

theorem isNumeral_of_isNameStart {c : Char} (h : isNameStart c = true) : isNumeral c = false := by
  have hdigit := isDigit_of_isNameStart h
  have hpoint : c ≠ '.' := by
    rintro rfl
    cases h
  simp [isNumeral, hdigit, hpoint]

theorem isNameChar_of_isNumeral {c : Char} (h : isNumeral c = true) : isNameChar c = true := by
  rcases Bool.or_eq_true_iff.mp h with hdigit | hpoint
  · exact isNameChar_of_isDigit hdigit
  · rw [of_decide_eq_true hpoint]
    rfl

theorem isNameChar_of_isQuote {c : Char} (h : isQuote c = true) : isNameChar c = false := by
  cases hname : isNameChar c with
  | false => rfl
  | true =>
    rw [isQuote_of_isNameChar hname] at h
    cases h

theorem isNumeral_of_isQuote {c : Char} (h : isQuote c = true) : isNumeral c = false := by
  cases hnumeral : isNumeral c with
  | false => rfl
  | true =>
    have hname := isNameChar_of_isNumeral hnumeral
    rw [isNameChar_of_isQuote h] at hname
    cases hname

theorem openQuote_concat (before : List Char) (c : Char) :
    openQuote (before ++ [c]) = quoteAfter (openQuote before) c := by
  rw [openQuote, List.foldl_append]
  rfl

/-- A number goes on with one more character, or starts with it. -/
theorem endsNumber_concat {before : List Char} {c : Char} :
    EndsNumber (before ++ [c]) ↔ (isNumeral c = true ∧ EndsNumber before) ∨
      (c.isDigit = true ∧ ∀ b ∈ before.getLast?, isNameChar b = false) := by
  constructor
  · rintro ⟨front, run, heq, ⟨d, hd, hdigit⟩, hrun, hfront, -⟩
    obtain ⟨init, last, rfl⟩ :=
      (List.eq_nil_or_concat run).resolve_left (by rintro rfl; cases hd)
    rw [List.concat_eq_append, ← List.append_assoc] at heq
    rw [List.concat_eq_append] at hd hrun
    obtain ⟨rfl, hlast⟩ := List.append_inj' heq rfl
    cases hlast
    cases init with
    | nil =>
      cases hd
      exact .inr ⟨hdigit, by rwa [List.append_nil]⟩
    | cons first init =>
      refine .inl ⟨hrun c (by simp), front, first :: init, rfl, ⟨d, hd, hdigit⟩, ?_, hfront, nofun⟩
      exact fun x hx => hrun x (List.mem_append_left [c] hx)
  · rintro (⟨hc, front, run, rfl, ⟨d, hd, hdigit⟩, hrun, hfront, -⟩ | ⟨hdigit, hbefore⟩)
    · refine ⟨front, run ++ [c], List.append_assoc .., ⟨d, ?_, hdigit⟩, ?_, hfront, nofun⟩
      · rw [List.head?_append, hd]
        rfl
      · intro x hx
        rcases List.mem_append.mp hx with hx | hx
        · exact hrun x hx
        · rwa [List.mem_singleton.mp hx]
    · refine ⟨before, [c], rfl, ⟨c, rfl, hdigit⟩, ?_, hbefore, nofun⟩
      intro x hx
      rw [List.mem_singleton.mp hx, isNumeral, hdigit]
      rfl

theorem endsNumber_iff {before : List Char} {c : Char} {cs : List Char} :
    (∃ j < before.length, IsNumber ((before ++ c :: cs).take j) (before.drop j) (c :: cs)) ↔
      EndsNumber before ∧ isNumeral c = false := by
  constructor
  · rintro ⟨j, hj, hdigit, hrun, hfront, hbehind⟩
    rw [List.take_append_of_le_length (Nat.le_of_lt hj)] at hfront
    exact ⟨⟨before.take j, before.drop j, (List.take_append_drop j before).symm, hdigit, hrun,
      hfront, nofun⟩, hbehind c rfl⟩
  · rintro ⟨⟨front, run, rfl, hdigit, hrun, hfront, -⟩, hc⟩
    have hpos : 0 < run.length := by
      obtain ⟨d, hd, -⟩ := hdigit
      cases run with
      | nil => cases hd
      | cons x run => exact Nat.succ_pos _
    refine ⟨front.length, by rw [List.length_append]; omega, ?_⟩
    rw [List.append_assoc, List.take_left, List.drop_left]
    refine ⟨hdigit, hrun, hfront, ?_⟩
    rintro x hx
    cases hx
    exact hc

/-! ### Places -/

namespace Place

/-- The place behind one more character. -/
def after : Place → Char → Place
  | .quoted q, c => if c = q then .plain false else .quoted q
  | .number, c => if isNumeral c then .number else afterPlain true c
  | .plain afterName, c => afterPlain afterName c

/-- Whether a `*` is missing before the next character. -/
def lacks : Place → Char → Bool
  | .number, c => isNameStart c
  | .plain _, _ | .quoted _, _ => false

theorem eq_number_of_lacks {place : Place} {c : Char} (h : place.lacks c = true) :
    place = .number ∧ isNameStart c = true := by
  cases place with
  | number => exact ⟨rfl, h⟩
  | plain afterName | quoted q => cases h

theorem afterPlain_of_isNameStart (afterName : Bool) {c : Char} (h : isNameStart c = true) :
    afterPlain afterName c = .plain true := by
  have hname := isNameChar_of_isNameStart h
  simp [afterPlain, isQuote_of_isNameChar hname, isDigit_of_isNameStart h, hname]

theorem after_of_isQuote {place : Place} (hopen : place.isOpen = true) {q : Char}
    (h : isQuote q = true) : place.after q = .quoted q := by
  cases place with
  | plain afterName => simp [after, afterPlain, h]
  | number => simp [after, isNumeral_of_isQuote h, afterPlain, h]
  | quoted other => cases hopen

end Place

/-- What a text looks like behind which a reader is at a place. -/
def Stands (before : List Char) : Place → Prop
  | .quoted q => openQuote before = some q ∧ isQuote q = true
  | .number => openQuote before = none ∧ EndsNumber before
  | .plain afterName =>
    openQuote before = none ∧ ¬EndsNumber before ∧ before.getLast?.any isNameChar = afterName

theorem stands_start : Stands [] (.plain false) := by
  refine ⟨rfl, ?_, rfl⟩
  rintro ⟨front, run, heq, ⟨d, hd, -⟩, -⟩
  obtain ⟨-, rfl⟩ := List.nil_eq_append_iff.mp heq
  cases hd

/-- Outside quotes it is told by the text before whether a number goes on, or may start. -/
theorem stands_afterPlain {before : List Char} {afterName : Bool} {c : Char}
    (hopen : openQuote before = none)
    (hnumber : EndsNumber (before ++ [c]) ↔ c.isDigit = true ∧ afterName = false) :
    Stands (before ++ [c]) (Place.afterPlain afterName c) := by
  have hquote := openQuote_concat before c
  rw [hopen, quoteAfter] at hquote
  unfold Place.afterPlain
  by_cases hc : isQuote c = true
  · rw [if_pos hc] at hquote ⊢
    exact ⟨hquote, hc⟩
  · rw [if_neg hc] at hquote ⊢
    split
    · rename_i hstarts
      exact ⟨hquote, hnumber.mpr (by simpa using hstarts)⟩
    · rename_i hstarts
      refine ⟨hquote, fun hends => hstarts (by simpa using hnumber.mp hends), ?_⟩
      rw [List.getLast?_concat]
      rfl

theorem Stands.after {before : List Char} {place : Place} (h : Stands before place) (c : Char) :
    Stands (before ++ [c]) (place.after c) := by
  cases place with
  | quoted q =>
    obtain ⟨hopen, hq⟩ := h
    have hquote := openQuote_concat before c
    rw [hopen, quoteAfter] at hquote
    rw [Place.after]
    by_cases hc : c = q
    · subst hc
      rw [if_pos rfl] at hquote ⊢
      have hnumeral := isNumeral_of_isQuote hq
      refine ⟨hquote, fun hends => ?_, ?_⟩
      · have hdigit : c.isDigit = false := (Bool.or_eq_false_iff.mp hnumeral).1
        simp [endsNumber_concat, hnumeral, hdigit] at hends
      · rw [List.getLast?_concat]
        exact isNameChar_of_isQuote hq
    · rw [if_neg hc] at hquote ⊢
      exact ⟨hquote, hq⟩
  | number =>
    obtain ⟨hopen, hends⟩ := h
    rw [Place.after]
    by_cases hc : isNumeral c = true
    · rw [if_pos hc]
      refine ⟨?_, endsNumber_concat.mpr (.inl ⟨hc, hends⟩)⟩
      have hquote := isQuote_of_isNameChar (isNameChar_of_isNumeral hc)
      rw [openQuote_concat, hopen, quoteAfter, hquote]
      rfl
    · rw [if_neg hc]
      refine stands_afterPlain hopen ?_
      have hdigit : ¬c.isDigit = true := fun h => hc (by rw [isNumeral, h]; rfl)
      simp [endsNumber_concat, hc, hdigit]
  | plain afterName =>
    obtain ⟨hopen, hends, rfl⟩ := h
    refine stands_afterPlain hopen ?_
    rw [endsNumber_concat, or_iff_right fun h => hends h.2, Option.any_eq_false]
    exact Iff.rfl

theorem Stands.foldl {before : List Char} {place : Place} (h : Stands before place)
    (cs : List Char) : Stands (before ++ cs) (cs.foldl Place.after place) := by
  induction cs generalizing before place with
  | nil => rwa [List.append_nil]
  | cons c cs ih =>
    have hrest := ih (h.after c)
    rwa [List.append_assoc] at hrest

/-- What the place tells of the next character is what the text before and behind it does. -/
theorem Stands.meetsName_iff {before : List Char} {place : Place} (h : Stands before place)
    (c : Char) (cs : List Char) :
    MeetsName (before ++ c :: cs) before.length ↔ place.lacks c = true := by
  unfold MeetsName
  rw [List.take_left, List.drop_left, endsNumber_iff]
  simp only [List.head?_cons, Option.mem_some_iff, exists_eq_left']
  cases place with
  | quoted q =>
    rw [h.1]
    simp [Place.lacks]
  | number =>
    constructor
    · exact fun hmeets => hmeets.2.2
    · exact fun hname => ⟨h.1, ⟨h.2, isNumeral_of_isNameStart hname⟩, hname⟩
  | plain afterName => simp [Place.lacks, h.2.1]

/-! ### Texts -/

theorem withProducts_cons (place : Place) (c : Char) (cs : List Char) :
    withProducts place (c :: cs) =
      (if place.lacks c then ['*', c] else [c]) ++ withProducts (place.after c) cs := by
  cases place with
  | plain afterName | quoted q => rw [withProducts]; rfl
  | number =>
    rw [withProducts, ← isNumeral]
    by_cases hnumeral : isNumeral c = true
    · have hstart : ¬isNameStart c = true := by
        intro h
        rw [isNumeral_of_isNameStart h] at hnumeral
        cases hnumeral
      rw [if_pos hnumeral]
      simp [Place.lacks, Place.after, hnumeral, hstart]
    · rw [if_neg hnumeral]
      by_cases hstart : isNameStart c = true
      · simp [Place.lacks, Place.after, hnumeral, hstart, Place.afterPlain_of_isNameStart]
      · simp [Place.lacks, Place.after, hnumeral, hstart]

theorem withProducts_eq_starred {before : List Char} {place : Place} (h : Stands before place)
    (cs : List Char) : withProducts place cs =
      starredAt (fun i => MeetsName (before ++ cs) (before.length + i)) cs := by
  induction cs generalizing before place with
  | nil => cases place <;> rfl
  | cons c cs ih =>
    have hrest := ih (h.after c)
    have hmeets := h.meetsName_iff c cs
    rw [withProducts_cons, hrest]
    unfold starredAt
    simp only [List.mapIdx_cons, List.flatten_cons, Nat.add_zero, List.append_assoc,
      List.singleton_append, List.length_append, List.length_singleton, Nat.add_assoc,
      Nat.add_comm 1, hmeets]

/-- Nothing is missing in a text that has its products. -/
theorem withProducts_withProducts (place : Place) (cs : List Char) :
    withProducts place (withProducts place cs) = withProducts place cs := by
  induction cs generalizing place with
  | nil => cases place <;> rfl
  | cons c cs ih =>
    rw [withProducts_cons]
    by_cases hlacks : place.lacks c = true
    · obtain ⟨rfl, hstart⟩ := Place.eq_number_of_lacks hlacks
      have hnumeral := isNumeral_of_isNameStart hstart
      have hstar : Place.number.after '*' = .plain false := rfl
      have hsame : (Place.plain false).after c = Place.number.after c := by
        simp [Place.after, hnumeral, Place.afterPlain_of_isNameStart _ hstart]
      rw [if_pos hlacks, List.cons_append, List.cons_append, List.nil_append, withProducts_cons,
        hstar, withProducts_cons, hsame, ih]
      rfl
    · rw [if_neg hlacks, List.singleton_append, withProducts_cons, if_neg hlacks, ih]
      rfl

theorem withProducts_append (place : Place) (xs ys : List Char) :
    withProducts place (xs ++ ys) =
      withProducts place xs ++ withProducts (xs.foldl Place.after place) ys := by
  induction xs generalizing place with
  | nil =>
    have hnil : withProducts place [] = [] := by cases place <;> rfl
    rw [hnil]
    rfl
  | cons x xs ih =>
    rw [List.cons_append, withProducts_cons, withProducts_cons, ih, List.append_assoc]
    rfl

/-- A quote that opens in a text ends what is read with the text before it. -/
theorem withProducts_opened {before : List Char} (hopen : openQuote before = none) {q : Char}
    (hq : isQuote q = true) (cs : List Char) : withProducts (.plain false) (before ++ q :: cs) =
      withProducts (.plain false) before ++ q :: withProducts (.quoted q) cs := by
  have hstands := stands_start.foldl before
  rw [List.nil_append] at hstands
  have hplace : (before.foldl Place.after (.plain false)).isOpen = true := by
    cases hplace : before.foldl Place.after (.plain false) with
    | plain afterName | number => rfl
    | quoted other =>
      rw [hplace] at hstands
      rw [hstands.1] at hopen
      cases hopen
  have hlacks : ¬(before.foldl Place.after (.plain false)).lacks q = true := by
    intro h
    have hname := isNameChar_of_isNameStart (Place.eq_number_of_lacks h).2
    rw [isNameChar_of_isQuote hq] at hname
    cases hname
  rw [withProducts_append, withProducts_cons, if_neg hlacks, Place.after_of_isQuote hplace hq]
  rfl

theorem withProducts_unclosed {q : Char} {inner : List Char} (h : q ∉ inner) :
    withProducts (.quoted q) inner = inner := by
  induction inner with
  | nil => rfl
  | cons c inner ih =>
    have hne : c ≠ q := fun heq => h (heq ▸ List.mem_cons_self)
    rw [withProducts, if_neg hne, ih fun hx => h (List.mem_cons_of_mem c hx)]

/-- A text gets a `*` wherever a number meets a name, and nothing else is done to it. What stands in
quotes stays as it is, if the quote is never closed up to the end of the text, and what follows a
closed quote gets its products as a text of its own. No product is missing in the outcome. -/
theorem products_inserted :
    (∀ s : String, expandProducts s = String.ofList (starredAt (MeetsName s.toList) s.toList)) ∧
    (∀ (before inner : String) (quote : Char), openQuote before.toList = none →
      isQuote quote = true → quote ∉ inner.toList →
      expandProducts (before ++ String.singleton quote ++ inner) =
          expandProducts before ++ String.singleton quote ++ inner ∧
        ∀ behind : String,
          expandProducts
              (before ++ String.singleton quote ++ inner ++ String.singleton quote ++ behind) =
            expandProducts before ++ String.singleton quote ++ inner ++ String.singleton quote ++
              expandProducts behind) ∧
    ∀ s : String, expandProducts (expandProducts s) = expandProducts s := by
  refine ⟨fun s => ?_, fun before inner quote hopen hquote hinner => ⟨?_, fun behind => ?_⟩,
    fun s => ?_⟩
  · unfold expandProducts
    rw [withProducts_eq_starred stands_start]
    simp only [List.nil_append, List.length_nil, Nat.zero_add]
  · refine String.toList_injective ?_
    have hopened := withProducts_opened hopen hquote inner.toList
    rw [withProducts_unclosed hinner] at hopened
    simpa [expandProducts] using hopened
  · refine String.toList_injective ?_
    have hopened := withProducts_opened hopen hquote (inner.toList ++ quote :: behind.toList)
    rw [withProducts_quoted hinner] at hopened
    simpa [expandProducts] using hopened
  · unfold expandProducts
    rw [String.toList_ofList, withProducts_withProducts]

theorem products_inserted_around_quotes :
    openQuote "2x + x2.5y ".toList = none ∧ '\'' ∉ "3y \"".toList ∧
      expandProducts ("2x + x2.5y " ++ String.singleton '\'' ++ "3y \"" ++ String.singleton '\'' ++
        "1.5.rate") = "2*x + x2.5y '3y \"'1.5.*rate" ∧
      expandProducts ("2x + x2.5y " ++ String.singleton '\'' ++ "3y \"") =
        "2*x + x2.5y '3y \"" := by
  have hbefore : openQuote "2x + x2.5y ".toList = none := by decide
  have hinner : '\'' ∉ "3y \"".toList := by decide
  obtain ⟨hunclosed, hclosed⟩ := products_inserted.2.1 _ _ '\'' hbefore rfl hinner
  refine ⟨hbefore, hinner, ?_, ?_⟩
  · rw [hclosed]
    decide
  · rw [hunclosed]
    decide

end Premise.Expr
