import Premise.Expr.Nesting
import Premise.Proofs.Tokens

/-!
The text of a layout before it is read: no product has to be written into it, it is not blank, and
the estimate of its nesting is at most its length.
-/

namespace Premise

namespace Expr

/-! ### Products -/

/-- Outside quotes. -/
def Place.isOpen : Place → Bool
  | .plain _ | .number => true
  | .quoted _ => false

theorem withProducts_plain (afterName : Bool) {c : Char} (hquote : isQuote c = false)
    (hdigit : c.isDigit = false) (cs : List Char) :
    withProducts (.plain afterName) (c :: cs) = c :: withProducts (.plain (isNameChar c)) cs := by
  rw [withProducts, Place.afterPlain]
  simp [hquote, hdigit]

theorem withProducts_name {ds : List Char} (h : ∀ d ∈ ds, isNameChar d = true) (cs : List Char) :
    withProducts (.plain true) (ds ++ cs) = ds ++ withProducts (.plain true) cs := by
  induction ds with
  | nil => rfl
  | cons d ds ih =>
    have hname := h d List.mem_cons_self
    have hquote := isQuote_of_isNameChar hname
    have hrest := ih fun x hx => h x (List.mem_cons_of_mem d hx)
    rw [List.cons_append, withProducts, Place.afterPlain]
    simp [hquote, hname, hrest]

theorem withProducts_digits {ds : List Char} (h : ∀ d ∈ ds, d.isDigit = true ∨ d = '.')
    (cs : List Char) : withProducts .number (ds ++ cs) = ds ++ withProducts .number cs := by
  induction ds with
  | nil => rfl
  | cons d ds ih =>
    have hdigit := h d List.mem_cons_self
    have hrest := ih fun x hx => h x (List.mem_cons_of_mem d hx)
    rw [List.cons_append, withProducts]
    simp [hdigit, hrest]

theorem withProducts_quoted {quote : Char} {ds : List Char} (h : quote ∉ ds) (cs : List Char) :
    withProducts (.quoted quote) (ds ++ quote :: cs) =
      ds ++ quote :: withProducts (.plain false) cs := by
  induction ds with
  | nil => simp [withProducts]
  | cons d ds ih =>
    have hne : d ≠ quote := fun heq => h (heq ▸ List.mem_cons_self)
    have hrest := ih fun hx => h (List.mem_cons_of_mem d hx)
    rw [List.cons_append, withProducts]
    simp [hne, hrest]

/-- Behind a space it does not matter what stood before. -/
theorem withProducts_space {place : Place} (hplace : place.isOpen = true) {c : Char}
    (h : Phrase.isSpace c = true) (cs : List Char) :
    withProducts place (c :: cs) = c :: withProducts (.plain false) cs := by
  have hspace := Phrase.eq_of_isSpace h
  cases place with
  | plain afterName =>
    rcases hspace with rfl | rfl | rfl | rfl <;> exact withProducts_plain afterName rfl rfl cs
  | number => rcases hspace with rfl | rfl | rfl | rfl <;> rfl
  | quoted quote => cases hplace

theorem withProducts_gap {place : Place} (hplace : place.isOpen = true) {gap : List Char}
    (hne : gap ≠ []) (h : ∀ c ∈ gap, Phrase.isSpace c = true) (cs : List Char) :
    withProducts place (gap ++ cs) = gap ++ withProducts (.plain false) cs := by
  induction gap generalizing place with
  | nil => exact absurd rfl hne
  | cons g gap ih =>
    rw [List.cons_append, withProducts_space hplace (h g List.mem_cons_self)]
    cases gap with
    | nil => rfl
    | cons next gap =>
      have hrest := @ih (.plain false) rfl (by simp) fun x hx => h x (List.mem_cons_of_mem g hx)
      rw [hrest]
      rfl

/-- Inside a token nothing is missing, and it leaves no quotes open. -/
theorem withProducts_token {t : List Char} (h : Layout.IsToken t) (cs : List Char) :
    ∃ place : Place, place.isOpen = true ∧
      withProducts (.plain false) (t ++ cs) = t ++ withProducts place cs := by
  cases h with
  | plain _ hne hplain =>
    clear hne
    have hany : ∀ afterName : Bool, ∃ place : Place, place.isOpen = true ∧
        withProducts (.plain afterName) (t ++ cs) = t ++ withProducts place cs := by
      induction t with
      | nil => exact fun afterName => ⟨.plain afterName, rfl, rfl⟩
      | cons c t ih =>
        intro afterName
        obtain ⟨hc, ht⟩ := Bool.and_eq_true_iff.mp hplain
        obtain ⟨hquote, hdigit, _⟩ := Layout.of_isPlain hc
        obtain ⟨place, hopen, heq⟩ := ih ht (isNameChar c)
        refine ⟨place, hopen, ?_⟩
        rw [List.cons_append, withProducts_plain afterName hquote hdigit, heq]
        rfl
    exact hany false
  | word c ct hstart hct =>
    have hname := isNameChar_of_isNameStart hstart
    refine ⟨.plain true, rfl, ?_⟩
    rw [List.cons_append, withProducts_plain false (isQuote_of_isNameChar hname)
      (isDigit_of_isNameStart hstart), hname, withProducts_name hct]
    rfl
  | number whole fraction hdecimal =>
    obtain ⟨d, ds, heq, hdigit, hds⟩ := hdecimal.token
    have hrest := withProducts_digits hds cs
    refine ⟨.number, rfl, ?_⟩
    rw [heq, List.cons_append, withProducts, Place.afterPlain]
    simp [isQuote_of_isNameChar (isNameChar_of_isDigit hdigit), hdigit, hrest]
  | quoted quote content hquote hcontent =>
    refine ⟨.plain false, rfl, ?_⟩
    have hrest := withProducts_quoted hcontent cs
    rw [List.append_assoc, List.cons_append, withProducts, Place.afterPlain]
    simp [hquote, hrest]

theorem withProducts_behind {ts : List (List Char)} (hts : ∀ t ∈ ts, Layout.IsToken t)
    {place : Place} (hplace : place.isOpen = true) {cs rest : List Char}
    (h : Layout.Behind ts cs rest) (hrest : ∀ c ∈ rest, Phrase.isSpace c = true) :
    withProducts place cs = cs := by
  induction ts generalizing place cs with
  | nil =>
    have heq : cs = rest := h
    subst heq
    cases cs with
    | nil => cases place <;> rfl
    | cons c cs =>
      have hgap := withProducts_gap hplace (by simp) hrest []
      rw [List.append_nil] at hgap
      rw [hgap, withProducts, List.append_nil]
  | cons t ts ih =>
    obtain ⟨gap, mid, hne, hgap, heq, hmid⟩ := h
    obtain ⟨next, hnext, htoken⟩ := withProducts_token (hts t List.mem_cons_self) mid
    have hlater := ih (fun x hx => hts x (List.mem_cons_of_mem t hx)) hnext hmid
    rw [heq, List.append_assoc, withProducts_gap hplace hne hgap, htoken, hlater]

/-! ### Nesting -/

namespace Scan

/-- The estimate so far, beside what it counts on. -/
def Bounded (s : Scan) (n : Nat) : Prop :=
  s.opened ≤ s.mostOpened ∧ s.run ≤ s.longestRun ∧ s.mostOpened + s.powers + s.longestRun ≤ n

theorem Bounded.step {s : Scan} {n : Nat} (h : s.Bounded n) (c : Char) :
    (s.step c).Bounded (n + 1) := by
  obtain ⟨hopened, hrun, hsum⟩ := h
  unfold Scan.step Bounded
  cases s.quote with
  | some q =>
    simp only
    omega
  | none =>
    simp only
    repeat' split
    all_goals first | omega | (simp only; omega)

theorem Bounded.foldl {s : Scan} {n : Nat} (h : s.Bounded n) (cs : List Char) :
    (cs.foldl Scan.step s).Bounded (n + cs.length) := by
  induction cs generalizing s n with
  | nil => exact h
  | cons c cs ih =>
    have hrest := ih (h.step c)
    rw [List.length_cons, Nat.add_comm cs.length 1, ← Nat.add_assoc]
    exact hrest

/-- White space and name characters nest nothing. -/
theorem Bounded.step_quiet {s : Scan} {n : Nat} (h : s.Bounded n) (hquote : s.quote = none)
    {c : Char} (hc : Phrase.isSpace c = true ∨ isNameChar c = true) :
    (s.step c).Bounded n ∧ (s.step c).quote = none := by
  have hloud : ['!', '-', '(', ')', '^'].all
      (fun m => !Phrase.isSpace m && !isNameChar m) = true := by decide
  have hmark : ∀ m ∈ ['!', '-', '(', ')', '^'], c ≠ m := by
    rintro m hm rfl
    have hneither := List.all_eq_true.mp hloud c hm
    rcases hc with hspace | hname
    · simp [hspace] at hneither
    · simp [hname] at hneither
  have hplain : isQuote c = false := by
    rcases hc with hspace | hname
    · rcases Phrase.eq_of_isSpace hspace with rfl | rfl | rfl | rfl <;> decide
    · exact isQuote_of_isNameChar hname
  simp only [List.mem_cons, List.not_mem_nil, or_false, forall_eq_or_imp, forall_eq] at hmark
  obtain ⟨hnot, hminus, hopen, hclose, hpower⟩ := hmark
  obtain ⟨hopened, hrun, hsum⟩ := h
  unfold Scan.step Bounded
  simp only [hquote, hnot, hminus, hopen, hclose, hpower, hplain, decide_false, Bool.or_self,
    Bool.false_eq_true, if_false]
  split
  · exact ⟨⟨hopened, hrun, hsum⟩, hquote⟩
  · exact ⟨⟨hopened, Nat.zero_le _, hsum⟩, rfl⟩

theorem Bounded.foldl_quiet {s : Scan} {n : Nat} (h : s.Bounded n) (hquote : s.quote = none)
    {cs : List Char}
    (hcs : ∀ c ∈ cs, Phrase.isSpace c = true ∨ isNameChar c = true) :
    (cs.foldl Scan.step s).Bounded n ∧ (cs.foldl Scan.step s).quote = none := by
  induction cs generalizing s with
  | nil => exact ⟨h, hquote⟩
  | cons c cs ih =>
    obtain ⟨hstep, hnone⟩ := h.step_quiet hquote (hcs c List.mem_cons_self)
    exact ih hstep hnone fun d hd => hcs d (List.mem_cons_of_mem c hd)

/-- A parenthesis that opens or closes takes no more than one level, and leaves no quotes open. -/
theorem Bounded.step_open {s : Scan} {n : Nat} (h : s.Bounded n) (hquote : s.quote = none) :
    (s.step '(').Bounded (n + 1) ∧ (s.step '(').quote = none := by
  refine ⟨h.step '(', ?_⟩
  unfold Scan.step
  rw [hquote]
  rfl

theorem Bounded.step_close {s : Scan} {n : Nat} (h : s.Bounded n) (hquote : s.quote = none) :
    (s.step ')').Bounded n := by
  obtain ⟨hopened, -, hsum⟩ := h
  unfold Scan.step
  rw [hquote]
  exact ⟨Nat.le_trans (Nat.sub_le s.opened 1) hopened, Nat.zero_le s.longestRun, hsum⟩

end Scan

theorem estimateNesting_le (cs : List Char) : estimateNesting cs ≤ cs.length := by
  have hstart : Scan.Bounded {} 0 := ⟨Nat.le_refl 0, Nat.le_refl 0, Nat.le_refl 0⟩
  have hend := (hstart.foldl cs).2.2
  rw [Nat.zero_add] at hend
  exact hend

theorem estimateNesting_quiet {cs : List Char}
    (h : ∀ c ∈ cs, Phrase.isSpace c = true ∨ isNameChar c = true) : estimateNesting cs = 0 := by
  have hstart : Scan.Bounded {} 0 := ⟨Nat.le_refl 0, Nat.le_refl 0, Nat.le_refl 0⟩
  have hend := (hstart.foldl_quiet rfl h).1.2.2
  exact Nat.le_zero.mp hend

/-- A call nests one level for its arguments. -/
theorem estimateNesting_call_le {cs ds : List Char}
    (hcs : ∀ c ∈ cs, Phrase.isSpace c = true ∨ isNameChar c = true)
    (hds : ∀ d ∈ ds, Phrase.isSpace d = true ∨ isNameChar d = true) :
    estimateNesting (cs ++ '(' :: (ds ++ [')'])) ≤ 1 := by
  have hstart : Scan.Bounded {} 0 := ⟨Nat.le_refl 0, Nat.le_refl 0, Nat.le_refl 0⟩
  obtain ⟨hname, hnone⟩ := hstart.foldl_quiet rfl hcs
  obtain ⟨hopen, hnone⟩ := hname.step_open hnone
  obtain ⟨hinner, hnone⟩ := hopen.foldl_quiet hnone hds
  have hend := (hinner.step_close hnone).2.2
  unfold estimateNesting
  rw [List.foldl_append, List.foldl_cons, List.foldl_append, List.foldl_cons, List.foldl_nil]
  exact hend

end Expr

namespace Layout.Written

variable {ts : List (List Char)} {cs : List Char}

/-- With a space in front, every token is behind one. -/
theorem behind (h : Written ts cs) (hne : ts ≠ []) :
    ∃ back, Behind ts (' ' :: cs) back ∧ ∀ c ∈ back, Phrase.isSpace c = true := by
  cases ts with
  | nil => exact absurd rfl hne
  | cons t ts =>
    obtain ⟨front, mid, back, hfront, heq, hmid, hback⟩ := h
    refine ⟨back, ⟨' ' :: front, mid, by simp, ?_, by rw [heq]; rfl, hmid⟩, hback⟩
    intro c hc
    rcases List.mem_cons.mp hc with hc | hc
    · rw [hc]
      decide
    · exact hfront c hc

theorem withProducts_eq (h : Written ts cs) (hne : ts ≠ []) (hts : ∀ t ∈ ts, IsToken t) :
    Expr.withProducts (.plain false) cs = cs := by
  obtain ⟨back, hbehind, hback⟩ := h.behind hne
  have hsame := @Expr.withProducts_behind ts hts (.plain false) rfl _ _ hbehind hback
  rw [Expr.withProducts_space rfl (by decide)] at hsame
  exact (List.cons.inj hsame).2

theorem not_all_isBlank (h : Written ts cs) (hne : ts ≠ []) (hts : ∀ t ∈ ts, IsToken t) :
    cs.all Text.isBlank = false := by
  cases ts with
  | nil => exact absurd rfl hne
  | cons t ts =>
    obtain ⟨front, mid, back, _, heq, _⟩ := h
    obtain ⟨c, ct, hc, hblank⟩ := (hts t List.mem_cons_self).solid
    rw [heq, hc]
    simp [hblank]

theorem length_le (h : Written ts cs) (hne : ts ≠ []) (hts : ∀ t ∈ ts, IsToken t) :
    ts.length ≤ cs.length := by
  obtain ⟨back, hbehind, _⟩ := h.behind hne
  have hboth := hbehind.length_le hts
  have hpos := List.length_pos_iff.mpr hne
  rw [List.length_cons] at hboth
  omega

end Layout.Written

end Premise
