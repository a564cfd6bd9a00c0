import Formula.Proofs.ExactValue
import Formula.Proofs.Greedy
import Formula.Proofs.Tiling
import Formula.Proofs.Viability

/-!
# Literals

A literal is taken for the number that its text says in decimal, or refused. `Denotes` tells, by the
digits alone and as a rational of any size, which number that is; a text with an underscore and one
in another base say none. What is read of a text is what it says (`denotes_iff`), so a literal that
the scanner can cut is refused just when it says no number or one that is too large
(`literal?_eq_none_iff`), and else it is the number that is nearest (`exists_literal?`).

Where a literal is met decides what is blamed on it: positions differ, so no other lexeme is refused
in its place.
-/

namespace Formula

namespace Literal

/-! ## What a text says -/

/-- Digits with at most one point, and the number they say. -/
inductive Mantissa : List Char → ℚ → Prop where
  | whole {digits : List Char} : digits ≠ [] → Run Char.isDigit digits →
      Mantissa digits (Nat.ofDigitChars 10 digits 0)
  | point {front back : List Char} : front ++ back ≠ [] → Run Char.isDigit front →
      Run Char.isDigit back →
      Mantissa (front ++ '.' :: back)
        (Nat.ofDigitChars 10 front 0 + Nat.ofDigitChars 10 back 0 / 10 ^ back.length)

/-- Digits behind at most one sign, and the integer they say. -/
inductive Signed : List Char → ℤ → Prop where
  | unsigned {digits : List Char} : digits ≠ [] → Run Char.isDigit digits →
      Signed digits (Nat.ofDigitChars 10 digits 0)
  | plus {digits : List Char} : digits ≠ [] → Run Char.isDigit digits →
      Signed ('+' :: digits) (Nat.ofDigitChars 10 digits 0)
  | minus {digits : List Char} : digits ≠ [] → Run Char.isDigit digits →
      Signed ('-' :: digits) (-(Nat.ofDigitChars 10 digits 0 : ℤ))

/-- What may stand behind a mantissa, and the power of ten that it says. -/
inductive Power : List Char → ℤ → Prop where
  | absent : Power [] 0
  | present {mark : Char} {cs : List Char} {e : ℤ} : Cut.isExponentMark mark → Signed cs e →
      Power (mark :: cs) e

/-- The text says the number in decimal. -/
inductive Denotes : List Char → ℚ → Prop where
  | intro {m x : List Char} {v : ℚ} {e : ℤ} : Mantissa m v → Power x e →
      Denotes (m ++ x) (v * 10 ^ e)

/-- The text is in another base. -/
inductive Based : List Char → Prop where
  | intro {mark : Char} {behind : List Char} : Cut.isBaseMark mark → Based ('0' :: mark :: behind)

/-- The text is no literal: it says no number, or one that is too large to be finite. -/
inductive Refused (text : List Char) : Prop where
  | underscore : '_' ∈ text → Refused text
  | based : Based text → Refused text
  | tooLarge {v : ℚ} : Denotes text v → Binary64.limit ≤ v → Refused text

/-! ## Reading what a text says -/

theorem natural?_eq_some_iff {cs : List Char} {n : ℕ} :
    Decimal.natural? cs = some n ↔
      cs ≠ [] ∧ Run Char.isDigit cs ∧ n = Nat.ofDigitChars 10 cs 0 := by
  unfold Decimal.natural? Run
  by_cases hdigits : cs ≠ [] ∧ ∀ c ∈ cs, c.isDigit
  · rw [if_pos (by simpa using hdigits), Option.some.injEq, eq_comm]
    exact ⟨fun h => ⟨hdigits.1, hdigits.2, h⟩, fun h => h.2.2⟩
  · rw [if_neg (by simpa using hdigits)]
    exact ⟨fun h => absurd h (by simp), fun h => absurd ⟨h.1, h.2.1⟩ hdigits⟩

theorem signed?_eq_some_iff {cs : List Char} {e : ℤ} :
    Decimal.signed? cs = some e ↔ Signed cs e := by
  unfold Decimal.signed?
  refine ⟨?_, ?_⟩
  · intro h
    split at h
    all_goals
      simp only [Option.map_eq_some_iff, Option.bind_eq_bind, Option.bind_eq_some_iff,
        Option.pure_def, Option.some.injEq] at h
      obtain ⟨_, ⟨n, hn, rfl⟩, rfl⟩ := h
      obtain ⟨hne, hdigits, rfl⟩ := natural?_eq_some_iff.mp hn
    · exact .minus hne hdigits
    · exact .plus hne hdigits
    · exact .unsigned hne hdigits
  · intro h
    cases h with
    | @unsigned digits hne hdigits =>
        have hn := natural?_eq_some_iff.mpr ⟨hne, hdigits, rfl⟩
        split
        · exact absurd (hdigits '-' List.mem_cons_self) (by decide)
        · exact absurd (hdigits '+' List.mem_cons_self) (by decide)
        · rw [hn]
          rfl
    | plus hne hdigits =>
        have hn := natural?_eq_some_iff.mpr ⟨hne, hdigits, rfl⟩
        exact congrArg (fun n? => Option.map (fun n : ℤ => n) (n?.bind fun n => some (n : ℤ))) hn
    | minus hne hdigits =>
        have hn := natural?_eq_some_iff.mpr ⟨hne, hdigits, rfl⟩
        exact congrArg (fun n? => Option.map (fun n : ℤ => -n) (n?.bind fun n => some (n : ℤ))) hn

/-- **An exponent is read as what it says.** -/
theorem exponent?_eq_some_iff {cs : List Char} {e : ℤ} :
    Decimal.exponent? cs = some e ↔ Power cs e := by
  have hmark : ∀ mark : Char, (mark = 'e' ∨ mark = 'E') ↔ Cut.isExponentMark mark := by
    intro mark
    simp [Cut.isExponentMark]
  refine ⟨?_, ?_⟩
  · intro h
    unfold Decimal.exponent? at h
    split at h
    · cases h
      exact .absent
    · split at h
      · rename_i h'
        exact .present ((hmark _).mp h') (signed?_eq_some_iff.mp h)
      · exact absurd h (by simp)
  · intro h
    cases h with
    | absent => rfl
    | present h hsigned =>
        rw [Decimal.exponent?, if_pos ((hmark _).mpr h), signed?_eq_some_iff.mpr hsigned]

/-- An exponent starts with no digit and no point. -/
theorem Power.head {cs : List Char} {e : ℤ} (h : Power cs e) :
    cs.head?.any Char.isDigit = false ∧ cs.head? ≠ some '.' := by
  cases h with
  | absent => simp
  | present hmark =>
      simp only [Cut.isExponentMark, Bool.or_eq_true, beq_iff_eq] at hmark
      rcases hmark with rfl | rfl <;> simp

/-- What a decimal with so many digits behind the point is. -/
theorem value_places (front back : List Char) (e : ℤ) :
    Decimal.value ⟨Nat.ofDigitChars 10 (front ++ back) 0, e - back.length⟩ =
      (Nat.ofDigitChars 10 front 0 + Nat.ofDigitChars 10 back 0 / 10 ^ back.length) * 10 ^ e := by
  rw [Decimal.value, Nat.ofDigitChars_append, Nat.ofDigitChars_eq_ofDigitChars_zero,
    zpow_sub₀ (by norm_num), zpow_natCast]
  push_cast
  field_simp

theorem fraction_of_ne_point {cs : List Char} (h : cs.head? ≠ some '.') :
    Decimal.fraction cs = ([], cs) := by
  unfold Decimal.fraction
  split
  · exact absurd rfl h
  · rfl

/-- A text is read in parts: digits, the digits behind a point, and an exponent. -/
theorem ofChars?_of_parts {cs front back x : List Char} (hne : front ++ back ≠ [])
    (htake : cs.takeWhile Char.isDigit = front)
    (hfraction : Decimal.fraction (cs.dropWhile Char.isDigit) = (back, x)) :
    Decimal.ofChars? cs = (Decimal.exponent? x).map fun e =>
      ⟨Nat.ofDigitChars 10 (front ++ back) 0, e - back.length⟩ := by
  rw [Decimal.ofChars?, htake, hfraction]
  exact if_neg (by simpa using hne)

theorem exists_ofChars?_of_denotes {cs : List Char} {v : ℚ} (h : Denotes cs v) :
    ∃ d, Decimal.ofChars? cs = some d ∧ d.value = v := by
  obtain @⟨m, x, v, e, hm, hx⟩ := h
  obtain ⟨hdigit, hpoint⟩ := hx.head
  have hexponent := exponent?_eq_some_iff.mpr hx
  cases hm with
  | whole hne hrun =>
      obtain ⟨htake, hdrop⟩ := hrun.takeWhile_eq hdigit rfl
      have hfraction : Decimal.fraction ((m ++ x).dropWhile Char.isDigit) = ([], x) := by
        rw [hdrop, fraction_of_ne_point hpoint]
      have hne : m ++ [] ≠ [] := by simpa using hne
      refine ⟨_, (ofChars?_of_parts hne htake hfraction).trans (congrArg _ hexponent), ?_⟩
      rw [value_places]
      simp
  | @point front back hne hfront hback =>
      rw [List.append_assoc, List.cons_append]
      have hstop : ('.' :: (back ++ x)).head?.any Char.isDigit = false := by simp
      obtain ⟨htake, hdrop⟩ := hfront.takeWhile_eq hstop rfl
      obtain ⟨htake', hdrop'⟩ := hback.takeWhile_eq hdigit rfl
      have hfraction : Decimal.fraction
          ((front ++ '.' :: (back ++ x)).dropWhile Char.isDigit) = (back, x) := by
        rw [hdrop, Decimal.fraction, htake', hdrop']
      exact ⟨_, (ofChars?_of_parts hne htake hfraction).trans (congrArg _ hexponent),
        value_places front back _⟩

theorem denotes_of_ofChars? {cs : List Char} {d : Decimal} (h : Decimal.ofChars? cs = some d) :
    Denotes cs d.value := by
  have hfront := (longest_takeWhile Char.isDigit cs).holds
  have hsplit := List.takeWhile_append_dropWhile (p := Char.isDigit) (l := cs)
  unfold Decimal.ofChars? at h
  dsimp only at h
  generalize cs.takeWhile Char.isDigit = front at *
  generalize cs.dropWhile Char.isDigit = rest at *
  subst hsplit
  split at h
  · exact absurd h (by simp)
  rename_i hne
  obtain ⟨e, hexponent, rfl⟩ := Option.map_eq_some_iff.mp h
  have hx := exponent?_eq_some_iff.mp hexponent
  rw [value_places]
  by_cases hpoint : rest.head? = some '.'
  · obtain ⟨cs, rfl⟩ : ∃ cs, rest = '.' :: cs := by
      obtain ⟨cs, hcs⟩ := List.head?_eq_some_iff.mp hpoint
      exact ⟨cs, hcs⟩
    have hback := (longest_takeWhile Char.isDigit cs).holds
    have hm : Mantissa (front ++ '.' :: cs.takeWhile Char.isDigit) _ :=
      .point (by simpa [Decimal.fraction] using hne) hfront hback
    have htext : front ++ '.' :: cs =
        (front ++ '.' :: cs.takeWhile Char.isDigit) ++ cs.dropWhile Char.isDigit := by simp
    rw [htext]
    exact .intro hm hx
  · rw [fraction_of_ne_point hpoint] at hne hx ⊢
    have hm : Mantissa front (Nat.ofDigitChars 10 front 0) := .whole (by simpa using hne) hfront
    simpa using Denotes.intro hm hx

/-- **What a text says is what is read of it.** -/
theorem denotes_iff {cs : List Char} {v : ℚ} :
    Denotes cs v ↔ ∃ d, Decimal.ofChars? cs = some d ∧ d.value = v := by
  refine ⟨exists_ofChars?_of_denotes, ?_⟩
  rintro ⟨d, hd, rfl⟩
  exact denotes_of_ofChars? hd

/-- A text says one number at most. -/
theorem Denotes.unique {cs : List Char} {v u : ℚ} (h : Denotes cs v) (h' : Denotes cs u) :
    v = u := by
  obtain ⟨d, hd, rfl⟩ := denotes_iff.mp h
  obtain ⟨d', hd', rfl⟩ := denotes_iff.mp h'
  rw [hd] at hd'
  rw [Option.some.inj hd']

/-! ## Which texts say a number -/

/-- What may stand in a text that says a number. -/
def IsDecimalChar (c : Char) : Prop :=
  c.isDigit ∨ c = '.' ∨ Cut.isExponentMark c ∨ Cut.isSign c

theorem Denotes.isDecimalChar {cs : List Char} {v : ℚ} (h : Denotes cs v) :
    ∀ c ∈ cs, IsDecimalChar c := by
  have hrun : ∀ {digits : List Char}, Run Char.isDigit digits → ∀ c ∈ digits, IsDecimalChar c :=
    fun hdigits c hc => Or.inl (hdigits c hc)
  obtain ⟨hm, hx⟩ := h
  refine List.forall_mem_append.mpr ⟨?_, ?_⟩
  · cases hm with
    | whole _ hdigits => exact hrun hdigits
    | point _ hfront hback =>
        exact List.forall_mem_append.mpr ⟨hrun hfront,
          List.forall_mem_cons.mpr ⟨Or.inr (Or.inl rfl), hrun hback⟩⟩
  · cases hx with
    | absent => simp
    | present hmark hsigned =>
        refine List.forall_mem_cons.mpr ⟨Or.inr (Or.inr (Or.inl hmark)), ?_⟩
        cases hsigned with
        | unsigned _ hdigits => exact hrun hdigits
        | plus _ hdigits | minus _ hdigits =>
            exact List.forall_mem_cons.mpr ⟨Or.inr (Or.inr (Or.inr rfl)), hrun hdigits⟩

theorem Denotes.underscore_not_mem {cs : List Char} {v : ℚ} (h : Denotes cs v) : '_' ∉ cs := by
  intro hmem
  have hchar := h.isDecimalChar '_' hmem
  exact absurd hchar (by simp [IsDecimalChar, Cut.isExponentMark, Cut.isSign])

theorem Denotes.not_based {cs : List Char} {v : ℚ} (h : Denotes cs v) : ¬Based cs := by
  rintro ⟨hmark⟩
  have hchar := h.isDecimalChar _ (List.mem_cons_of_mem _ List.mem_cons_self)
  simp only [Cut.isBaseMark, List.contains_eq_mem, decide_eq_true_eq, List.mem_cons,
    List.not_mem_nil, or_false] at hmark
  rcases hmark with rfl | rfl | rfl | rfl | rfl | rfl <;>
    exact absurd hchar (by simp [IsDecimalChar, Cut.isExponentMark, Cut.isSign])

/-- Without underscores, a run of digits is one. -/
theorem isDigit_of_run {cs : List Char} (h : Run Cut.continuesDigits cs) (hnot : '_' ∉ cs) :
    Run Char.isDigit cs := by
  intro c hc
  have hcontinues := h c hc
  simp only [Cut.continuesDigits, Bool.or_eq_true, beq_iff_eq] at hcontinues
  rcases hcontinues with hdigit | rfl
  · exact hdigit
  · exact absurd hc hnot

theorem digits_of_form {ds : List Char} (h : Form.Digits ds) (hnot : '_' ∉ ds) :
    ds ≠ [] ∧ Run Char.isDigit ds := by
  refine ⟨?_, isDigit_of_run (Form.continuesDigits_of_mem h) hnot⟩
  cases h with
  | intro => simp

theorem exists_mantissa {point : Bool} {m : List Char} (h : Form.Mantissa point m)
    (hnot : '_' ∉ m) : ∃ v, Mantissa m v := by
  cases h with
  | whole hds =>
      obtain ⟨hne, hdigits⟩ := digits_of_form hds hnot
      exact ⟨_, .whole hne hdigits⟩
  | @point ds rs hds hrs =>
      obtain ⟨hnotds, hnotrs⟩ := not_or.mp (mt List.mem_append.mpr hnot)
      obtain ⟨hne, hdigits⟩ := digits_of_form hds hnotds
      have hback := isDigit_of_run hrs (mt (List.mem_cons_of_mem _) hnotrs)
      exact ⟨_, .point (List.append_ne_nil_of_left_ne_nil hne rs) hdigits hback⟩
  | @fraction rs hrs =>
      obtain ⟨hne, hdigits⟩ := digits_of_form hrs (mt (List.mem_cons_of_mem _) hnot)
      have hm : Mantissa ([] ++ '.' :: rs) _ := .point hne (by simp [Run]) hdigits
      exact ⟨_, hm⟩

theorem exists_power {x : List Char} (h : Form.Exponent x) (hnot : '_' ∉ x) :
    ∃ e, Power x e := by
  cases h with
  | unsigned hmark hds =>
      obtain ⟨hne, hdigits⟩ := digits_of_form hds (mt (List.mem_cons_of_mem _) hnot)
      exact ⟨_, .present hmark (.unsigned hne hdigits)⟩
  | signed hmark hsign hds =>
      have hnotds := mt (List.mem_cons_of_mem _) (mt (List.mem_cons_of_mem _) hnot)
      obtain ⟨hne, hdigits⟩ := digits_of_form hds hnotds
      simp only [Cut.isSign, Bool.or_eq_true, beq_iff_eq] at hsign
      rcases hsign with rfl | rfl
      · exact ⟨_, .present hmark (.plus hne hdigits)⟩
      · exact ⟨_, .present hmark (.minus hne hdigits)⟩

/-- **A number without underscores says one.** -/
theorem exists_denotes {decimal : Bool} {text : List Char} (h : Form.Number decimal text)
    (hnot : '_' ∉ text) : ∃ v, Denotes text v := by
  cases h with
  | plain hm =>
      obtain ⟨v, hv⟩ := exists_mantissa hm hnot
      have hdenotes := Denotes.intro hv .absent
      rw [List.append_nil] at hdenotes
      exact ⟨_, hdenotes⟩
  | scaled hm hx =>
      obtain ⟨hnotm, hnotx⟩ := not_or.mp (mt List.mem_append.mpr hnot)
      obtain ⟨v, hv⟩ := exists_mantissa hm hnotm
      obtain ⟨e, he⟩ := exists_power hx hnotx
      exact ⟨_, .intro hv he⟩

/-! ## Literals that the scanner cuts -/

/-- What the text of a literal can be. -/
def IsForm (text : String) : Prop :=
  Based text.toList ∨ ∃ decimal, Form.Number decimal text.toList

theorem isForm_of_cutAt {c : Char} {cs rest : List Char} {l : Lexeme}
    (h : cutAt c cs = .lexeme l rest) (hl : Cut.IsLiteral l) : IsForm l.text := by
  have hplace := agrees_cutAt c cs
  rw [h] at hplace
  generalize hcs : c :: cs = place at hplace
  cases hplace with
  | name | operator | leftParen | rightParen =>
      obtain ⟨text, hl | hl⟩ := hl <;> exact absurd hl (by simp)
  | @based mark _ text _ hmark hsplit hlongest =>
      left
      rw [Lexeme.text, String.toList_ofList]
      -- the mark alone would be a run
      have hrun : Run Cut.continuesBased [mark] := by
        intro d hd
        rw [List.mem_singleton.mp hd]
        exact Cut.continuesBased_of_isBaseMark hmark
      have hle := hlongest.le [mark] _ hsplit hrun
      cases text with
      | nil => exact absurd hle (by simp)
      | cons first text =>
          obtain ⟨rfl, _⟩ := List.cons.inj hsplit
          exact .intro hmark
  | @number _ text _ decimal _ _ _ hnumber =>
      right
      refine ⟨decimal, ?_⟩
      have htext : (Lexeme.ofNumber decimal (String.ofList text)).text = String.ofList text := by
        cases decimal <;> rfl
      rwa [htext, String.toList_ofList]

theorem literal?_eq_none_of_not_denotes {text : String} (h : ∀ v, ¬Denotes text.toList v) :
    Reader.literal? text = none := by
  have hnone : Decimal.ofChars? text.toList = none := by
    rw [Option.eq_none_iff_forall_not_mem]
    intro d hd
    exact h _ (denotes_of_ofChars? hd)
  rw [Reader.literal?, hnone, Option.bind_none]

theorem literal?_of_denotes {text : String} {v : ℚ} (h : Denotes text.toList v) :
    ∃ d : Decimal, d.value = v ∧ Reader.literal? text = d.toFloat? := by
  obtain ⟨d, hd, hvalue⟩ := denotes_iff.mp h
  exact ⟨d, hvalue, by rw [Reader.literal?, hd, Option.bind_some]⟩

/-- **A literal that is not refused is the number nearest to what it says.** -/
theorem exists_literal? {text : String} (h : IsForm text) (hnot : ¬Refused text.toList) :
    ∃ v x w, Denotes text.toList v ∧ Reader.literal? text = some x ∧ Binary64.Plain x ∧
      Binary64.Rounds v x w := by
  rcases h with hbased | ⟨decimal, hnumber⟩
  · exact absurd (.based hbased) hnot
  · obtain ⟨v, hv⟩ := exists_denotes hnumber (mt .underscore hnot)
    obtain ⟨d, rfl, hd⟩ := literal?_of_denotes hv
    have hsmall : d.value < Binary64.limit := not_le.mp fun hlarge => hnot (.tooLarge hv hlarge)
    obtain ⟨x, w, hx, hplain, hrounds⟩ := Decimal.exists_toFloat? hsmall
    exact ⟨_, x, w, hv, hd.trans hx, hplain, hrounds⟩

/-- **A literal is no number just when it is refused.** -/
theorem literal?_eq_none_iff {text : String} (h : IsForm text) :
    Reader.literal? text = none ↔ Refused text.toList := by
  refine ⟨?_, ?_⟩
  · intro hnone
    by_contra hnot
    obtain ⟨_, _, _, _, hsome, _⟩ := exists_literal? h hnot
    rw [hnone] at hsome
    exact absurd hsome (by simp)
  · intro hrefused
    cases hrefused with
    | underscore hmem =>
        exact literal?_eq_none_of_not_denotes fun v hv => hv.underscore_not_mem hmem
    | based hbased => exact literal?_eq_none_of_not_denotes fun v hv => hv.not_based hbased
    | tooLarge hv hlarge =>
        obtain ⟨d, rfl, hd⟩ := literal?_of_denotes hv
        rw [hd, Decimal.toFloat?_eq_none_iff]
        exact hlarge

end Literal

/-! ## Literals that the reader meets -/

namespace Scanner

/-- Every lexeme but the end is cut somewhere. -/
theorem exists_cutAt_of_mem_run {s : Scanner} :
    ∀ l ∈ s.run.lexemes, l.lexeme ≠ .endOfInput →
      ∃ c cs rest, cutAt c cs = .lexeme l.lexeme rest := by
  fun_induction Scanner.run s with
  | case1 s e hnext => simp
  | case2 s l t hnext hend =>
      intro m hm hne
      rw [List.mem_singleton.mp hm] at hne
      exact absurd hend hne
  | case3 s l t hnext hne more =>
      rename_i ih
      intro m hm hm'
      rcases List.mem_cons.mp hm with rfl | hmore
      · cases next_eq_ok_iff.mp hnext with
        | finish => exact absurd rfl hm'
        | lexeme _ _ _ hcut => exact ⟨_, _, _, hcut⟩
      · exact ih m hmore hm'

theorem position_ne_of_split {s : Scanner} {before after : List Located} {l : Located}
    (h : s.run.lexemes = before ++ l :: after) : ∀ m ∈ after, m.position ≠ l.position := by
  intro m hm hsame
  have hpairwise := (List.pairwise_append.mp (h ▸ pairwise_run)).2.1
  have hbefore := (List.pairwise_cons.mp hpairwise).1 m hm
  rw [hsame] at hbefore
  exact absurd hbefore (by simp [Position.Before])

/-- **A position is that of one lexeme only.** -/
theorem split_unique {s : Scanner} {before before' after after' : List Located} {l l' : Located}
    (h : s.run.lexemes = before ++ l :: after) (h' : s.run.lexemes = before' ++ l' :: after')
    (hsame : l.position = l'.position) : before = before' ∧ l = l' := by
  rcases List.append_eq_append_iff.mp (h.symm.trans h') with ⟨between, hbefore, hl⟩ |
    ⟨between, hbefore, hl⟩
  · cases between with
    | nil => exact ⟨by simpa using hbefore.symm, (List.cons.inj hl).1⟩
    | cons first between =>
        obtain ⟨_, htail⟩ := List.cons.inj hl
        exact absurd hsame.symm (position_ne_of_split h l' (by simp [htail]))
  · cases between with
    | nil => exact ⟨by simpa using hbefore, (List.cons.inj hl).1.symm⟩
    | cons first between =>
        obtain ⟨_, htail⟩ := List.cons.inj hl
        exact absurd hsame (position_ne_of_split h' l (by simp [htail]))

end Scanner

namespace Reader

/-- A run goes on where it stopped. -/
theorem feedAll_append {before : List Located} {mid : Reader} (after : List Located) :
    ∀ {r : Reader} {ts : List Token}, r.feedAll before = .ok (ts, mid) →
      r.feedAll (before ++ after) =
        (mid.feedAll after).map fun read => (ts ++ read.1, read.2) := by
  induction before with
  | nil =>
      intro r ts h
      cases h
      rw [List.nil_append]
      cases mid.feedAll after <;> rfl
  | cons first before ih =>
      intro r ts h
      obtain ⟨us, next, more, hstep, hmore, rfl⟩ := feedAll_cons_eq_ok_iff.mp h
      rw [List.cons_append, feedAll, feed_eq_ok_iff.mpr hstep]
      dsimp only
      rw [ih hmore]
      cases mid.feedAll after with
      | error e => rfl
      | ok read =>
          have happend := List.append_assoc us more read.1
          simp [Except.map, happend]

/-- What a reader does with a literal that starts a unit. -/
theorem feed_literal {r : Reader} {l : Lexeme} (hoperand : r.phase = .operand)
    (hroom : r.frames.length < nestingLimit) (hl : Cut.IsLiteral l) :
    r.feed l =
      match literal? l.text with
      | some value => .ok ([.number value], ⟨.operator, closeUnit r.frames⟩)
      | none => .error (.invalidNumber l.text) := by
  obtain ⟨text, rfl | rfl⟩ := hl
  all_goals
    rw [feed, hoperand]
    exact if_neg (Nat.ne_of_lt hroom)

end Reader

/-- A lexeme that is read is not blamed. -/
theorem Scanner.tokens_ne_error_of_feed {s : Scanner} {before after : List Located} {l : Located}
    {tokens ts : List Token} {r next : Reader} (hlisted : s.run.lexemes = before ++ l :: after)
    (hread : Reader.start.feedAll before = .ok (tokens, r))
    (hfeed : r.feed l.lexeme = .ok (ts, next)) {cause : Cause} (hcause : ¬cause.Lexical) :
    s.run.tokens ≠ .error ⟨cause, l.position⟩ := by
  intro h
  rcases Scan.tokens_eq_error_iff.mp h with hrefused | ⟨_, hfailure⟩
  · obtain ⟨before', l', after', us, mid, hsplit, hbefore, hl', hposition⟩ :=
      Reader.exists_of_feedAll_eq_error hrefused
    obtain ⟨rfl, rfl⟩ := split_unique hlisted hsplit hposition
    rw [hread] at hbefore
    cases hbefore
    rw [hfeed] at hl'
    exact absurd hl' (by simp)
  · exact hcause (lexical_of_run hfailure)

/-- What is read of the first lexemes is what the tokens start with. -/
theorem Scan.prefix_of_feedAll {s : Scan} {before after : List Located} {tokens ts : List Token}
    {mid : Reader} (hlisted : s.lexemes = before ++ after)
    (hread : Reader.start.feedAll before = .ok (tokens, mid)) (h : s.tokens = .ok ts) :
    tokens <+: ts := by
  obtain ⟨_, last, hall⟩ := Scan.tokens_eq_ok_iff.mp h
  rw [hlisted, Reader.feedAll_append after hread] at hall
  cases hafter : mid.feedAll after with
  | error e =>
      rw [hafter] at hall
      exact absurd hall (by simp [Except.map])
  | ok read =>
      rw [hafter] at hall
      cases hall
      exact List.prefix_append _ _

/-- The lexeme is met where a unit must start, and one more may be open. -/
structure MetAsUnit (bytes : List UInt8) (before : List Located) (l : Located) (tokens : List Token)
    (r : Reader) : Prop where
  listed : ∃ after, (scan (.ofBytes bytes)).lexemes = before ++ l :: after
  read : Reader.start.feedAll before = .ok (tokens, r)
  operand : r.phase = .operand
  room : r.frames.length < nestingLimit

/--
**Literals are taken exactly.** One that is met as a unit is refused, with its text at its position,
just if there is an underscore in it, it is in another base, or it is too large to be finite; and
else it becomes the number nearest to what it says, with a clear sign bit.
-/
theorem literals_are_exact {bytes : List UInt8} {before : List Located} {l : Located}
    {tokens : List Token} {r : Reader} (h : MetAsUnit bytes before l tokens r)
    (hl : Cut.IsLiteral l.lexeme) :
    (parse (.ofBytes bytes) = .error ⟨.invalidNumber l.lexeme.text, l.position⟩ ↔
      Literal.Refused l.lexeme.text.toList) ∧
    (¬Literal.Refused l.lexeme.text.toList →
      ∃ v x w, Literal.Denotes l.lexeme.text.toList v ∧ Binary64.Rounds v x w ∧
        Binary64.isNegative x = false ∧
        Reader.start.feedAll (before ++ [l]) =
          .ok (tokens ++ [.number x], ⟨.operator, Reader.closeUnit r.frames⟩) ∧
        ∀ ts, parse (.ofBytes bytes) = .ok ts → tokens ++ [.number x] <+: ts) := by
  obtain ⟨⟨after, hlisted⟩, hread, hoperand, hroom⟩ := h
  have hmem : l ∈ (scan (.ofBytes bytes)).lexemes := by
    rw [hlisted]
    exact List.mem_append_right _ List.mem_cons_self
  have hnotEnd : l.lexeme ≠ .endOfInput := by
    obtain ⟨text, hl | hl⟩ := hl <;> simp [hl]
  obtain ⟨c, cs, rest, hcut⟩ := Scanner.exists_cutAt_of_mem_run l hmem hnotEnd
  have hform := Literal.isForm_of_cutAt hcut hl
  have hfeed := Reader.feed_literal hoperand hroom hl
  refine ⟨⟨?_, ?_⟩, ?_⟩
  · intro herror
    by_contra hnot
    obtain ⟨_, x, _, _, hx, _⟩ := Literal.exists_literal? hform hnot
    rw [hx] at hfeed
    exact Scanner.tokens_ne_error_of_feed hlisted hread hfeed id herror
  · intro hrefused
    rw [(Literal.literal?_eq_none_iff hform).mpr hrefused] at hfeed
    refine Scan.tokens_eq_error_iff.mpr (Or.inl ?_)
    rw [hlisted]
    exact Reader.feedAll_eq_error_of_feed after hfeed hread
  · intro hnot
    obtain ⟨v, x, w, hdenotes, hx, hplain, hrounds⟩ := Literal.exists_literal? hform hnot
    rw [hx] at hfeed
    have hok : Reader.start.feedAll (before ++ [l]) =
        .ok (tokens ++ [.number x], ⟨.operator, Reader.closeUnit r.frames⟩) := by
      rw [Reader.feedAll_append [l] hread, Reader.feedAll, hfeed]
      rfl
    rw [List.append_cons] at hlisted
    exact ⟨v, x, w, hdenotes, hrounds, hplain.unsigned, hok,
      fun ts hts => Scan.prefix_of_feedAll hlisted hok hts⟩

/-- `1e400` behind a minus sign is refused. `9007199254740993` is half-way between two numbers, and
becomes the one whose significand is even. -/
theorem too_large_and_half_way :
    (MetAsUnit [45, 49, 101, 52, 48, 48] [⟨.operator .subtract, ⟨1, 1⟩⟩]
          ⟨.decimal "1e400", ⟨1, 2⟩⟩ [.negate] ⟨.operand, [.negation]⟩ ∧
        Cut.IsLiteral (.decimal "1e400") ∧ Literal.Refused "1e400".toList ∧
        parse (.ofBytes [45, 49, 101, 52, 48, 48]) = .error ⟨.invalidNumber "1e400", ⟨1, 2⟩⟩) ∧
      MetAsUnit [57, 48, 48, 55, 49, 57, 57, 50, 53, 52, 55, 52, 48, 57, 57, 51] []
          ⟨.integer "9007199254740993", ⟨1, 1⟩⟩ [] .start ∧
        Cut.IsLiteral (.integer "9007199254740993") ∧
        ¬Literal.Refused "9007199254740993".toList ∧
        Literal.Denotes "9007199254740993".toList 9007199254740993 ∧
        Binary64.Rounds 9007199254740993 9007199254740992.0 9007199254740992 ∧
        Binary64.value? 9007199254740994.0 = some 9007199254740994 := by
  refine ⟨?tooLarge, ?halfWay⟩
  case tooLarge =>
    have hmet : MetAsUnit [45, 49, 101, 52, 48, 48] [⟨.operator .subtract, ⟨1, 1⟩⟩]
        ⟨.decimal "1e400", ⟨1, 2⟩⟩ [.negate] ⟨.operand, [.negation]⟩ :=
      ⟨⟨[⟨.endOfInput, ⟨1, 7⟩⟩], by decide +kernel⟩, by decide +kernel, rfl, by decide⟩
    have hl : Cut.IsLiteral (.decimal "1e400") := ⟨_, Or.inr rfl⟩
    have hdenotes : Literal.Denotes (['1'] ++ 'e' :: ['4', '0', '0']) _ :=
      .intro (.whole (by simp) (by simp [Run]))
        (.present (by decide) (.unsigned (by simp) (by simp [Run])))
    have hone : Nat.ofDigitChars 10 ['1'] 0 = 1 := by decide
    have hexponent : Nat.ofDigitChars 10 ['4', '0', '0'] 0 = 400 := by decide
    have hrefused : Literal.Refused "1e400".toList := by
      refine .tooLarge hdenotes ?_
      rw [hone, hexponent, Nat.cast_one, one_mul, zpow_natCast]
      exact Decimal.limit_le_of_huge (by decide)
    exact ⟨hmet, hl, hrefused, (literals_are_exact hmet hl).1.mpr hrefused⟩
  case halfWay =>
    have hmet : MetAsUnit [57, 48, 48, 55, 49, 57, 57, 50, 53, 52, 55, 52, 48, 57, 57, 51] []
        ⟨.integer "9007199254740993", ⟨1, 1⟩⟩ [] .start :=
      ⟨⟨[⟨.endOfInput, ⟨1, 17⟩⟩], by decide +kernel⟩, rfl, rfl, by decide⟩
    have hl : Cut.IsLiteral (.integer "9007199254740993") := ⟨_, Or.inl rfl⟩
    have hparse : parse
        (.ofBytes [57, 48, 48, 55, 49, 57, 57, 50, 53, 52, 55, 52, 48, 57, 57, 51]) =
        .ok [.number 9007199254740992.0] := by decide +kernel
    obtain ⟨hrefusal, htaken⟩ := literals_are_exact hmet hl
    have hnot : ¬Literal.Refused "9007199254740993".toList := by
      intro hrefused
      exact absurd (hparse.symm.trans (hrefusal.mpr hrefused)) nofun
    obtain ⟨v, x, w, hv, hrounds, _, _, hprefix⟩ := htaken hnot
    have hdenotes : Literal.Denotes "9007199254740993".toList 9007199254740993 := by
      have hwhole : Literal.Denotes ("9007199254740993".toList ++ []) _ :=
        .intro (.whole (by simp) (by simp [Run])) .absent
      have hdigits : Nat.ofDigitChars 10 "9007199254740993".toList 0 = 9007199254740993 := by
        decide
      rw [hdigits, List.append_nil, zpow_zero, mul_one] at hwhole
      exact hwhole
    obtain rfl : v = 9007199254740993 := hv.unique hdenotes
    obtain rfl : x = 9007199254740992.0 := by simpa using hprefix _ hparse
    have hvalue : Binary64.value? 9007199254740992.0 = some 9007199254740992 := by decide +kernel
    obtain rfl : w = 9007199254740992 := Option.some.inj (hrounds.value.symm.trans hvalue)
    exact ⟨hmet, hl, hnot, hdenotes, hrounds, by decide +kernel⟩

end Formula
