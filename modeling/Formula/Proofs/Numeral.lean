import Formula.Proofs.Cutting
import Formula.Proofs.Rounding
import Formula.Reader

/-!
# Numbers as they are written

A decimal is written as digits, with at most one point somewhere behind the first. Such a text is
read digit for digit as what it says (`ofChars?_of_numeral`), and it is cut as one literal, for no
digit and no point announces another base or an exponent (`cutAt_of_numeral`).

What is written for a decimal says the same number, with the power of ten put into the digits where
it is positive (`numeral_toChars`). With what rounding does this makes every plain number the one
that its own text denotes (`literal?_text`).
-/

namespace Formula

/-! ## Digits with a point among them -/

/-- The text is a number in digits, and says the decimal. -/
inductive Numeral : List Char → Decimal → Prop where
  | whole {digits : List Char} : digits ≠ [] → (∀ c ∈ digits, c.isDigit) →
      Numeral digits ⟨Nat.ofDigitChars 10 digits 0, 0⟩
  | point {front back : List Char} : front ≠ [] → (∀ c ∈ front, c.isDigit) →
      (∀ c ∈ back, c.isDigit) →
      Numeral (front ++ '.' :: back) ⟨Nat.ofDigitChars 10 (front ++ back) 0, -(back.length : Int)⟩

theorem Numeral.ne_nil {cs : List Char} {d : Decimal} (h : Numeral cs d) : cs ≠ [] := by
  cases h with
  | whole hne => exact hne
  | point => simp

/-- **A number in digits is read as what it says.** -/
theorem ofChars?_of_numeral {cs : List Char} {d : Decimal} (h : Numeral cs d) :
    Decimal.ofChars? cs = some d := by
  cases h with
  | whole hne hdigits =>
      have htake := List.takeWhile_eq_self_iff.mpr hdigits
      have hdrop := List.dropWhile_eq_nil_iff.mpr hdigits
      simp [Decimal.ofChars?, htake, hdrop, hne, Decimal.fraction, Decimal.exponent?]
  | @point front back hne hfront hback =>
      have hpoint : Char.isDigit '.' = false := by decide
      have htake := List.takeWhile_eq_self_iff.mpr hfront
      have hdrop := List.dropWhile_eq_nil_iff.mpr hfront
      have htake' := List.takeWhile_eq_self_iff.mpr hback
      have hdrop' := List.dropWhile_eq_nil_iff.mpr hback
      rw [Decimal.ofChars?, takeWhile_append_cons_of_neg hpoint,
        dropWhile_append_cons_of_neg hpoint, htake, hdrop]
      simp [hne, Decimal.fraction, htake', hdrop', Decimal.exponent?]

/-! ## Cutting -/

/-- The literal that a text of digits is, by whether there is a point in it. -/
def Lexeme.numeral (text : String) : Lexeme :=
  if '.' ∈ text.toList then .decimal text else .integer text

theorem not_isBaseMark_of_isDigit {c : Char} (h : c.isDigit) : Cut.isBaseMark c = false := by
  rw [Bool.eq_false_iff]
  intro hmark
  simp only [Cut.isBaseMark, List.contains_eq_mem, decide_eq_true_eq, List.mem_cons,
    List.not_mem_nil, or_false] at hmark
  rcases hmark with rfl | rfl | rfl | rfl | rfl | rfl <;> exact absurd h (by decide)

/-- Behind a digit, digits announce no other base. -/
theorem head?_any_isBaseMark_of_digits {cs : List Char} (h : ∀ c ∈ cs, c.isDigit) :
    cs.head?.any Cut.isBaseMark = false := by
  cases cs with
  | nil => rfl
  | cons c cs => exact not_isBaseMark_of_isDigit (h c List.mem_cons_self)

theorem point_not_mem_digits {cs : List Char} (h : ∀ c ∈ cs, c.isDigit) : '.' ∉ cs := by
  intro hmem
  exact absurd (h '.' hmem) (by decide)

/-- Digits alone are an integer, whole. -/
theorem number_of_digits {digit : Char} {cs : List Char} (hcs : ∀ c ∈ cs, c.isDigit) :
    Cut.number digit cs = .lexeme (.integer (String.ofList (digit :: cs))) [] := by
  have hrun : ∀ c ∈ cs, Cut.continuesDigits c := fun c hc =>
    Cut.continuesDigits_of_isDigit (hcs c hc)
  rw [Cut.number_eq, List.takeWhile_eq_self_iff.mpr hrun, List.dropWhile_eq_nil_iff.mpr hrun,
    head?_any_isBaseMark_of_digits hcs, if_neg (by simp), if_neg (by simp)]
  rfl

/-- Digits with a point behind some of them are a decimal, whole. -/
theorem number_of_point {digit : Char} {front back : List Char} (hfront : ∀ c ∈ front, c.isDigit)
    (hback : ∀ c ∈ back, c.isDigit) :
    Cut.number digit (front ++ '.' :: back) =
      .lexeme (.decimal (String.ofList (digit :: front ++ '.' :: back))) [] := by
  have hrun : ∀ c ∈ front, Cut.continuesDigits c := fun c hc =>
    Cut.continuesDigits_of_isDigit (hfront c hc)
  have hrun' : ∀ c ∈ back, Cut.continuesDigits c := fun c hc =>
    Cut.continuesDigits_of_isDigit (hback c hc)
  have hbase : Cut.isBaseMark '.' = false := by decide
  have hpoint : Cut.continuesDigits '.' = false := by decide
  rw [Cut.number_eq, head?_any_append_cons_of_neg hbase, head?_any_isBaseMark_of_digits hfront,
    takeWhile_append_cons_of_neg hpoint, dropWhile_append_cons_of_neg hpoint,
    List.takeWhile_eq_self_iff.mpr hrun, List.dropWhile_eq_nil_iff.mpr hrun, if_neg (by simp),
    if_pos (by simp), List.nil_append, List.tail_cons, Cut.fraction,
    List.takeWhile_eq_self_iff.mpr hrun', List.dropWhile_eq_nil_iff.mpr hrun', List.append_assoc]
  rfl

/-- **A number in digits is one literal.** -/
theorem cutAt_of_numeral {c : Char} {cs : List Char} {d : Decimal} (h : Numeral (c :: cs) d) :
    cutAt c cs = .lexeme (.numeral (String.ofList (c :: cs))) [] := by
  rw [cutAt_eq_lexeme_iff, Lexeme.numeral, String.toList_ofList]
  generalize htext : c :: cs = text at h
  cases h with
  | whole _ hdigits =>
      rw [if_neg (point_not_mem_digits hdigits), ← htext]
      obtain ⟨hdigit, hcs⟩ := List.forall_mem_cons.mp (htext ▸ hdigits)
      exact .number hdigit (number_of_digits hcs)
  | @point front back hne hfront hback =>
      cases front with
      | nil => exact absurd rfl hne
      | cons digit front =>
          obtain ⟨rfl, rfl⟩ := List.cons.inj htext
          obtain ⟨hdigit, hfront⟩ := List.forall_mem_cons.mp hfront
          rw [if_pos (by simp)]
          exact .number hdigit (number_of_point hfront hback)

/-! ## Writing -/

namespace Decimal

/-- The same number without a positive exponent. -/
def spread (d : Decimal) : Decimal :=
  match d.exponent with
  | .ofNat e => ⟨d.digits * Nat.pow 10 e, 0⟩
  | .negSucc _ => d

theorem pattern_ofNat {digits : Nat} (h : digits ≠ 0) (e : Nat) :
    pattern ⟨digits, .ofNat e⟩ =
      if hugeExponent ≤ (e : Int) then Binary64.infinity
      else Binary64.nearest (digits * Nat.pow 10 e) 1 := if_neg h

/-- Spreading the power of ten over the digits changes no finite number. -/
theorem pattern_spread {d : Decimal} (h : d.pattern < Binary64.infinity) :
    d.spread.pattern = d.pattern := by
  obtain ⟨digits, exponent⟩ := d
  cases exponent with
  | negSucc e => rfl
  | ofNat e =>
      by_cases hzero : digits = 0
      · simp [spread, pattern, hzero]
      · have htens : Nat.pow 10 e ≠ 0 := Nat.ne_of_gt (Nat.pow_pos (by decide))
        have hone : digits * Nat.pow 10 e * Nat.pow 10 0 = digits * Nat.pow 10 e := Nat.mul_one _
        rw [pattern_ofNat hzero] at h ⊢
        have hsmall : ¬ hugeExponent ≤ (e : Int) := by
          intro hhuge
          rw [if_pos hhuge] at h
          exact Nat.lt_irrefl _ h
        have hspread : spread ⟨digits, .ofNat e⟩ = ⟨digits * Nat.pow 10 e, .ofNat 0⟩ := rfl
        rw [hspread, pattern_ofNat (Nat.mul_ne_zero hzero htens), if_neg (by decide), hone,
          if_neg hsmall]

theorem isDigit_of_mem_toDigits {n : Nat} : ∀ c ∈ Nat.toDigits 10 n, c.isDigit :=
  fun _ hc => Nat.isDigit_of_mem_toDigits (by decide) (by decide) hc

theorem isDigit_of_mem_zeros {n : Nat} : ∀ c ∈ List.replicate n '0', c.isDigit := by
  intro c hc
  rw [List.eq_of_mem_replicate hc]
  decide

/-- A point so many places before the end of some digits lowers the exponent by as many. -/
theorem numeral_of_places {digits : List Char} {places : Nat} (hdigits : ∀ c ∈ digits, c.isDigit)
    (hlength : places < digits.length) :
    Numeral
      (digits.take (digits.length - places) ++ '.' :: digits.drop (digits.length - places))
      ⟨Nat.ofDigitChars 10 digits 0, -(places : Int)⟩ := by
  have hne : digits.take (digits.length - places) ≠ [] := by
    rw [← List.length_pos_iff, List.length_take]
    omega
  have hfront : ∀ c ∈ digits.take (digits.length - places), c.isDigit :=
    fun c hc => hdigits c (List.mem_of_mem_take hc)
  have hback : ∀ c ∈ digits.drop (digits.length - places), c.isDigit :=
    fun c hc => hdigits c (List.mem_of_mem_drop hc)
  have hplaces : (digits.drop (digits.length - places)).length = places := by
    rw [List.length_drop]
    omega
  have hnumeral := Numeral.point hne hfront hback
  rwa [List.take_append_drop, hplaces] at hnumeral

/-- **What is written for a decimal says the number it is.** -/
theorem numeral_toChars (d : Decimal) : Numeral d.toChars d.spread := by
  obtain ⟨digits, exponent⟩ := d
  cases exponent with
  | ofNat e =>
      have hall : ∀ c ∈ Nat.toDigits 10 digits ++ List.replicate e '0', c.isDigit :=
        List.forall_mem_append.mpr ⟨isDigit_of_mem_toDigits, isDigit_of_mem_zeros⟩
      have hne : Nat.toDigits 10 digits ++ List.replicate e '0' ≠ [] :=
        List.append_ne_nil_of_left_ne_nil Nat.toDigits_ne_nil _
      have hvalue : Nat.ofDigitChars 10 (Nat.toDigits 10 digits ++ List.replicate e '0') 0 =
          digits * Nat.pow 10 e := by
        rw [Nat.ofDigitChars_append, Nat.ofDigitChars_replicate_zero,
          Nat.ofDigitChars_toDigits (by decide) (by decide), Nat.mul_comm]
        rfl
      have hnumeral := Numeral.whole hne hall
      rw [hvalue] at hnumeral
      exact hnumeral
  | negSucc e =>
      have hall : ∀ c ∈ List.replicate (e + 2 - (Nat.toDigits 10 digits).length) '0' ++
          Nat.toDigits 10 digits, c.isDigit :=
        List.forall_mem_append.mpr ⟨isDigit_of_mem_zeros, isDigit_of_mem_toDigits⟩
      have hlength : e + 1 < (List.replicate (e + 2 - (Nat.toDigits 10 digits).length) '0' ++
          Nat.toDigits 10 digits).length := by
        rw [List.length_append, List.length_replicate]
        omega
      have hnumeral := numeral_of_places hall hlength
      rw [Nat.ofDigitChars_append, Nat.ofDigitChars_replicate_zero, Nat.mul_zero,
        Nat.ofDigitChars_toDigits (by decide) (by decide)] at hnumeral
      exact hnumeral

end Decimal

/-- **A plain number is shown in digits, and is what they say.** -/
theorem exists_numeral_text {x : Float} (hx : Binary64.Plain x) :
    ∃ d, Numeral (Shortest.text x).toList d ∧ d.toFloat? = some x := by
  have hfinite : (Shortest.ofPattern (Binary64.magnitude x)).pattern < Binary64.infinity := by
    rw [Shortest.pattern_ofPattern]
    exact hx.finite
  have hnumber : ¬ Binary64.infinity < Binary64.magnitude x :=
    Nat.not_lt.mpr (Nat.le_of_lt hx.finite)
  have htext : (Shortest.text x).toList =
      (Shortest.ofPattern (Binary64.magnitude x)).toChars := by
    rw [Shortest.text, if_neg hnumber, if_neg (Nat.ne_of_lt hx.finite), hx.unsigned,
      String.toList_ofList]
    exact if_neg Bool.false_ne_true
  refine ⟨_, htext ▸ Decimal.numeral_toChars _, ?_⟩
  rw [Decimal.toFloat?_eq_some_iff, Decimal.pattern_spread hfinite, Shortest.pattern_ofPattern]
  exact ⟨hx, rfl⟩

/-- A plain number is what its own text denotes. -/
theorem literal?_text {x : Float} (hx : Binary64.Plain x) :
    Reader.literal? (Shortest.text x) = some x := by
  obtain ⟨d, hnumeral, hvalue⟩ := exists_numeral_text hx
  rw [Reader.literal?, ofChars?_of_numeral hnumeral, Option.bind_some, hvalue]

end Formula
