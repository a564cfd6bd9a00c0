import Mathlib.Data.List.TakeWhile
import Formula.Cut

/-!
# Where a lexeme stops

Cutting is greedy, so what stands behind a lexeme may change it: `1` is another lexeme in front of
`2`. Most characters cannot do that. A character that stops every run leaves the lexeme in front of
it as it would be at the end of the text (`cutAt_append_of_stops`), which is what lets a text be
put between other characters and be cut as before.

The names are those texts that are cut as one name (`isName_of_cutAt`, `cutAt_of_isName`).
-/

namespace Formula

/-! ## Runs -/

theorem takeWhile_append_cons_of_neg {α : Type} {p : α → Bool} {d : α} (hd : p d = false)
    (xs ys : List α) : (xs ++ d :: ys).takeWhile p = xs.takeWhile p := by
  induction xs with
  | nil => simp [hd]
  | cons x xs ih =>
      by_cases hx : p x
      · simp [hx, ih]
      · simp [hx]

theorem dropWhile_append_cons_of_neg {α : Type} {p : α → Bool} {d : α} (hd : p d = false)
    (xs ys : List α) : (xs ++ d :: ys).dropWhile p = xs.dropWhile p ++ d :: ys := by
  induction xs with
  | nil => simp [hd]
  | cons x xs ih =>
      by_cases hx : p x
      · simp [hx, ih]
      · simp [hx]

theorem head?_any_append_cons_of_neg {α : Type} {p : α → Bool} {d : α} (hd : p d = false)
    (xs ys : List α) : (xs ++ d :: ys).head?.any p = xs.head?.any p := by
  cases xs with
  | nil => simpa using hd
  | cons x xs => rfl

namespace Cut

theorem continuesBased_of_isBaseMark {c : Char} (h : isBaseMark c) : continuesBased c := by
  simp only [isBaseMark, List.contains_eq_mem, decide_eq_true_eq, List.mem_cons,
    List.not_mem_nil, or_false] at h
  rcases h with rfl | rfl | rfl | rfl | rfl | rfl <;> decide

/-- No lexeme goes on with the character. -/
structure Stops (d : Char) : Prop where
  /-- It ends a literal of any base, and what may stand in one. -/
  literal : continuesBased d = false
  /-- It ends a name. -/
  name : Text.continuesName d = false

theorem stops_space : Stops ' ' := ⟨by decide, by decide⟩

theorem stops_leftParen : Stops '(' := ⟨by decide, by decide⟩

theorem stops_rightParen : Stops ')' := ⟨by decide, by decide⟩

theorem stops_symbol (op : Operator) : Stops op.symbol := by
  cases op <;> exact ⟨by decide, by decide⟩

namespace Stops

variable {d : Char}

theorem continuesDigits (h : Stops d) : continuesDigits d = false := by
  have hbased := h.literal
  simp only [continuesBased, Char.isAlphanum, Bool.or_eq_false_iff] at hbased
  simp only [Cut.continuesDigits, Bool.or_eq_false_iff]
  exact ⟨hbased.1.1.2, hbased.1.2⟩

theorem not_isDigit (h : Stops d) : d.isDigit = false := by
  have hdigits := h.continuesDigits
  simp only [Cut.continuesDigits, Bool.or_eq_false_iff] at hdigits
  exact hdigits.1

theorem ne_point (h : Stops d) : d ≠ '.' := by
  rintro rfl
  exact absurd h.literal (by decide)

theorem not_isExponentMark (h : Stops d) : isExponentMark d = false := by
  rw [Bool.eq_false_iff]
  intro hmark
  simp only [isExponentMark, Bool.or_eq_true, beq_iff_eq] at hmark
  rcases hmark with rfl | rfl <;> exact absurd h.literal (by decide)

theorem not_isBaseMark (h : Stops d) : isBaseMark d = false := by
  rw [Bool.eq_false_iff]
  intro hmark
  exact absurd (continuesBased_of_isBaseMark hmark) (by simp [h.literal])

end Stops

/-! ## Exponents -/

theorem continuesDigits_of_isDigit {c : Char} (h : c.isDigit) : continuesDigits c := by
  rw [continuesDigits, h, Bool.true_or]

theorem not_isSign_of_isDigit {c : Char} (h : c.isDigit) : isSign c = false := by
  rw [Bool.eq_false_iff]
  intro hsign
  simp only [isSign, Bool.or_eq_true, beq_iff_eq] at hsign
  rcases hsign with rfl | rfl <;> exact absurd h (by decide)

/-- What an exponent takes of the characters it starts with, and what it leaves. -/
inductive Exponent : List Char → List Char → List Char → Prop where
  /-- Without a mark there is none. -/
  | absent {cs : List Char} :
      (∀ c, cs.head? = some c → isExponentMark c = false) → Exponent cs [] cs
  /-- A mark, at most one sign, and a run that starts with a digit. -/
  | present {mark : Char} {sign : List Char} {digit : Char} {cs : List Char} :
      isExponentMark mark → (sign = [] ∨ ∃ s, sign = [s] ∧ isSign s) → digit.isDigit →
      Exponent (mark :: sign ++ digit :: cs)
        (mark :: sign ++ digit :: cs.takeWhile continuesDigits) (cs.dropWhile continuesDigits)

theorem exists_cons_of_head?_any {p : Char → Bool} {cs : List Char} (h : cs.head?.any p) :
    ∃ c ds, cs = c :: ds ∧ p c := by
  cases cs with
  | nil => exact absurd h (by simp)
  | cons c ds => exact ⟨c, ds, rfl, h⟩

/-- At most one sign is taken. -/
theorem sign_cases (cs : List Char) :
    (cs.take 1).filter isSign = [] ∨ ∃ s, (cs.take 1).filter isSign = [s] ∧ isSign s := by
  cases cs with
  | nil => exact Or.inl rfl
  | cons c cs =>
      by_cases hc : isSign c
      · exact Or.inr ⟨c, by simp [hc], hc⟩
      · exact Or.inl (by simp [hc])

/-- **An exponent takes what `Exponent` says.** -/
theorem exponent?_eq_some_iff {cs taken rest : List Char} :
    exponent? cs = some (taken, rest) ↔ Exponent cs taken rest := by
  refine ⟨?_, ?_⟩
  · intro h
    unfold exponent? at h
    split at h
    · cases h
      exact .absent (by simp)
    · rename_i mark behind
      split at h
      · rename_i hmark
        dsimp only at h
        split at h
        · rename_i hdigits
          cases h
          -- what is not the sign starts with a digit, and the two are all there is
          obtain ⟨digit, cs, hcs, hdigit⟩ :
              ∃ digit cs, behind.drop ((behind.take 1).filter isSign).length = digit :: cs ∧
                digit.isDigit := exists_cons_of_head?_any hdigits
          have hsplit := sign_append_drop behind
          have hrun := continuesDigits_of_isDigit hdigit
          have hpresent := @Exponent.present _ _ _ cs hmark (sign_cases behind) hdigit
          rw [hcs] at hsplit ⊢
          rw [List.takeWhile_cons_of_pos hrun, List.dropWhile_cons_of_pos hrun]
          rwa [List.cons_append, hsplit] at hpresent
        · exact absurd h (by simp)
      · rename_i hmark
        cases h
        exact .absent (by simpa using hmark)
  · intro h
    cases h with
    | @absent cs hnone =>
        cases cs with
        | nil => rfl
        | cons c cs => simp [exponent?, hnone c rfl]
    | @present mark sign digit cs hmark hsign hdigit =>
        have hrun := continuesDigits_of_isDigit hdigit
        rcases hsign with rfl | ⟨s, rfl, hs⟩
        · simp [exponent?, hmark, not_isSign_of_isDigit hdigit, hdigit, hrun]
        · simp [exponent?, hmark, hs, hdigit, hrun]

/-! ## Literals -/

/-- A literal that starts with a digit, by what its digits stop at. -/
theorem number_eq (digit : Char) (cs : List Char) :
    number digit cs =
      if digit = '0' ∧ cs.head?.any isBaseMark then
        .lexeme (.integer (String.ofList (digit :: cs.takeWhile continuesBased)))
          (cs.dropWhile continuesBased)
      else if (cs.dropWhile continuesDigits).head?.any (· == '.') then
        fraction (digit :: cs.takeWhile continuesDigits ++ ['.'])
          (cs.dropWhile continuesDigits).tail
      else
        literal .integer (digit :: cs.takeWhile continuesDigits)
          (cs.dropWhile continuesDigits) := by
  cases cs with
  | nil =>
      simp
      rfl
  | cons mark behind =>
      unfold number
      by_cases hbase : digit = '0' ∧ isBaseMark mark
      · have hrun := continuesBased_of_isBaseMark hbase.2
        simp [hbase, hrun]
      · dsimp only
        rw [if_neg hbase, if_neg (by simpa using hbase)]
        split
        · rename_i heq
          simp [heq]
        · rename_i hpoint
          rw [if_neg]
          intro hany
          obtain ⟨c, rest, hrest, hc⟩ := exists_cons_of_head?_any hany
          exact hpoint rest (by rw [hrest, beq_iff_eq.mp hc])

/-! ## Cutting in front of a stop -/

section

variable {d : Char} (hd : Stops d) (more : List Char)
include hd

theorem exponent?_append_of_stops {cs taken rest : List Char}
    (h : exponent? cs = some (taken, rest)) :
    exponent? (cs ++ d :: more) = some (taken, rest ++ d :: more) := by
  rw [exponent?_eq_some_iff] at h ⊢
  cases h with
  | @absent cs hnone =>
      apply Exponent.absent
      cases cs with
      | nil => simp [hd.not_isExponentMark]
      | cons c cs => simpa using hnone
  | @present mark sign digit cs hmark hsign hdigit =>
      rw [← dropWhile_append_cons_of_neg hd.continuesDigits,
        ← takeWhile_append_cons_of_neg hd.continuesDigits cs more]
      simpa using Exponent.present hmark hsign hdigit

theorem literal_append_of_stops {kind : String → Lexeme} {taken cs rest : List Char} {l : Lexeme}
    (h : literal kind taken cs = .lexeme l rest) :
    literal kind taken (cs ++ d :: more) = .lexeme l (rest ++ d :: more) := by
  cases he : exponent? cs with
  | none => exact absurd h (by simp [literal, he])
  | some found =>
      obtain ⟨mark, behind⟩ := found
      rw [literal, he] at h
      rw [literal, exponent?_append_of_stops hd more he]
      cases mark with
      | nil =>
          cases h
          rfl
      | cons =>
          cases h
          rfl

theorem fraction_append_of_stops {taken cs rest : List Char} {l : Lexeme}
    (h : fraction taken cs = .lexeme l rest) :
    fraction taken (cs ++ d :: more) = .lexeme l (rest ++ d :: more) := by
  rw [fraction, takeWhile_append_cons_of_neg hd.continuesDigits,
    dropWhile_append_cons_of_neg hd.continuesDigits]
  exact literal_append_of_stops hd more h

theorem number_append_of_stops {digit : Char} {cs rest : List Char} {l : Lexeme}
    (h : number digit cs = .lexeme l rest) :
    number digit (cs ++ d :: more) = .lexeme l (rest ++ d :: more) := by
  have hpoint : (· == '.') d = false := by simpa using hd.ne_point
  rw [number_eq] at h ⊢
  rw [head?_any_append_cons_of_neg hd.not_isBaseMark, takeWhile_append_cons_of_neg hd.literal,
    dropWhile_append_cons_of_neg hd.literal, takeWhile_append_cons_of_neg hd.continuesDigits,
    dropWhile_append_cons_of_neg hd.continuesDigits,
    head?_any_append_cons_of_neg (p := (· == '.')) hpoint]
  split at h
  · rename_i hbase
    rw [if_pos hbase]
    cases h
    rfl
  · rename_i hbase
    rw [if_neg hbase]
    split at h
    · rename_i hfraction
      obtain ⟨c, behind, hcs, _⟩ := exists_cons_of_head?_any hfraction
      rw [if_pos hfraction, hcs]
      rw [hcs] at h
      exact fraction_append_of_stops hd more h
    · rename_i hwhole
      rw [if_neg hwhole]
      exact literal_append_of_stops hd more h

end

/-- What a literal's digits are cut as. -/
def IsLiteral (l : Lexeme) : Prop := ∃ text, l = .integer text ∨ l = .decimal text

theorem isLiteral_of_literal {kind : String → Lexeme} (hkind : ∀ text, IsLiteral (kind text))
    {taken cs rest : List Char} {l : Lexeme} (h : literal kind taken cs = .lexeme l rest) :
    IsLiteral l := by
  unfold literal at h
  split at h
  · exact absurd h (by simp)
  · cases h
    exact hkind _
  · cases h
    exact ⟨_, Or.inr rfl⟩

theorem isLiteral_of_fraction {taken cs rest : List Char} {l : Lexeme}
    (h : fraction taken cs = .lexeme l rest) : IsLiteral l :=
  isLiteral_of_literal (fun text => ⟨text, Or.inr rfl⟩) h

theorem isLiteral_of_number {digit : Char} {cs rest : List Char} {l : Lexeme}
    (h : number digit cs = .lexeme l rest) : IsLiteral l := by
  rw [number_eq] at h
  split at h
  · cases h
    exact ⟨_, Or.inl rfl⟩
  · split at h
    · exact isLiteral_of_fraction h
    · exact isLiteral_of_literal (fun text => ⟨text, Or.inl rfl⟩) h

end Cut

/-! ## What is cut at a place -/

/-- The characters that are a lexeme by themselves. -/
def symbols : List Char := ['+', '-', '*', '/', '^', '(', ')']

/-- Where no symbol stands, the first character tells a literal from a name. -/
theorem cutAt_of_not_mem_symbols {c : Char} (h : c ∉ symbols) (cs : List Char) :
    cutAt c cs =
      if c.isDigit then Cut.number c cs
      else if c = '.' then
        if cs.head?.any Char.isDigit then Cut.fraction ['.'] cs else .stray cs
      else if Text.beginsName c then
        .lexeme (.name (String.ofList (c :: cs.takeWhile Text.continuesName)))
          (cs.dropWhile Text.continuesName)
      else .stray cs := by
  have hnone : Operator.ofSymbol? c = none := by
    cases hop : Operator.ofSymbol? c with
    | none => rfl
    | some op =>
        rw [← Operator.symbol_of_ofSymbol?_eq_some hop] at h
        cases op <;> exact absurd h (by decide)
  have hleft : c ≠ '(' := by
    rintro rfl
    exact h (by decide)
  have hright : c ≠ ')' := by
    rintro rfl
    exact h (by decide)
  rw [cutAt, hnone]
  dsimp only
  rw [if_neg hleft, if_neg hright]

theorem not_mem_symbols_of_isDigit {c : Char} (h : c.isDigit) : c ∉ symbols := by
  intro hc
  have hnone : symbols.all (!Char.isDigit ·) = true := by decide
  have hnot := List.all_eq_true.mp hnone c hc
  simp [h] at hnot

theorem not_mem_symbols_of_beginsName {c : Char} (h : Text.beginsName c) : c ∉ symbols := by
  intro hc
  have hnone : symbols.all (!Text.beginsName ·) = true := by decide
  have hnot := List.all_eq_true.mp hnone c hc
  simp [h] at hnot

/-- No digit begins a name. -/
theorem not_isDigit_of_beginsName {c : Char} (h : Text.beginsName c) : c.isDigit = false := by
  rw [Bool.eq_false_iff]
  intro hdigit
  simp only [Char.isDigit, Bool.and_eq_true, decide_eq_true_eq, ge_iff_le,
    UInt32.le_iff_toNat_le] at hdigit
  have hlow : 48 ≤ c.toNat := hdigit.1
  have hhigh : c.toNat ≤ 57 := hdigit.2
  -- the digits are ten characters in a row
  have hnone : (List.range 10).all (fun n => !Text.beginsName (Char.ofNat (48 + n))) = true := by
    decide
  have hnot := List.all_eq_true.mp hnone (c.toNat - 48) (List.mem_range.mpr (by omega))
  rw [Nat.add_sub_cancel' hlow, Char.ofNat_toNat, h] at hnot
  exact absurd hnot (by decide)

/-- What each kind of lexeme starts with and takes, and what it leaves. -/
inductive Cuts : Char → List Char → Lexeme → List Char → Prop where
  | operator (op : Operator) (cs : List Char) : Cuts op.symbol cs (.operator op) cs
  | leftParen (cs : List Char) : Cuts '(' cs .leftParen cs
  | rightParen (cs : List Char) : Cuts ')' cs .rightParen cs
  | number {digit : Char} {cs rest : List Char} {l : Lexeme} :
      digit.isDigit → Cut.number digit cs = .lexeme l rest → Cuts digit cs l rest
  | fraction {cs rest : List Char} {l : Lexeme} :
      cs.head?.any Char.isDigit → Cut.fraction ['.'] cs = .lexeme l rest → Cuts '.' cs l rest
  | name {c : Char} (cs : List Char) : Text.beginsName c →
      Cuts c cs (.name (String.ofList (c :: cs.takeWhile Text.continuesName)))
        (cs.dropWhile Text.continuesName)

/-- **A lexeme is cut as `Cuts` says.** -/
theorem cutAt_eq_lexeme_iff {c : Char} {cs rest : List Char} {l : Lexeme} :
    cutAt c cs = .lexeme l rest ↔ Cuts c cs l rest := by
  refine ⟨?_, ?_⟩
  · intro h
    unfold cutAt at h
    split at h
    · rename_i op hop
      cases h
      rw [← Operator.symbol_of_ofSymbol?_eq_some hop]
      exact .operator op cs
    · split at h
      · rename_i hc
        cases h
        exact hc ▸ .leftParen cs
      split at h
      · rename_i hc
        cases h
        exact hc ▸ .rightParen cs
      split at h
      · rename_i hdigit
        exact .number hdigit h
      split at h
      · rename_i hc
        subst hc
        split at h
        · rename_i hdigit
          exact .fraction hdigit h
        · exact absurd h (by simp)
      split at h
      · rename_i hname
        cases h
        exact .name cs hname
      · exact absurd h (by simp)
  · intro h
    cases h with
    | operator op => simp [cutAt, Operator.ofSymbol?_symbol]
    | leftParen | rightParen => rfl
    | number hdigit hcut =>
        rw [cutAt_of_not_mem_symbols (not_mem_symbols_of_isDigit hdigit), if_pos hdigit, hcut]
    | fraction hdigit hcut =>
        rw [cutAt_of_not_mem_symbols (by decide), if_neg (by decide), if_pos rfl, if_pos hdigit,
          hcut]
    | name _ hname =>
        have hdigit := not_isDigit_of_beginsName hname
        have hpoint : c ≠ '.' := by
          rintro rfl
          exact absurd hname (by decide)
        rw [cutAt_of_not_mem_symbols (not_mem_symbols_of_beginsName hname),
          if_neg (by simp [hdigit]), if_neg hpoint, if_pos hname]

/-- **In front of a stop a lexeme is what it would be at the end of the text.** -/
theorem cutAt_append_of_stops {d : Char} (hd : Cut.Stops d) (more : List Char) {c : Char}
    {cs rest : List Char} {l : Lexeme} (h : cutAt c cs = .lexeme l rest) :
    cutAt c (cs ++ d :: more) = .lexeme l (rest ++ d :: more) := by
  rw [cutAt_eq_lexeme_iff] at h ⊢
  cases h with
  | operator op => exact .operator op _
  | leftParen => exact .leftParen _
  | rightParen => exact .rightParen _
  | number hdigit hcut => exact .number hdigit (Cut.number_append_of_stops hd more hcut)
  | fraction hdigit hcut =>
      refine .fraction ?_ (Cut.fraction_append_of_stops hd more hcut)
      rw [head?_any_append_cons_of_neg hd.not_isDigit]
      exact hdigit
  | name _ hname =>
      rw [← takeWhile_append_cons_of_neg hd.name cs more, ← dropWhile_append_cons_of_neg hd.name]
      exact .name _ hname

/-- A cut that finds no lexeme leaves what is behind the first character. -/
theorem eq_of_cutAt_eq_stray {c : Char} {cs rest : List Char} (h : cutAt c cs = .stray rest) :
    rest = cs := by
  have hliteral : ∀ (kind : String → Lexeme) (taken ds : List Char),
      Cut.literal kind taken ds ≠ .stray rest := by
    intro kind taken ds
    unfold Cut.literal
    split <;> simp
  have hfraction : ∀ taken ds : List Char, Cut.fraction taken ds ≠ .stray rest :=
    fun taken ds => hliteral _ _ _
  have hnumber : Cut.number c cs ≠ .stray rest := by
    unfold Cut.number
    split
    · split
      · simp
      · dsimp only
        split
        · exact hfraction _ _
        · exact hliteral _ _ _
    · simp
  unfold cutAt at h
  split at h
  · exact absurd h (by simp)
  split at h
  · exact absurd h (by simp)
  split at h
  · exact absurd h (by simp)
  split at h
  · exact absurd h hnumber
  split at h
  · split at h
    · exact absurd h (hfraction _ _)
    · exact (Cut.stray.inj h).symm
  split at h
  · exact absurd h (by simp)
  · exact (Cut.stray.inj h).symm

/-! ## Names -/

/-- The text is one name. -/
def IsName (text : String) : Prop :=
  ∃ c cs, text.toList = c :: cs ∧ Text.beginsName c ∧ ∀ d ∈ cs, Text.continuesName d

theorem cutAt_of_isName {text : String} {c : Char} {cs : List Char} (htext : text.toList = c :: cs)
    (hc : Text.beginsName c) (hcs : ∀ d ∈ cs, Text.continuesName d) :
    cutAt c cs = .lexeme (.name text) [] := by
  have htake : cs.takeWhile Text.continuesName = cs := List.takeWhile_eq_self_iff.mpr hcs
  have hdrop : cs.dropWhile Text.continuesName = [] := List.dropWhile_eq_nil_iff.mpr hcs
  have hcuts := Cuts.name cs hc
  rw [htake, hdrop, ← htext, String.ofList_toList] at hcuts
  exact cutAt_eq_lexeme_iff.mpr hcuts

/-- **What is cut as a name is one.** -/
theorem isName_of_cutAt {c : Char} {cs rest : List Char} {text : String}
    (h : cutAt c cs = .lexeme (.name text) rest) : IsName text := by
  rw [cutAt_eq_lexeme_iff] at h
  generalize hl : Lexeme.name text = l at h
  cases h with
  | operator | leftParen | rightParen => exact absurd hl (by simp)
  | number _ hcut =>
      obtain ⟨digits, rfl | rfl⟩ := Cut.isLiteral_of_number hcut <;> exact absurd hl (by simp)
  | fraction _ hcut =>
      obtain ⟨digits, rfl | rfl⟩ := Cut.isLiteral_of_fraction hcut <;> exact absurd hl (by simp)
  | name _ hc =>
      cases hl
      exact ⟨c, _, String.toList_ofList, hc, fun d hd => List.mem_takeWhile_imp hd⟩

end Formula
