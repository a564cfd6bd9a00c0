import Formula.Grammar

/-!
# Infix sequences that are formulas

`Phrase` is the grammar once more, over tokens instead of lexemes. Nothing in it depends on its
surroundings: a negation and a subtraction are different tokens, and so are a function and a
variable. `tokensOf` carries one grammar into the other, and gives each lexeme one token.

Both facts rest on `tokensOf_append`. What a phrase's lexemes stand for is settled by the phrase
itself, unless a parenthesis comes right behind it and could turn its last name into a call.
-/

namespace Formula

/-- The tokens form a phrase in which at most so many units are open at once. -/
inductive Phrase : Category → Nat → List Token → Prop where
  | operand {n : Nat} {t : Token} : t.isOperand → Phrase .unit (n + 1) [t]
  | group {n : Nat} {ts : List Token} :
      Phrase .expression n ts → Phrase .unit (n + 1) (.leftParen :: ts ++ [.rightParen])
  | negation {n : Nat} {ts : List Token} :
      Phrase .unit n ts → Phrase .unit (n + 1) (.negate :: ts)
  | call {n : Nat} (f : Function) {ts : List Token} :
      Phrase .expression n ts →
      Phrase .unit (n + 1) (.function f :: .leftParen :: ts ++ [.rightParen])
  | single {n : Nat} {ts : List Token} : Phrase .unit n ts → Phrase .expression n ts
  | chain {n : Nat} (op : Operator) {ts rest : List Token} :
      Phrase .unit n ts → Phrase .expression n rest →
      Phrase .expression n (ts ++ .operator op :: rest)

theorem isOperand_ofName (name : String) : (Token.ofName name).isOperand = true := by
  unfold Token.ofName
  split <;> rfl

/-! ## What lexemes stand for, piece by piece -/

@[simp] theorem tokensOf_nil (fresh : Bool) : tokensOf fresh [] = [] := rfl

@[simp] theorem tokensOf_leftParen (fresh : Bool) (ls : List Lexeme) :
    tokensOf fresh (.leftParen :: ls) = .leftParen :: tokensOf true ls := rfl

@[simp] theorem tokensOf_rightParen (fresh : Bool) (ls : List Lexeme) :
    tokensOf fresh (.rightParen :: ls) = .rightParen :: tokensOf false ls := rfl

@[simp] theorem tokensOf_operator (op : Operator) (ls : List Lexeme) :
    tokensOf false (.operator op :: ls) = .operator op :: tokensOf true ls := by
  cases op <;> rfl

@[simp] theorem tokensOf_negation (ls : List Lexeme) :
    tokensOf true (.operator .subtract :: ls) = .negate :: tokensOf true ls := rfl

theorem tokensOf_integer {text : String} {value : Float}
    (h : Reader.literal? text = some value) (fresh : Bool) (ls : List Lexeme) :
    tokensOf fresh (.integer text :: ls) = .number value :: tokensOf false ls := by
  rw [Reader.literal?] at h
  simp [tokensOf, Lexeme.tokenAt, Lexeme.token, Lexeme.opensUnit, h]

theorem tokensOf_decimal {text : String} {value : Float}
    (h : Reader.literal? text = some value) (fresh : Bool) (ls : List Lexeme) :
    tokensOf fresh (.decimal text :: ls) = .number value :: tokensOf false ls := by
  rw [Reader.literal?] at h
  simp [tokensOf, Lexeme.tokenAt, Lexeme.token, Lexeme.opensUnit, h]

theorem tokensOf_call {text : String} {f : Function} (h : Function.ofName? text = some f)
    (fresh : Bool) (ls : List Lexeme) :
    tokensOf fresh (.name text :: .leftParen :: ls) =
      .function f :: .leftParen :: tokensOf true ls := by
  rw [tokensOf]
  simp [Lexeme.tokenAt, Lexeme.opensUnit, Function.filter_name_all, h]

theorem tokensOf_bare {ls : List Lexeme} (h : ls.head? ≠ some .leftParen) (fresh : Bool)
    (text : String) :
    tokensOf fresh (.name text :: ls) = Token.ofName text :: tokensOf false ls := by
  simp [tokensOf, Lexeme.tokenAt, Lexeme.opensUnit, h, bareName_eq]

/-- **A phrase settles what its lexemes stand for**, whatever but a parenthesis is behind it. -/
theorem tokensOf_append {category : Category} {n : Nat} {ls : List Lexeme}
    (h : Derives category n ls) {rest : List Lexeme} (hrest : rest.head? ≠ some .leftParen) :
    tokensOf true (ls ++ rest) = tokensOf true ls ++ tokensOf false rest := by
  induction h generalizing rest with
  | integer hliteral =>
      obtain ⟨value, hvalue⟩ := hliteral
      simp [tokensOf_integer (literal?_eq_some_iff.mpr hvalue)]
  | decimal hliteral =>
      obtain ⟨value, hvalue⟩ := hliteral
      simp [tokensOf_decimal (literal?_eq_some_iff.mpr hvalue)]
  | name text =>
      rw [List.singleton_append, tokensOf_bare hrest, tokensOf_bare (by simp)]
      rfl
  | @group n ls _ ih =>
      have hclosed : ∀ rest, tokensOf true (ls ++ .rightParen :: rest) =
          tokensOf true ls ++ .rightParen :: tokensOf false rest := fun rest => ih (by simp)
      simp [hclosed]
  | negation _ ih => simp [ih hrest]
  | @call n text ls hf _ ih =>
      obtain ⟨f, rfl⟩ := hf
      have hfun := Function.ofName?_name f
      have hclosed : ∀ rest, tokensOf true (ls ++ .rightParen :: rest) =
          tokensOf true ls ++ .rightParen :: tokensOf false rest := fun rest => ih (by simp)
      simp [tokensOf_call hfun, hclosed]
  | single _ ih => exact ih hrest
  | @chain n op ls more _ _ ih₁ ih₂ =>
      rw [List.append_assoc, List.cons_append, ih₁ (by simp), ih₁ (by simp), tokensOf_operator,
        tokensOf_operator, ih₂ hrest, List.append_assoc, List.cons_append]

/-- **The tokens of a formula are a phrase, one token for each lexeme.** -/
theorem phrase_of_derives {category : Category} {n : Nat} {ls : List Lexeme}
    (h : Derives category n ls) :
    Phrase category n (tokensOf true ls) ∧ (tokensOf true ls).length = ls.length := by
  induction h with
  | integer hliteral =>
      obtain ⟨value, hvalue⟩ := hliteral
      rw [tokensOf_integer (literal?_eq_some_iff.mpr hvalue)]
      exact ⟨.operand rfl, rfl⟩
  | decimal hliteral =>
      obtain ⟨value, hvalue⟩ := hliteral
      rw [tokensOf_decimal (literal?_eq_some_iff.mpr hvalue)]
      exact ⟨.operand rfl, rfl⟩
  | name text =>
      rw [tokensOf_bare (by simp)]
      exact ⟨.operand (isOperand_ofName text), rfl⟩
  | @group n ls h ih =>
      rw [List.cons_append, tokensOf_leftParen, tokensOf_append h (by simp), tokensOf_rightParen]
      exact ⟨.group ih.1, by simp [ih.2]⟩
  | negation _ ih =>
      rw [tokensOf_negation]
      exact ⟨.negation ih.1, by simp [ih.2]⟩
  | @call n text ls hf h ih =>
      obtain ⟨f, rfl⟩ := hf
      have hfun := Function.ofName?_name f
      rw [List.cons_append, List.cons_append, tokensOf_call hfun, tokensOf_append h (by simp),
        tokensOf_rightParen]
      exact ⟨.call f ih.1, by simp [ih.2]⟩
  | single _ ih => exact ⟨.single ih.1, ih.2⟩
  | @chain n op ls rest h _ ih₁ ih₂ =>
      rw [tokensOf_append h (by simp), tokensOf_operator]
      exact ⟨.chain op ih₁.1 ih₂.1, by simp [ih₁.2, ih₂.2]⟩

end Formula
