import Formula.Proofs.Equality
import Formula.Proofs.Evaluation
import Formula.Proofs.Literal
import Formula.Proofs.Variables

/-!
# What a compiled formula is shown as tells it

A program is shown as words with one space between them, one word for each token. No word is empty
and none holds a space, so the words are found again by splitting the text (`words_showTokens`).

A word tells its token. The words of signs and functions are fixed, and no other token is shown as
one of them: a number starts with a digit, a constant has a name of its own, and a variable is never
named as a constant is. It may be named as a function is, or `neg`; such names aside, `ofWord` finds
the token again (`ofWord_text`), and with the declared names its slot.
-/

namespace Formula

/-! ## Words -/

/-- A name is no literal: it starts with neither a digit nor a point. -/
theorem literal?_of_isName {text : String} (h : IsName text) : Reader.literal? text = none := by
  obtain ⟨c, cs, htext, hc, _⟩ := h
  have hdigit : c.isDigit = false := not_isDigit_of_beginsName hc
  have hpoint : (c :: cs).head? ≠ some '.' := by
    rintro ⟨⟩
    exact absurd hc (by decide)
  have hfraction := Literal.fraction_of_ne_point hpoint
  simp [Reader.literal?, htext, Decimal.ofChars?, hdigit, hfraction]

theorem isDigit_or_point_of_numeral {cs : List Char} {d : Decimal} (h : Numeral cs d) :
    ∀ c ∈ cs, c.isDigit ∨ c = '.' := by
  intro c hc
  cases h with
  | whole _ hdigits => exact Or.inl (hdigits c hc)
  | point _ hfront hback =>
      rcases List.mem_append.mp hc with hc | hc
      · exact Or.inl (hfront c hc)
      · rcases List.mem_cons.mp hc with rfl | hc
        · exact Or.inr rfl
        · exact Or.inl (hback c hc)

/-- The text is one word. -/
def IsWord (text : String) : Prop := text ≠ "" ∧ ' ' ∉ text.toList

theorem isWord_of_isName {text : String} (h : IsName text) : IsWord text := by
  obtain ⟨c, cs, htext, hc, hcs⟩ := h
  refine ⟨?_, ?_⟩
  · rintro rfl
    exact absurd htext (by simp)
  · rw [htext]
    intro hmem
    rcases List.mem_cons.mp hmem with rfl | hmem
    · exact absurd hc (by decide)
    · exact absurd (hcs ' ' hmem) (by decide)

theorem isWord_of_numeral {text : String} {d : Decimal} (h : Numeral text.toList d) :
    IsWord text := by
  refine ⟨?_, ?_⟩
  · rintro rfl
    exact absurd rfl h.ne_nil
  · intro hmem
    exact absurd (isDigit_or_point_of_numeral h ' ' hmem) (by decide)

/-- **Whatever can be read is shown as one word.** -/
theorem Token.isWord_text {t : Token} (h : t.Readable) : IsWord t.text := by
  cases t with
  | constant c => exact isWord_of_isName c.isName_name
  | function f => exact isWord_of_isName f.isName_name
  | leftParen | rightParen | negate => exact ⟨by decide, by decide⟩
  | operator op => cases op <;> exact ⟨by decide, by decide⟩
  | number value =>
      obtain ⟨d, hnumeral, _⟩ := exists_numeral_text h
      exact isWord_of_numeral hnumeral
  | var name slot => exact isWord_of_isName h.2.1

/-- The words of a text: what stands between its spaces. -/
def words (text : String) : List String := (text.split ' ').toList.map (·.copy)

/-- **Tokens are found again as the words of their text.** -/
theorem words_showTokens {tokens : List Token} (hne : tokens ≠ [])
    (h : ∀ t ∈ tokens, IsWord t.text) : words (showTokens tokens) = tokens.map Token.text := by
  have hspaces : ∀ word ∈ tokens.map Token.text, ' ' ∉ word.toList := by
    intro word hword
    obtain ⟨t, ht, rfl⟩ := List.mem_map.mp hword
    exact (h t ht).2
  have hsplit := String.toList_split_intercalate hspaces
  rw [if_neg (by simpa using hne)] at hsplit
  exact hsplit

/-! ## From a word to its token -/

namespace Token

/-- The tokens that are no operands. Each is shown by one word, whatever the formula. -/
def fixed : List Token :=
  .leftParen :: .rightParen :: .negate ::
    (Operator.all.map Token.operator ++ Function.all.map Token.function)

/-- The token that is shown as the word: a number, or one with a word of its own, or else what the
word stands for as a name. -/
def ofWord (declared : List String) (word : String) : Token :=
  match Reader.literal? word, fixed.find? (·.text == word) with
  | some value, _ => .number value
  | none, some token => token
  | none, none => (ofName word).bind declared

/-- The name is that of a variable only. -/
def Unreserved (name : String) : Prop := name ≠ "neg" ∧ Function.ofName? name = none

theorem mem_fixed {t : Token} (h : t.isOperand = false) : t ∈ fixed := by
  cases t with
  | leftParen | rightParen | negate => decide
  | operator op => cases op <;> decide
  | function f => cases f <;> decide
  | constant | number | var => exact absurd h (by simp [isOperand])

theorem not_isOperand_of_mem_fixed {t : Token} (h : t ∈ fixed) : t.isOperand = false := by
  have hnone : fixed.all (!·.isOperand) = true := by decide
  simpa using List.all_eq_true.mp hnone t h

/-- A token with a word of its own is found by it, for no other has the word and it is no number. -/
theorem ofWord_of_mem_fixed (declared : List String) {t : Token} (h : t ∈ fixed) :
    ofWord declared t.text = t := by
  have hliteral : fixed.all (fun t => Reader.literal? t.text = none) = true := by decide +kernel
  have hfind : fixed.all (fun t => fixed.find? (·.text == t.text) = some t) = true := by decide
  rw [ofWord, of_decide_eq_true (List.all_eq_true.mp hliteral t h),
    of_decide_eq_true (List.all_eq_true.mp hfind t h)]

/-- The only names among the fixed words are those of functions, and that of the sign. -/
theorem not_unreserved_of_mem_fixed {t : Token} (h : t ∈ fixed) (hname : IsName t.text) :
    ¬Unreserved t.text := by
  intro hunreserved
  have hoperand := not_isOperand_of_mem_fixed h
  cases t with
  | negate => exact hunreserved.1 rfl
  | function f =>
      have hnone : Function.ofName? f.name = none := hunreserved.2
      rw [Function.ofName?_name] at hnone
      exact absurd hnone (by simp)
  | leftParen | rightParen =>
      obtain ⟨c, cs, htext, hc, _⟩ := hname
      cases htext
      exact absurd hc (by decide)
  | operator op =>
      obtain ⟨c, cs, htext, hc, _⟩ := hname
      obtain ⟨rfl, _⟩ := List.cons.inj ((String.toList_singleton op.symbol).symm.trans htext)
      cases op <;> exact absurd hc (by decide)
  | constant | number | var => exact absurd hoperand (by simp [isOperand])

/-- A name that is only a variable's or a constant's stands for itself. -/
theorem ofWord_of_isName (declared : List String) {name : String} (h : IsName name)
    (hname : Unreserved name) : ofWord declared name = (ofName name).bind declared := by
  have hfind : fixed.find? (·.text == name) = none := by
    rw [List.find?_eq_none]
    intro t ht heq
    obtain rfl := beq_iff_eq.mp heq
    exact not_unreserved_of_mem_fixed ht h hname
  rw [ofWord, literal?_of_isName h, hfind]

/-- **A word tells its token**, unless it is a variable with the name of something else. -/
theorem ofWord_text (declared : List String) {t : Token} (h : t.Readable)
    (hnames : ∀ name, t.varName? = some name → Unreserved name) :
    ofWord declared t.text = t.bind declared := by
  cases t with
  | number value => rw [text, ofWord, literal?_text h]; rfl
  | constant c =>
      have hunreserved : Unreserved c.name := by cases c <;> exact ⟨by decide, by decide⟩
      rw [text, ofWord_of_isName declared c.isName_name hunreserved, ofName_name]
  | var name slot =>
      obtain ⟨rfl, hname, hfree⟩ := h
      rw [text, ofWord_of_isName declared hname (hnames name rfl), ofName_of_free hfree]
  | leftParen | rightParen | negate | operator | function =>
      exact ofWord_of_mem_fixed declared (mem_fixed rfl)

end Token

/-! ## Compiled formulas -/

variable {formula other : List UInt8} {declared : List String} {e f : Compiled}

theorem Tree.listing_ne_nil (declared : List String) (t : Tree) : t.listing declared ≠ [] := by
  cases t <;> simp [listing]

theorem Token.text_bind (declared : List String) (t : Token) : (t.bind declared).text = t.text := by
  cases t <;> rfl

theorem isWord_of_mem_program (h : compile formula declared = .ok e) :
    ∀ token ∈ e.program, IsWord token.text := by
  intro token htoken
  obtain ⟨t, ht, rfl⟩ := exists_readable_of_mem_program h htoken
  rw [Token.text_bind]
  exact t.isWord_text ht

/-- **The words of a compiled formula are those of its tokens.** -/
theorem words_text (h : compile formula declared = .ok e) :
    words e.text = e.program.map Token.text := by
  obtain ⟨_, t, _, _, _, hprogram⟩ := exists_tree_of_compile h
  exact words_showTokens (hprogram ▸ t.listing_ne_nil declared) (isWord_of_mem_program h)

/-- **A program is read back from the words it is shown as.** -/
theorem program_eq_of_words (h : compile formula declared = .ok e)
    (hnames : ∀ name ∈ e.names, Token.Unreserved name) :
    e.program = (words e.text).map (Token.ofWord declared) := by
  obtain ⟨_, _, _, henames, _⟩ := compile_eq_ok_iff.mp h
  rw [words_text h, List.map_map]
  refine (List.map_id _).symm.trans (List.map_congr_left ?_)
  intro token htoken
  obtain ⟨t, ht, rfl⟩ := exists_readable_of_mem_program h htoken
  have hunreserved : ∀ name, t.varName? = some name → Token.Unreserved name := by
    intro name hname
    apply hnames
    rw [henames, Program.names, mem_distinctNames]
    exact List.mem_filterMap.mpr ⟨_, htoken, (varName?_bind declared t).trans hname⟩
  rw [Function.comp_apply, Token.text_bind, Token.ofWord_text declared ht hunreserved]
  rfl

/--
**What a compiled formula is shown as tells it.** Its text splits at the spaces into one word for
each token, in order, and no word is empty. Of two formulas compiled against the same names, neither
of which reads a variable named as a function is or `neg`, those that are shown alike are the same.
-/
theorem text_tells_compiled :
    (∀ formula declared e, compile formula declared = .ok e →
      words e.text = e.program.map Token.text ∧ ∀ token ∈ e.program, token.text ≠ "") ∧
    ∀ formula other declared e f, compile formula declared = .ok e →
      compile other declared = .ok f →
      (∀ name ∈ e.names ++ f.names, name ≠ "neg" ∧ Function.ofName? name = none) →
      e.text = f.text → e = f ∧ e.same f = true := by
  refine ⟨?_, ?_⟩
  · intro formula declared e h
    exact ⟨words_text h, fun token htoken => (isWord_of_mem_program h token htoken).1⟩
  · intro formula other declared e f he hf hnames htext
    obtain ⟨henames, hfnames⟩ := List.forall_mem_append.mp hnames
    have hprogram : e.program = f.program := by
      rw [program_eq_of_words he henames, program_eq_of_words hf hfnames, htext]
    have hestems : e.Stems := ⟨_, _, he⟩
    have hfstems : f.Stems := ⟨_, _, hf⟩
    obtain rfl := hestems.eq_of_program hfstems hprogram
    exact ⟨rfl, (Compiled.same_iff_eq hestems hestems).mpr rfl⟩

/-- `-x+PI` and `(-x)+(PI)`. -/
theorem text_of_negated_sum :
    ∃ e f, compile [45, 120, 43, 80, 73] ["x"] = .ok e ∧
      compile [40, 45, 120, 41, 43, 40, 80, 73, 41] ["x"] = .ok f ∧
      words e.text = e.program.map Token.text ∧ e.text = f.text ∧ e = f ∧ e.same f = true := by
  have he : compile [45, 120, 43, 80, 73] ["x"] =
      .ok ⟨[.var "x" (some 0), .negate, .constant .pi, .operator .add], ["x"], 2⟩ := by
    decide +kernel
  have hf : compile [40, 45, 120, 41, 43, 40, 80, 73, 41] ["x"] =
      .ok ⟨[.var "x" (some 0), .negate, .constant .pi, .operator .add], ["x"], 2⟩ := by
    decide +kernel
  obtain ⟨hwords, htells⟩ := text_tells_compiled
  exact ⟨_, _, he, hf, (hwords _ _ _ he).1, rfl, htells _ _ _ _ _ he hf (by decide) rfl⟩

/-- With a variable of the name, `-a + neg` and `a + -neg` are both shown as `a neg neg +`. -/
example : ∃ e f, compile [45, 97, 43, 110, 101, 103] ["a", "neg"] = .ok e ∧
    compile [97, 43, 45, 110, 101, 103] ["a", "neg"] = .ok f ∧ e.text = f.text ∧ e ≠ f := by
  refine ⟨⟨[.var "a" (some 0), .negate, .var "neg" (some 1), .operator .add], ["a", "neg"], 2⟩,
    ⟨[.var "a" (some 0), .var "neg" (some 1), .negate, .operator .add], ["a", "neg"], 2⟩, ?_⟩
  decide +kernel

end Formula
