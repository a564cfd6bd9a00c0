import Formula.Lexeme

/-!
# What stands at a place in the text

Scanning is greedy: each lexeme is the longest text of its form at the place where it starts.
`cutAt` decides what stands at a place by the first character, and by the second where a point or a
leading zero leaves it open.

A lexeme's text is the character it starts with and what it takes of the characters behind
(`exists_of_cutAt`); what it does not take is left. Nothing is lost, and a cut leaves less than
there was.
-/

namespace Formula

/-- What a place in the text holds, and the characters behind it. -/
inductive Cut where
  | lexeme (lexeme : Lexeme) (rest : List Char)
  /-- The first character begins no lexeme. -/
  | stray (rest : List Char)
  /-- A literal whose exponent mark has no digit behind it. -/
  | bareExponent
  deriving DecidableEq, Repr

namespace Cut

/-- A character of a run of digits; an underscore may stand among them. -/
def continuesDigits (c : Char) : Bool := c.isDigit || c == '_'

/-- A mark behind a leading zero that announces another base. -/
def isBaseMark (c : Char) : Bool := ['x', 'X', 'b', 'B', 'o', 'O'].contains c

/-- A character of a literal in another base, which is taken whole and denotes nothing. -/
def continuesBased (c : Char) : Bool := c.isAlphanum || c == '_' || c == '.'

/-- A mark that announces an exponent. -/
def isExponentMark (c : Char) : Bool := c == 'e' || c == 'E'

/-- A sign of an exponent. -/
def isSign (c : Char) : Bool := c == '+' || c == '-'

/--
The exponent that `cs` starts with, and what is behind it. Without a mark there is no exponent and
nothing is taken; a mark, with or without a sign, that no digit follows is no exponent at all.
-/
def exponent? (cs : List Char) : Option (List Char × List Char) :=
  match cs with
  | [] => some ([], [])
  | mark :: behind =>
    if isExponentMark mark then
      let sign := (behind.take 1).filter isSign
      let digits := behind.drop sign.length
      if digits.head?.any Char.isDigit then
        some (mark :: sign ++ digits.takeWhile continuesDigits, digits.dropWhile continuesDigits)
      else none
    else some ([], cs)

/-- A literal whose text so far is `taken`, of kind `kind` unless an exponent makes it a decimal. -/
def literal (kind : String → Lexeme) (taken cs : List Char) : Cut :=
  match exponent? cs with
  | none => bareExponent
  | some ([], rest) => .lexeme (kind (String.ofList taken)) rest
  | some (mark, rest) => .lexeme (.decimal (String.ofList (taken ++ mark))) rest

/-- A literal whose text so far ends in a point. -/
def fraction (taken cs : List Char) : Cut :=
  literal .decimal (taken ++ cs.takeWhile continuesDigits) (cs.dropWhile continuesDigits)

/-- A literal that starts with a digit. -/
def number (digit : Char) (cs : List Char) : Cut :=
  match cs with
  | mark :: behind =>
    if digit = '0' ∧ isBaseMark mark then
      .lexeme (.integer (String.ofList (digit :: mark :: behind.takeWhile continuesBased)))
        (behind.dropWhile continuesBased)
    else
      let whole := digit :: cs.takeWhile continuesDigits
      match cs.dropWhile continuesDigits with
      | '.' :: rest => fraction (whole ++ ['.']) rest
      | rest => literal .integer whole rest
  | [] => .lexeme (.integer (String.ofList [digit])) []

end Cut

/-- What stands where the character `c` is followed by `cs`. -/
def cutAt (c : Char) (cs : List Char) : Cut :=
  match Operator.ofSymbol? c with
  | some op => .lexeme (.operator op) cs
  | none =>
    if c = '(' then .lexeme .leftParen cs
    else if c = ')' then .lexeme .rightParen cs
    else if c.isDigit then Cut.number c cs
    else if c = '.' then
      if cs.head?.any Char.isDigit then Cut.fraction ['.'] cs else .stray cs
    else if Text.beginsName c then
      .lexeme (.name (String.ofList (c :: cs.takeWhile Text.continuesName)))
        (cs.dropWhile Text.continuesName)
    else .stray cs

/-! ## A cut divides the text -/

namespace Cut

theorem sign_append_drop (cs : List Char) :
    (cs.take 1).filter isSign ++ cs.drop ((cs.take 1).filter isSign).length = cs := by
  cases cs with
  | nil => rfl
  | cons c cs => by_cases h : isSign c <;> simp [h]

theorem append_of_exponent?_eq_some {cs taken rest : List Char}
    (h : exponent? cs = some (taken, rest)) : taken ++ rest = cs := by
  unfold exponent? at h
  split at h
  · simp only [Option.some.injEq, Prod.mk.injEq] at h
    rw [← h.1, ← h.2, List.append_nil]
  · rename_i mark behind
    split at h
    · dsimp only at h
      split at h
      · simp only [Option.some.injEq, Prod.mk.injEq] at h
        rw [← h.1, ← h.2, List.cons_append, List.cons_append, List.append_assoc,
          List.takeWhile_append_dropWhile, sign_append_drop]
      · simp at h
    · simp only [Option.some.injEq, Prod.mk.injEq] at h
      rw [← h.1, ← h.2, List.nil_append]

theorem exists_of_literal {kind : String → Lexeme} (hkind : ∀ text, (kind text).text = text)
    {taken cs rest : List Char} {l : Lexeme} (h : literal kind taken cs = .lexeme l rest) :
    ∃ more, l.text.toList = taken ++ more ∧ more ++ rest = cs := by
  unfold literal at h
  split at h
  · simp at h
  · rename_i rest' he
    simp only [Cut.lexeme.injEq] at h
    refine ⟨[], ?_, h.2 ▸ append_of_exponent?_eq_some he⟩
    rw [← h.1, hkind, String.toList_ofList, List.append_nil]
  · rename_i mark rest' _ he
    simp only [Cut.lexeme.injEq] at h
    refine ⟨mark, ?_, h.2 ▸ append_of_exponent?_eq_some he⟩
    rw [← h.1, Lexeme.text, String.toList_ofList]

theorem exists_of_fraction {taken cs rest : List Char} {l : Lexeme}
    (h : fraction taken cs = .lexeme l rest) :
    ∃ more, l.text.toList = taken ++ more ∧ more ++ rest = cs := by
  obtain ⟨more, htext, hrest⟩ := exists_of_literal (fun _ => rfl) h
  refine ⟨cs.takeWhile continuesDigits ++ more, ?_, ?_⟩
  · rw [htext, List.append_assoc]
  · rw [List.append_assoc, hrest, List.takeWhile_append_dropWhile]

theorem exists_of_number {digit : Char} {cs rest : List Char} {l : Lexeme}
    (h : number digit cs = .lexeme l rest) :
    ∃ more, l.text.toList = digit :: more ∧ more ++ rest = cs := by
  unfold number at h
  split at h
  · rename_i mark behind
    split at h
    · simp only [Cut.lexeme.injEq] at h
      refine ⟨mark :: behind.takeWhile continuesBased, ?_, ?_⟩
      · rw [← h.1, Lexeme.text, String.toList_ofList]
      · rw [← h.2, List.cons_append, List.takeWhile_append_dropWhile]
    · have whole := List.takeWhile_append_dropWhile (p := continuesDigits) (l := mark :: behind)
      dsimp only at h
      split at h
      · rename_i heq
        obtain ⟨more, htext, hrest⟩ := exists_of_fraction h
        refine ⟨(mark :: behind).takeWhile continuesDigits ++ '.' :: more, ?_, ?_⟩
        · rw [htext]
          simp
        · rw [List.append_assoc, List.cons_append, hrest, ← heq, whole]
      · obtain ⟨more, htext, hrest⟩ := exists_of_literal (fun _ => rfl) h
        refine ⟨(mark :: behind).takeWhile continuesDigits ++ more, htext, ?_⟩
        rw [List.append_assoc, hrest, whole]
  · simp only [Cut.lexeme.injEq] at h
    refine ⟨[], ?_, h.2.symm⟩
    rw [← h.1, Lexeme.text, String.toList_ofList]

end Cut

/-- A lexeme's text is the character it starts with and what it takes of those behind. -/
theorem exists_of_cutAt {c : Char} {cs rest : List Char} {l : Lexeme}
    (h : cutAt c cs = .lexeme l rest) :
    ∃ more, l.text.toList = c :: more ∧ more ++ rest = cs := by
  unfold cutAt at h
  split at h
  · rename_i op hop
    simp only [Cut.lexeme.injEq] at h
    refine ⟨[], ?_, h.2.symm⟩
    rw [← h.1, Lexeme.text, String.toList_singleton, Operator.symbol_of_ofSymbol?_eq_some hop]
  · split at h
    · rename_i hc
      simp only [Cut.lexeme.injEq] at h
      refine ⟨[], ?_, h.2.symm⟩
      rw [← h.1, hc]
      rfl
    split at h
    · rename_i hc
      simp only [Cut.lexeme.injEq] at h
      refine ⟨[], ?_, h.2.symm⟩
      rw [← h.1, hc]
      rfl
    split at h
    · exact Cut.exists_of_number h
    split at h
    · rename_i hc
      split at h
      · obtain ⟨more, htext, hrest⟩ := Cut.exists_of_fraction h
        exact ⟨more, hc ▸ htext, hrest⟩
      · simp at h
    split at h
    · simp only [Cut.lexeme.injEq] at h
      refine ⟨cs.takeWhile Text.continuesName, ?_, ?_⟩
      · rw [← h.1, Lexeme.text, String.toList_ofList]
      · rw [← h.2, List.takeWhile_append_dropWhile]
    · simp at h

/-- A cut leaves no more than the characters behind the first. -/
theorem length_le_of_cutAt {c : Char} {cs rest : List Char} {l : Lexeme}
    (h : cutAt c cs = .lexeme l rest) : rest.length ≤ cs.length := by
  obtain ⟨more, _, hrest⟩ := exists_of_cutAt h
  rw [← hrest, List.length_append]
  exact Nat.le_add_left ..

end Formula
