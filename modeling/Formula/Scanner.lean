import Formula.Cut
import Formula.Error
import Formula.Source

/-!
# From characters to lexemes

`Scanner.next` skips blanks, cuts one lexeme and keeps count of lines and columns, and `Scanner.run`
lists the lexemes to the end of the source or to the first thing wrong with it.

The character behind a lexeme is looked at while the lexeme is still at hand, so malformed bytes
right behind a lexeme are blamed on it. Met between blanks they have nothing of their own to blame,
and are put on line zero at the column of the last lexeme.

Each lexeme but the last takes a character at least (`rest_lt_of_next`), which is why a run ends.
-/

namespace Formula

/-- The place where the next lexeme is looked for. -/
structure Scanner where
  /-- The characters still to be read. -/
  rest : List Char
  /-- Whether malformed bytes follow them. -/
  broken : Bool
  /-- The position of the first of them. -/
  position : Position
  /-- The column of the lexeme before, zero if there is none. -/
  lastColumn : Nat
  deriving DecidableEq, Repr

namespace Scanner

/-- Before the first character. The end of an empty source has no line to be on. -/
def ofSource (source : Source) : Scanner where
  rest := source.chars
  broken := source.broken
  position := if source.chars.isEmpty then .nowhere else .start
  lastColumn := 0

/-- Moves past blanks. -/
def skipBlanks (s : Scanner) : Scanner :=
  { s with
    rest := s.rest.dropWhile Text.isBlank
    position := s.position.after (s.rest.takeWhile Text.isBlank) }

/-- Moves past a lexeme that starts here and leaves `rest`. -/
def past (s : Scanner) (l : Lexeme) (rest : List Char) : Scanner :=
  { s with
    rest := rest
    position := s.position.after l.text.toList
    lastColumn := s.position.column }

/-- Whether the malformed bytes come next once only `rest` is left. -/
def breaksBehind (s : Scanner) (rest : List Char) : Bool := rest.isEmpty && s.broken

/-- The lexeme that starts here, where no blank is. -/
def takeLexeme (s : Scanner) : Except SyntaxError (Located × Scanner) :=
  match s.rest with
  | [] =>
    if s.broken then .error ⟨.malformedText, ⟨0, s.lastColumn⟩⟩
    else .ok (⟨.endOfInput, s.position⟩, s)
  | c :: cs =>
    match cutAt c cs with
    | .bareExponent => .error ⟨.exponentWithoutDigits, s.position⟩
    | .stray rest =>
      if s.breaksBehind rest then .error ⟨.malformedText, s.position⟩
      else .error ⟨.strayCharacter c, s.position⟩
    | .lexeme l rest =>
      if s.breaksBehind rest then .error ⟨.malformedText, s.position⟩
      else .ok (⟨l, s.position⟩, s.past l rest)

/-- The next lexeme, and the place behind it. -/
def next (s : Scanner) : Except SyntaxError (Located × Scanner) := s.skipBlanks.takeLexeme

theorem rest_lt_of_takeLexeme {s t : Scanner} {l : Located} (h : s.takeLexeme = .ok (l, t))
    (hl : l.lexeme ≠ .endOfInput) : t.rest.length < s.rest.length := by
  unfold takeLexeme at h
  split at h
  · split at h
    · simp at h
    · simp only [Except.ok.injEq, Prod.mk.injEq] at h
      exact absurd (congrArg Located.lexeme h.1.symm) hl
  · rename_i hs
    rw [hs, List.length_cons]
    split at h
    · simp at h
    · split at h <;> simp at h
    · rename_i hcut
      split at h
      · simp at h
      · simp only [Except.ok.injEq, Prod.mk.injEq] at h
        rw [← h.2]
        exact Nat.lt_succ_of_le (length_le_of_cutAt hcut)

/-- A lexeme other than the end takes a character at least. -/
theorem rest_lt_of_next {s t : Scanner} {l : Located} (h : s.next = .ok (l, t))
    (hl : l.lexeme ≠ .endOfInput) : t.rest.length < s.rest.length :=
  Nat.lt_of_lt_of_le (rest_lt_of_takeLexeme h hl) (List.dropWhile_sublist _).length_le

end Scanner

/--
The lexemes of a source in order. They end with the end of input, or else before the first thing
that is wrong with the text.
-/
structure Scan where
  lexemes : List Located
  failure : Option SyntaxError
  deriving DecidableEq, Repr

/-- Lists the lexemes from a place on. -/
def Scanner.run (s : Scanner) : Scan :=
  match _h : s.next with
  | .error e => ⟨[], some e⟩
  | .ok (l, t) =>
    if _hl : l.lexeme = .endOfInput then ⟨[l], none⟩
    else
      let more := t.run
      ⟨l :: more.lexemes, more.failure⟩
termination_by s.rest.length
decreasing_by exact Scanner.rest_lt_of_next _h _hl

/-- The lexemes of a source. -/
def scan (source : Source) : Scan := (Scanner.ofSource source).run

end Formula
