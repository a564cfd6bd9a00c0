import Formula.Proofs.Encoding
import Formula.Proofs.Lexing

/-!
# Greedy scanning

What stands at a place in the text is told here by forms of text alone: which texts are numbers,
which characters a name may go on with, and that the longest text of its form is taken. `LexemeAt`
and `FailsAt` say so for one place, with a constructor for each kind of character that may stand
there, and `Tokenizes` for a whole text. No scanner occurs in them.

A scanner never goes back. That it finds the longest number all the same rests on two facts: a
mantissa that goes on after a point cannot have stopped before it, and no mantissa holds the mark of
an exponent, so an exponent can only stand behind the longest one.
-/

namespace Formula

/-! ## Longest texts -/

/-- Of the texts of the form that `text ++ rest` starts with, `text` is the longest. -/
structure Longest (form : List Char → Prop) (text rest : List Char) : Prop where
  holds : form text
  le : ∀ other more, other ++ more = text ++ rest → form other → other.length ≤ text.length

/-- There is one longest text. -/
theorem Longest.unique {form : List Char → Prop} {text rest other more : List Char}
    (h : Longest form text rest) (h' : Longest form other more)
    (hsame : other ++ more = text ++ rest) : other = text ∧ more = rest := by
  have hlength : other.length = text.length :=
    Nat.le_antisymm (h.le other more hsame h'.holds) (h'.le text rest hsame.symm h.holds)
  exact List.append_inj hsame hlength

/-- All the characters belong to the class. -/
def Run (p : Char → Bool) (cs : List Char) : Prop := ∀ c ∈ cs, p c

/-- A run that starts the text is no longer than what is taken. -/
theorem Run.length_le {p : Char → Bool} {run more cs : List Char} (h : Run p run)
    (hsame : run ++ more = cs) : run.length ≤ (cs.takeWhile p).length := by
  rw [← hsame, List.takeWhile_append_of_pos h, List.length_append]
  exact Nat.le_add_right ..

/-- A run ends where the class does. -/
theorem Run.takeWhile_eq {p : Char → Bool} {run rest cs : List Char} (h : Run p run)
    (hstop : rest.head?.any p = false) (hsame : run ++ rest = cs) :
    cs.takeWhile p = run ∧ cs.dropWhile p = rest := by
  rw [← hsame, List.takeWhile_append_of_pos h, List.dropWhile_append_of_pos h]
  cases rest with
  | nil => simp
  | cons c rest =>
      have hc : p c = false := hstop
      simp [hc]

/-- **The longest run is the one that is taken.** -/
theorem longest_takeWhile (p : Char → Bool) (cs : List Char) :
    Longest (Run p) (cs.takeWhile p) (cs.dropWhile p) where
  holds := fun _ hc => List.mem_takeWhile_imp hc
  le := by
    intro other more hsame hrun
    rw [List.takeWhile_append_dropWhile] at hsame
    exact hrun.length_le hsame

/-! ## The forms of numbers -/

namespace Form

/-- A digit, and then digits and underscores. -/
inductive Digits : List Char → Prop where
  | intro {digit : Char} {more : List Char} :
      digit.isDigit → Run Cut.continuesDigits more → Digits (digit :: more)

/-- A number without an exponent, and whether there is a point in it. -/
inductive Mantissa : Bool → List Char → Prop where
  | whole {ds : List Char} : Digits ds → Mantissa false ds
  | point {ds rs : List Char} :
      Digits ds → Run Cut.continuesDigits rs → Mantissa true (ds ++ '.' :: rs)
  | fraction {rs : List Char} : Digits rs → Mantissa true ('.' :: rs)

/-- A mark, at most one sign, and digits. -/
inductive Exponent : List Char → Prop where
  | unsigned {mark : Char} {ds : List Char} :
      Cut.isExponentMark mark → Digits ds → Exponent (mark :: ds)
  | signed {mark sign : Char} {ds : List Char} :
      Cut.isExponentMark mark → Cut.isSign sign → Digits ds → Exponent (mark :: sign :: ds)

/-- A number, and whether there is a point or an exponent in it. -/
inductive Number : Bool → List Char → Prop where
  | plain {decimal : Bool} {m : List Char} : Mantissa decimal m → Number decimal m
  | scaled {point : Bool} {m x : List Char} : Mantissa point m → Exponent x → Number true (m ++ x)

/-- Some mantissa, with or without a point. -/
def IsMantissa (text : List Char) : Prop := ∃ point, Mantissa point text

/-- Some number, with or without a point or an exponent. -/
def IsNumber (text : List Char) : Prop := ∃ decimal, Number decimal text

/-- A mark of an exponent, at most one sign, and then no digit. -/
inductive BareExponent : List Char → Prop where
  | unsigned {mark : Char} {rest : List Char} : Cut.isExponentMark mark →
      (∀ c, rest.head? = some c → Cut.isSign c = false ∧ c.isDigit = false) →
      BareExponent (mark :: rest)
  | signed {mark sign : Char} {rest : List Char} : Cut.isExponentMark mark → Cut.isSign sign →
      (∀ c, rest.head? = some c → c.isDigit = false) → BareExponent (mark :: sign :: rest)

/-- A number starts here: a digit does that announces no other base, or a point before a digit. -/
inductive StartsNumber : List Char → Prop where
  | digit {c : Char} {cs : List Char} :
      c.isDigit → ¬(c = '0' ∧ cs.head?.any Cut.isBaseMark) → StartsNumber (c :: cs)
  | point {cs : List Char} : cs.head?.any Char.isDigit → StartsNumber ('.' :: cs)

/-- The longest mantissa here is followed by an exponent without digits. -/
def LacksExponent (cs : List Char) : Prop :=
  ∃ m rest, cs = m ++ rest ∧ Longest IsMantissa m rest ∧ BareExponent rest

end Form

/-- The lexeme of a number, by whether there is a point or an exponent in it. -/
def Lexeme.ofNumber : Bool → String → Lexeme
  | true => .decimal
  | false => .integer

/-! ## The lexical grammar -/

/-- The lexeme that stands at a place where these characters are left, and those behind it. -/
inductive LexemeAt : List Char → Lexeme → List Char → Prop where
  | name {c : Char} {cs text rest : List Char} : Text.beginsName c → c :: cs = text ++ rest →
      Longest (Run Text.continuesName) text rest →
      LexemeAt (c :: cs) (.name (String.ofList text)) rest
  | based {mark : Char} {cs text rest : List Char} : Cut.isBaseMark mark →
      mark :: cs = text ++ rest → Longest (Run Cut.continuesBased) text rest →
      LexemeAt ('0' :: mark :: cs) (.integer (String.ofList ('0' :: text))) rest
  | number {cs text rest : List Char} {decimal : Bool} : Form.StartsNumber cs →
      ¬Form.LacksExponent cs → cs = text ++ rest → Form.Number decimal text →
      Longest Form.IsNumber text rest →
      LexemeAt cs (.ofNumber decimal (String.ofList text)) rest
  | operator (op : Operator) (cs : List Char) : LexemeAt (op.symbol :: cs) (.operator op) cs
  | leftParen (cs : List Char) : LexemeAt ('(' :: cs) .leftParen cs
  | rightParen (cs : List Char) : LexemeAt (')' :: cs) .rightParen cs

/-- What is wrong at a place where these characters are left and no lexeme stands. -/
inductive FailsAt : List Char → Cause → Prop where
  | exponent {cs : List Char} : Form.StartsNumber cs → Form.LacksExponent cs →
      FailsAt cs .exponentWithoutDigits
  | stray {c : Char} {cs : List Char} : Text.beginsName c = false → c.isDigit = false →
      c ∉ symbols → (c = '.' → cs.head?.any Char.isDigit = false) →
      FailsAt (c :: cs) (.strayCharacter c)

/-- The text, from a position on, is scanned as this. -/
inductive Tokenizes : Position → List Char → Scan → Prop where
  | finish {p : Position} {blanks : List Char} : Blank blanks →
      Tokenizes p blanks ⟨[⟨.endOfInput, p.after blanks⟩], none⟩
  | lexeme {p : Position} {blanks cs rest : List Char} {l : Lexeme} {more : Scan} :
      Blank blanks → LexemeAt cs l rest →
      Tokenizes ((p.after blanks).after l.text.toList) rest more →
      Tokenizes p (blanks ++ cs) ⟨⟨l, p.after blanks⟩ :: more.lexemes, more.failure⟩
  | failure {p : Position} {blanks cs : List Char} {c : Char} {cause : Cause} :
      Blank blanks → Text.isBlank c = false → FailsAt (c :: cs) cause →
      Tokenizes p (blanks ++ c :: cs) ⟨[], some ⟨cause, p.after blanks⟩⟩

namespace Form

/-! ## Digits -/

theorem continuesDigits_of_mem {ds : List Char} (h : Digits ds) :
    ∀ c ∈ ds, Cut.continuesDigits c := by
  cases h with
  | intro hdigit hmore =>
      exact List.forall_mem_cons.mpr ⟨Cut.continuesDigits_of_isDigit hdigit, hmore⟩

/-- What starts with digits starts with one. -/
theorem Digits.isDigit_head {ds more cs : List Char} {c : Char} (h : Digits ds)
    (hsame : ds ++ more = c :: cs) : c.isDigit := by
  cases h with
  | intro hdigit _ => exact (List.cons.inj hsame).1 ▸ hdigit

/-- **A digit and the longest run behind it are the longest digits.** -/
theorem longest_digits {digit : Char} (hdigit : digit.isDigit) (cs : List Char) :
    Longest Digits (digit :: cs.takeWhile Cut.continuesDigits)
      (cs.dropWhile Cut.continuesDigits) where
  holds := ⟨hdigit, (longest_takeWhile Cut.continuesDigits cs).holds⟩
  le := by
    intro other more hsame hother
    rw [List.cons_append, List.takeWhile_append_dropWhile] at hsame
    cases hother with
    | intro _ hmore => exact Nat.succ_le_succ (Run.length_le hmore (List.cons.inj hsame).2)

/-! ## Exponents -/

theorem exponent?_of_bareExponent {cs : List Char} (h : BareExponent cs) :
    Cut.exponent? cs = none := by
  cases h with
  | @unsigned mark rest hmark hrest =>
      cases rest with
      | nil => simp [Cut.exponent?, hmark]
      | cons c rest =>
          obtain ⟨hsign, hdigit⟩ := hrest c rfl
          simp [Cut.exponent?, hmark, hsign, hdigit]
  | @signed mark sign rest hmark hsign hrest =>
      cases rest with
      | nil => simp [Cut.exponent?, hmark, hsign]
      | cons c rest => simp [Cut.exponent?, hmark, hsign, hrest c rfl]

theorem bareExponent_of_exponent? {cs : List Char} (h : Cut.exponent? cs = none) :
    BareExponent cs := by
  cases cs with
  | nil => exact absurd h (by simp [Cut.exponent?])
  | cons mark rest =>
      by_cases hmark : Cut.isExponentMark mark
      · cases rest with
        | nil => exact .unsigned hmark (by simp)
        | cons c rest =>
            by_cases hsign : Cut.isSign c
            · refine .signed hmark hsign ?_
              cases rest with
              | nil => simp
              | cons d rest => simpa [Cut.exponent?, hmark, hsign] using h
            · refine .unsigned hmark ?_
              simpa [Cut.exponent?, hmark, hsign] using h
      · exact absurd h (by simp [Cut.exponent?, hmark])

/-- **An exponent that is taken is the longest.** -/
theorem longest_of_exponent {cs taken rest : List Char} (h : Cut.Exponent cs taken rest)
    (hne : taken ≠ []) : Longest Exponent taken rest ∧ taken ++ rest = cs := by
  cases h with
  | absent => exact absurd rfl hne
  | @present mark sign digit cs hmark hsign hdigit =>
      have hdigits := longest_digits hdigit cs
      have hnot := Cut.not_isSign_of_isDigit hdigit
      refine ⟨⟨?_, ?_⟩, by simp⟩
      · rcases hsign with rfl | ⟨s, rfl, hs⟩
        · exact .unsigned hmark hdigits.holds
        · exact .signed hmark hs hdigits.holds
      · intro other more hsame hother
        -- the two agree in the sign, for no sign is a digit
        rcases hsign with rfl | ⟨s, rfl, hs⟩
        · cases hother with
          | unsigned _ hds =>
              exact Nat.succ_le_succ (hdigits.le _ _ (List.cons.inj hsame).2 hds)
          | signed _ hsign' _ =>
              obtain ⟨rfl, _⟩ := List.cons.inj (List.cons.inj hsame).2
              exact absurd hsign' (by simp [hnot])
        · cases hother with
          | unsigned _ hds =>
              have hs' := Cut.not_isSign_of_isDigit (hds.isDigit_head (List.cons.inj hsame).2)
              exact absurd hs (by simp [hs'])
          | signed _ _ hds =>
              have htail := (List.cons.inj (List.cons.inj hsame).2).2
              exact Nat.succ_le_succ (Nat.succ_le_succ (hdigits.le _ _ htail hds))

/-! ## Mantissas -/

theorem not_isExponentMark_of_continuesDigits {c : Char} (h : Cut.continuesDigits c) :
    Cut.isExponentMark c = false := by
  rw [Bool.eq_false_iff]
  intro hmark
  simp only [Cut.isExponentMark, Bool.or_eq_true, beq_iff_eq] at hmark
  rcases hmark with rfl | rfl <;> exact absurd h (by decide)

/-- No mantissa holds the mark of an exponent. -/
theorem not_isExponentMark_of_mem {point : Bool} {m : List Char} (h : Mantissa point m) :
    ∀ c ∈ m, Cut.isExponentMark c = false := by
  have hrun : ∀ {cs : List Char}, (∀ c ∈ cs, Cut.continuesDigits c) →
      ∀ c ∈ cs, Cut.isExponentMark c = false :=
    fun hcs c hc => not_isExponentMark_of_continuesDigits (hcs c hc)
  have hpoint : Cut.isExponentMark '.' = false := by decide
  cases h with
  | whole hds => exact hrun (continuesDigits_of_mem hds)
  | point hds hrs =>
      exact List.forall_mem_append.mpr ⟨hrun (continuesDigits_of_mem hds),
        List.forall_mem_cons.mpr ⟨hpoint, hrun hrs⟩⟩
  | fraction hrs => exact List.forall_mem_cons.mpr ⟨hpoint, hrun (continuesDigits_of_mem hrs)⟩

/-- A point is none of the digits. -/
theorem any_point (cs : List Char) : ('.' :: cs).head?.any Cut.continuesDigits = false := rfl

theorem ne_point_of_isDigit {c : Char} (h : c.isDigit) : c ≠ '.' := by
  rintro rfl
  exact absurd h (by decide)

/-- **Digits that no point follows are the longest mantissa.** -/
theorem longest_whole {digit : Char} {cs : List Char} (hdigit : digit.isDigit)
    (hnone : (cs.dropWhile Cut.continuesDigits).head?.any (· == '.') = false) :
    Longest IsMantissa (digit :: cs.takeWhile Cut.continuesDigits)
      (cs.dropWhile Cut.continuesDigits) := by
  have hdigits := longest_digits hdigit cs
  refine ⟨⟨false, .whole hdigits.holds⟩, ?_⟩
  rintro other more hsame ⟨point, hother⟩
  cases hother with
  | whole hds => exact hdigits.le other more hsame hds
  | @point ds rs hds _ =>
      -- the digits would be followed by a point
      rw [List.cons_append, List.takeWhile_append_dropWhile, List.append_assoc] at hsame
      cases hds with
      | intro _ hrun =>
          rw [(hrun.takeWhile_eq (any_point _) (List.cons.inj hsame).2).2] at hnone
          exact absurd hnone (by simp)
  | fraction _ => exact absurd (List.cons.inj hsame).1.symm (ne_point_of_isDigit hdigit)

/-- **Digits, a point, and the digits behind it are the longest mantissa.** -/
theorem longest_point {digit : Char} {cs behind : List Char} (hdigit : digit.isDigit)
    (hpoint : cs.dropWhile Cut.continuesDigits = '.' :: behind) :
    Longest IsMantissa
      (digit :: cs.takeWhile Cut.continuesDigits ++ '.' :: behind.takeWhile Cut.continuesDigits)
      (behind.dropWhile Cut.continuesDigits) := by
  have hdigits := longest_digits hdigit cs
  have hbehind := longest_takeWhile Cut.continuesDigits behind
  have hsplit : '.' :: behind.takeWhile Cut.continuesDigits ++
      behind.dropWhile Cut.continuesDigits = cs.dropWhile Cut.continuesDigits := by
    rw [hpoint, List.cons_append, List.takeWhile_append_dropWhile]
  refine ⟨⟨true, .point hdigits.holds hbehind.holds⟩, ?_⟩
  rintro other more hsame ⟨point, hother⟩
  rw [List.append_assoc, hsplit] at hsame
  rw [List.length_append]
  cases hother with
  | whole hds => exact (hdigits.le other more hsame hds).trans (Nat.le_add_right ..)
  | @point ds rs hds hrs =>
      rw [List.cons_append, List.takeWhile_append_dropWhile, List.append_assoc] at hsame
      cases hds with
      | intro _ hrun =>
          obtain ⟨htake, hdrop⟩ := hrun.takeWhile_eq (any_point _) (List.cons.inj hsame).2
          have hrest := (List.cons.inj (hdrop.symm.trans hpoint)).2
          rw [htake, List.length_append]
          exact Nat.add_le_add_left (Nat.succ_le_succ (Run.length_le hrs hrest)) _
  | fraction _ => exact absurd (List.cons.inj hsame).1.symm (ne_point_of_isDigit hdigit)

theorem digits_takeWhile {cs : List Char} (hdigit : cs.head?.any Char.isDigit) :
    Digits (cs.takeWhile Cut.continuesDigits) := by
  obtain ⟨digit, ds, rfl, hfirst⟩ := Cut.exists_cons_of_head?_any hdigit
  rw [List.takeWhile_cons_of_pos (Cut.continuesDigits_of_isDigit hfirst)]
  exact (longest_digits hfirst ds).holds

/-- **A point in front of digits and these digits are the longest mantissa.** -/
theorem longest_fraction {cs : List Char} (hdigit : cs.head?.any Char.isDigit) :
    Longest IsMantissa ('.' :: cs.takeWhile Cut.continuesDigits)
      (cs.dropWhile Cut.continuesDigits) := by
  refine ⟨⟨true, .fraction (digits_takeWhile hdigit)⟩, ?_⟩
  rintro other more hsame ⟨point, hother⟩
  cases hother with
  | whole hds => exact absurd rfl (ne_point_of_isDigit (hds.isDigit_head hsame))
  | point hds _ =>
      rw [List.append_assoc] at hsame
      exact absurd rfl (ne_point_of_isDigit (hds.isDigit_head hsame))
  | fraction hrs =>
      rw [List.cons_append, List.cons_append, List.takeWhile_append_dropWhile] at hsame
      exact Nat.succ_le_succ (Run.length_le (continuesDigits_of_mem hrs) (List.cons.inj hsame).2)

/-! ## Numbers -/

/-- **An exponent stands behind the longest mantissa only.** -/
theorem eq_of_append_exponent {m rest other x more : List Char} (h : Longest IsMantissa m rest)
    (hother : IsMantissa other) (hx : Exponent x) (hsame : other ++ x ++ more = m ++ rest) :
    other = m ∧ x ++ more = rest := by
  rw [List.append_assoc] at hsame
  have hle := h.le other (x ++ more) hsame hother
  rcases List.append_eq_append_iff.mp hsame with ⟨between, hm, hxs⟩ | ⟨between, hother', hrest⟩
  · cases between with
    | nil => exact ⟨by simpa using hm.symm, by simpa using hxs⟩
    | cons c between =>
        -- the mark of the exponent would be one of the mantissa's characters
        obtain ⟨point, hmantissa⟩ := h.holds
        have hmark : Cut.isExponentMark c = true := by
          cases hx with
          | unsigned hmark _ | signed hmark _ _ => rwa [(List.cons.inj hxs).1] at hmark
        have hnot := not_isExponentMark_of_mem hmantissa c (by simp [hm])
        exact absurd hmark (by simp [hnot])
  · have hnil : between = [] := by
      have hlength := congrArg List.length hother'
      rw [List.length_append] at hlength
      exact List.length_eq_zero_iff.mp (by omega)
    rw [hnil] at hother' hrest
    exact ⟨by simpa using hother', by simpa using hrest.symm⟩

/-- Where no exponent follows the longest mantissa, that is the longest number. -/
theorem longest_plain {m rest : List Char} (h : Longest IsMantissa m rest)
    (hnone : ∀ c, rest.head? = some c → Cut.isExponentMark c = false) :
    Longest IsNumber m rest := by
  obtain ⟨point, hmantissa⟩ := h.holds
  refine ⟨⟨point, .plain hmantissa⟩, ?_⟩
  rintro other more hsame ⟨decimal, hother⟩
  cases hother with
  | plain hplain => exact h.le other more hsame ⟨decimal, hplain⟩
  | @scaled point' m' x hm' hx =>
      obtain ⟨_, hrest⟩ := eq_of_append_exponent h ⟨point', hm'⟩ hx hsame
      cases hx with
      | unsigned hmark _ | signed hmark _ _ =>
          rw [← hrest] at hnone
          exact absurd hmark (by simp [hnone _ rfl])

/-- The longest mantissa and the longest exponent behind it are the longest number. -/
theorem longest_scaled {m x rest : List Char} (h : Longest IsMantissa m (x ++ rest))
    (hx : Longest Exponent x rest) : Longest IsNumber (m ++ x) rest := by
  obtain ⟨point, hmantissa⟩ := h.holds
  refine ⟨⟨true, .scaled hmantissa hx.holds⟩, ?_⟩
  rintro other more hsame ⟨decimal, hother⟩
  rw [List.append_assoc] at hsame
  rw [List.length_append]
  cases hother with
  | plain hplain =>
      have hle := h.le other more hsame ⟨decimal, hplain⟩
      omega
  | @scaled point' m' x' hm' hx' =>
      obtain ⟨rfl, hrest⟩ := eq_of_append_exponent h ⟨point', hm'⟩ hx' hsame
      have hle := hx.le x' more hrest hx'
      rw [List.length_append]
      omega

/-- Whether a number has a point or an exponent can be told from its characters. -/
theorem decimal_eq_any {decimal : Bool} {text : List Char} (h : Number decimal text) :
    decimal = text.any (!Cut.continuesDigits ·) := by
  have hpoint : Cut.continuesDigits '.' = false := by decide
  cases h with
  | plain hm =>
      cases hm with
      | whole hds =>
          symm
          rw [List.any_eq_false]
          intro c hc
          simp [continuesDigits_of_mem hds c hc]
      | point | fraction => simp [hpoint]
  | scaled _ hx =>
      symm
      cases hx with
      | unsigned hmark _ | signed hmark _ _ =>
          have hnot : ∀ {c : Char}, Cut.isExponentMark c → Cut.continuesDigits c = false := by
            intro c hmark
            rw [Bool.eq_false_iff]
            intro hdigits
            rw [not_isExponentMark_of_continuesDigits hdigits] at hmark
            exact absurd hmark (by simp)
          simp [hnot hmark]

/-! ## Where a number starts -/

/-- What a literal is cut as behind its longest mantissa, if there is no exponent without digits. -/
theorem literal_eq_lexeme {point : Bool} {m rest : List Char} (hm : Mantissa point m)
    (h : Longest IsMantissa m rest) (hnot : ¬BareExponent rest) :
    ∃ decimal text left, m ++ rest = text ++ left ∧ Number decimal text ∧
      Longest IsNumber text left ∧
      Cut.literal (.ofNumber point) m rest =
        .lexeme (.ofNumber decimal (String.ofList text)) left := by
  cases hexponent : Cut.exponent? rest with
  | none => exact absurd (bareExponent_of_exponent? hexponent) hnot
  | some found =>
      obtain ⟨taken, left⟩ := found
      have htaken := Cut.exponent?_eq_some_iff.mp hexponent
      rw [Cut.literal, hexponent]
      cases taken with
      | nil =>
          cases htaken with
          | absent hnone => exact ⟨point, m, rest, rfl, .plain hm, longest_plain h hnone, rfl⟩
      | cons mark taken =>
          obtain ⟨hx, rfl⟩ := longest_of_exponent htaken (by simp)
          exact ⟨true, m ++ mark :: taken, left, by simp, .scaled hm hx.holds,
            longest_scaled h hx, rfl⟩

/-- **A literal is cut behind the longest mantissa.** -/
theorem exists_mantissa_of_startsNumber {c : Char} {cs : List Char}
    (h : StartsNumber (c :: cs)) :
    ∃ point m rest, c :: cs = m ++ rest ∧ Mantissa point m ∧ Longest IsMantissa m rest ∧
      cutAt c cs = Cut.literal (.ofNumber point) m rest := by
  cases h with
  | digit hdigit hbase =>
      have hcut : cutAt c cs = Cut.number c cs := by
        rw [cutAt_of_not_mem_symbols (not_mem_symbols_of_isDigit hdigit), if_pos hdigit]
      rw [hcut, Cut.number_eq, if_neg hbase]
      have hwhole : Digits (c :: cs.takeWhile Cut.continuesDigits) :=
        (longest_digits hdigit cs).holds
      have hsplit := List.takeWhile_append_dropWhile (p := Cut.continuesDigits) (l := cs)
      split
      · rename_i hany
        obtain ⟨point, behind, hpoint, hc⟩ := Cut.exists_cons_of_head?_any hany
        obtain rfl : point = '.' := beq_iff_eq.mp hc
        have hbehind := longest_takeWhile Cut.continuesDigits behind
        rw [hpoint] at hsplit ⊢
        refine ⟨true, _, _, ?_, .point hwhole hbehind.holds, longest_point hdigit hpoint, ?_⟩
        · simp [hsplit]
        · simp [Cut.fraction, Lexeme.ofNumber]
      · rename_i hany
        exact ⟨false, _, _, by simp, .whole hwhole,
          longest_whole hdigit (Bool.eq_false_iff.mpr hany), rfl⟩
  | point hdigit =>
      have hcut : cutAt '.' cs = Cut.fraction ['.'] cs := by
        rw [cutAt_of_not_mem_symbols (by decide), if_neg (by decide), if_pos rfl, if_pos hdigit]
      exact ⟨true, _, _, by simp, .fraction (digits_takeWhile hdigit), longest_fraction hdigit,
        hcut⟩

end Form

/-! ## Cutting is greedy -/

/-- **Where a number starts, the longest number is cut**, unless its exponent has no digits. -/
theorem cutAt_of_startsNumber {c : Char} {cs : List Char} (h : Form.StartsNumber (c :: cs)) :
    Form.LacksExponent (c :: cs) ∧ cutAt c cs = .bareExponent ∨
      ¬Form.LacksExponent (c :: cs) ∧ ∃ decimal text rest,
        c :: cs = text ++ rest ∧ Form.Number decimal text ∧ Longest Form.IsNumber text rest ∧
          cutAt c cs = .lexeme (.ofNumber decimal (String.ofList text)) rest := by
  obtain ⟨point, m, rest, hsplit, hm, hlongest, hcut⟩ := Form.exists_mantissa_of_startsNumber h
  rw [hcut, hsplit]
  by_cases hbare : Form.BareExponent rest
  · refine Or.inl ⟨⟨m, rest, rfl, hlongest, hbare⟩, ?_⟩
    rw [Cut.literal, Form.exponent?_of_bareExponent hbare]
  · refine Or.inr ⟨?_, Form.literal_eq_lexeme hm hlongest hbare⟩
    rintro ⟨m', rest', hsame, hlongest', hbare'⟩
    obtain ⟨_, rfl⟩ := hlongest.unique hlongest' hsame.symm
    exact hbare hbare'

/-- What a name begins with, it may go on with. -/
theorem Text.continuesName_of_beginsName {c : Char} (h : beginsName c) : continuesName c := by
  simp only [beginsName, Bool.or_eq_true] at h
  simp only [continuesName, Bool.or_eq_true]
  refine h.imp_right ?_
  intro hletter
  unfold isLetter at hletter
  unfold isLetterOrNumber
  by_cases hascii : isAscii c
  · rw [if_pos hascii] at hletter ⊢
    simp [Char.isAlphanum, hletter]
  · rw [if_neg hascii] at hletter ⊢
    simp [hletter]

/-- What is cut at a place, by the lexical grammar. -/
def Cut.Agrees (c : Char) (cs : List Char) : Cut → Prop
  | .lexeme l rest => LexemeAt (c :: cs) l rest
  | .bareExponent => FailsAt (c :: cs) .exponentWithoutDigits
  | .stray _ => FailsAt (c :: cs) (.strayCharacter c)

theorem agrees_of_mem_symbols {c : Char} (h : c ∈ symbols) (cs : List Char) :
    (cutAt c cs).Agrees c cs := by
  simp only [symbols, List.mem_cons, List.not_mem_nil, or_false] at h
  rcases h with rfl | rfl | rfl | rfl | rfl | rfl | rfl
  · exact .operator .add cs
  · exact .operator .subtract cs
  · exact .operator .multiply cs
  · exact .operator .divide cs
  · exact .operator .power cs
  · exact .leftParen cs
  · exact .rightParen cs

theorem agrees_of_startsNumber {c : Char} {cs : List Char} (h : Form.StartsNumber (c :: cs)) :
    (cutAt c cs).Agrees c cs := by
  rcases cutAt_of_startsNumber h with ⟨hlacks, hcut⟩ | ⟨hnot, decimal, text, rest, hsplit, hnumber,
    hlongest, hcut⟩
  · rw [hcut]
    exact .exponent h hlacks
  · rw [hcut]
    exact .number h hnot hsplit hnumber hlongest

/-- **At every place the cut is what the lexical grammar says.** -/
theorem agrees_cutAt (c : Char) (cs : List Char) : (cutAt c cs).Agrees c cs := by
  by_cases hsymbol : c ∈ symbols
  · exact agrees_of_mem_symbols hsymbol cs
  by_cases hdigit : c.isDigit
  · by_cases hbase : c = '0' ∧ cs.head?.any Cut.isBaseMark
    · obtain ⟨rfl, hmark⟩ := hbase
      obtain ⟨mark, behind, rfl, hmark⟩ := Cut.exists_cons_of_head?_any hmark
      rw [cutAt_of_not_mem_symbols hsymbol, if_pos hdigit, Cut.number_eq, if_pos ⟨rfl, hmark⟩]
      exact .based hmark (List.takeWhile_append_dropWhile).symm (longest_takeWhile _ _)
    · exact agrees_of_startsNumber (.digit hdigit hbase)
  have hnot : c.isDigit = false := Bool.eq_false_iff.mpr hdigit
  by_cases hpoint : c = '.' ∧ cs.head?.any Char.isDigit
  · obtain ⟨rfl, hnext⟩ := hpoint
    exact agrees_of_startsNumber (.point hnext)
  by_cases hname : Text.beginsName c
  · have hcontinues := Text.continuesName_of_beginsName hname
    rw [cutAt_eq_lexeme_iff.mpr (.name cs hname), ← List.takeWhile_cons_of_pos hcontinues,
      ← List.dropWhile_cons_of_pos hcontinues]
    exact .name hname (List.takeWhile_append_dropWhile).symm (longest_takeWhile _ _)
  have hstray : cutAt c cs = .stray cs := by
    rw [cutAt_of_not_mem_symbols hsymbol, if_neg hdigit, if_neg hname]
    split
    · rename_i hc
      rw [if_neg fun hnext => hpoint ⟨hc, hnext⟩]
    · rfl
  rw [hstray]
  refine .stray (Bool.eq_false_iff.mpr hname) hnot hsymbol ?_
  intro hc
  exact Bool.eq_false_iff.mpr fun hnext => hpoint ⟨hc, hnext⟩

/-- A lexeme that the grammar finds is cut. -/
theorem cutAt_of_lexemeAt {c : Char} {cs rest : List Char} {l : Lexeme}
    (h : LexemeAt (c :: cs) l rest) : cutAt c cs = .lexeme l rest := by
  generalize hplace : c :: cs = place at h
  cases h with
  | operator op =>
      cases hplace
      exact cutAt_eq_lexeme_iff.mpr (.operator op cs)
  | leftParen | rightParen =>
      cases hplace
      rfl
  | name hname hsplit hlongest =>
      cases hplace
      have hcontinues := Text.continuesName_of_beginsName hname
      have hrun := longest_takeWhile Text.continuesName (c :: cs)
      rw [cutAt_eq_lexeme_iff.mpr (.name cs hname), ← List.takeWhile_cons_of_pos hcontinues,
        ← List.dropWhile_cons_of_pos hcontinues]
      obtain ⟨htext, hrest⟩ := hlongest.unique hrun
        (List.takeWhile_append_dropWhile.trans hsplit)
      rw [htext, hrest]
  | @based mark behind text _ hmark hsplit hlongest =>
      cases hplace
      have hrun := longest_takeWhile Cut.continuesBased (mark :: behind)
      obtain ⟨htext, hrest⟩ := hlongest.unique hrun
        (List.takeWhile_append_dropWhile.trans hsplit)
      rw [cutAt_of_not_mem_symbols (by decide), if_pos (by decide), Cut.number_eq,
        if_pos ⟨rfl, hmark⟩, htext, hrest]
  | @number _ text _ decimal hstarts hnot hsplit hnumber hlongest =>
      subst hplace
      rcases cutAt_of_startsNumber hstarts with ⟨hlacks, _⟩ | ⟨_, decimal', text', rest', hsplit',
        hnumber', hlongest', hcut⟩
      · exact absurd hlacks hnot
      · obtain ⟨rfl, rfl⟩ := hlongest.unique hlongest' (hsplit'.symm.trans hsplit)
        rw [hcut, Form.decimal_eq_any hnumber, Form.decimal_eq_any hnumber']

/-- Where the grammar finds a fault, none is cut. -/
theorem cutAt_of_failsAt {c : Char} {cs : List Char} {cause : Cause}
    (h : FailsAt (c :: cs) cause) :
    cutAt c cs = .bareExponent ∧ cause = .exponentWithoutDigits ∨
      cutAt c cs = .stray cs ∧ cause = .strayCharacter c := by
  cases h with
  | exponent hstarts hlacks =>
      rcases cutAt_of_startsNumber hstarts with ⟨_, hcut⟩ | ⟨hnot, _⟩
      · exact Or.inl ⟨hcut, rfl⟩
      · exact absurd hlacks hnot
  | stray hname hdigit hsymbol hpoint =>
      refine Or.inr ⟨?_, rfl⟩
      rw [cutAt_of_not_mem_symbols hsymbol, if_neg (Bool.eq_false_iff.mp hdigit),
        if_neg (Bool.eq_false_iff.mp hname)]
      split
      · rename_i hc
        rw [if_neg (Bool.eq_false_iff.mp (hpoint hc))]
      · rfl

/-! ## Scanning is greedy -/

namespace Scanner

/-- **Every scan is what the lexical grammar makes of the text.** -/
theorem tokenizes_run {s : Scanner} (hbroken : s.broken = false) :
    Tokenizes s.position s.rest s.run := by
  fun_induction Scanner.run s with
  | case1 s e hnext =>
      have hsplit := List.takeWhile_append_dropWhile (p := Text.isBlank) (l := s.rest)
      have hblanks := blank_takeWhile s.rest
      cases hdrop : s.rest.dropWhile Text.isBlank with
      | nil =>
          -- nothing is wrong with blanks
          rw [hdrop, List.append_nil] at hsplit
          rw [next_eq_ok_iff.mpr (.finish hbroken (hsplit ▸ hblanks))] at hnext
          exact absurd hnext (by simp)
      | cons c cs =>
          have hc : Text.isBlank c = false := by
            have hhead := List.head?_dropWhile_not Text.isBlank s.rest
            rwa [hdrop] at hhead
          rw [hdrop] at hsplit
          have hopen : ∀ rest, s.breaksBehind rest = false := by simp [breaksBehind, hbroken]
          have hagrees := agrees_cutAt c cs
          rw [next_of_rest hsplit.symm hblanks hc] at hnext
          rw [← hsplit]
          generalize cutAt c cs = cut at hnext hagrees
          cases cut with
          | lexeme l rest => simp [hopen] at hnext
          | stray rest =>
              simp only [hopen, Bool.false_eq_true, if_false, Except.error.injEq] at hnext
              exact hnext ▸ .failure hblanks hc hagrees
          | bareExponent =>
              simp only [Except.error.injEq] at hnext
              exact hnext ▸ .failure hblanks hc hagrees
  | case2 s l t hnext hend =>
      cases next_eq_ok_iff.mp hnext with
      | finish _ hblank => exact .finish hblank
      | lexeme _ _ _ hcut => exact absurd hend (ne_endOfInput_of_cutAt hcut)
  | case3 s l t hnext hne more =>
      rename_i ih
      cases next_eq_ok_iff.mp hnext with
      | finish => exact absurd rfl hne
      | @lexeme blanks cs rest c l hrest hblanks hc hcut =>
          have hagrees := agrees_cutAt c cs
          rw [hcut] at hagrees
          rw [hrest]
          exact .lexeme hblanks hagrees (ih hbroken)

/-- No other scan is. -/
theorem run_of_tokenizes {p : Position} {cs : List Char} {result : Scan}
    (h : Tokenizes p cs result) :
    ∀ {s : Scanner}, s.broken = false → s.position = p → s.rest = cs → s.run = result := by
  induction h with
  | finish hblank =>
      intro s hbroken hposition hrest
      rw [run_of_blank hbroken (hrest ▸ hblank), hposition, hrest]
  | @lexeme p blanks place rest l more hblanks hlexeme _ ih =>
      intro s hbroken hposition hrest
      obtain ⟨c, cs, rfl⟩ : ∃ c cs, place = c :: cs := by
        cases hlexeme with
        | name | based | operator | leftParen | rightParen => exact ⟨_, _, rfl⟩
        | number hstarts => cases hstarts <;> exact ⟨_, _, rfl⟩
      have hcut := cutAt_of_lexemeAt hlexeme
      have hbehind : s.breaksBehind rest = false := by simp [breaksBehind, hbroken]
      rw [run_of_takes (.lexeme hrest hblanks (not_isBlank_of_cutAt hcut) hcut hbehind),
        if_neg (ne_endOfInput_of_cutAt hcut), hposition]
      have hmore : (Scanner.mk rest s.broken ((p.after blanks).after l.text.toList)
          (p.after blanks).column).run = more := ih hbroken rfl rfl
      rw [hmore]
  | @failure p blanks cs c cause hblanks hc hfails =>
      intro s hbroken hposition hrest
      have hnext := next_of_rest hrest hblanks hc
      rcases cutAt_of_failsAt hfails with ⟨hcut, rfl⟩ | ⟨hcut, rfl⟩
      · rw [hcut] at hnext
        rw [run_of_error hnext, hposition]
      · have hopen : s.breaksBehind cs = false := by simp [breaksBehind, hbroken]
        simp only [hcut, hopen, Bool.false_eq_true, if_false] at hnext
        rw [run_of_error hnext, hposition]

end Scanner

/--
**Scanning is greedy, and exactly its lexical grammar.** A text is scanned as the grammar says,
place by place, and as nothing else.
-/
theorem scan_iff_tokenizes (text : List Char) (result : Scan) :
    scan (.ofBytes (Utf8.encode text)) = result ↔
      Tokenizes (if text.isEmpty then .nowhere else .start) text result := by
  rw [Source.ofBytes_encode]
  refine ⟨?_, ?_⟩
  · rintro rfl
    exact @Scanner.tokenizes_run (.ofSource ⟨text, false⟩) rfl
  · intro h
    exact Scanner.run_of_tokenizes h rfl rfl rfl

/-- A second point starts a number of its own, and its exponent has no digits. -/
example : scan (.ofString "1.5.2e+") =
    ⟨[⟨.decimal "1.5", ⟨1, 1⟩⟩], some ⟨.exponentWithoutDigits, ⟨1, 4⟩⟩⟩ := by decide +kernel

end Formula
