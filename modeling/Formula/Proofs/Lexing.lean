import Formula.Proofs.Acceptance
import Formula.Proofs.Cutting

/-!
# Lexemes of a text

`Takes` says once what a scanner does when it takes a lexeme; whatever holds of a whole scan is an
induction over it.

`Lexes` keeps of a scan only which lexemes a text is made of, and drops where they stand. That is
all the grammar looks at, and it does not change when the text is put somewhere else: a text in
front of a character that stops every run is made of the same lexemes as alone (`Lexes.append`).
-/

namespace Formula

/-- Nothing but blanks. -/
def Blank (cs : List Char) : Prop := ∀ c ∈ cs, Text.isBlank c

theorem blank_nil : Blank [] := by simp [Blank]

theorem blank_takeWhile (cs : List Char) : Blank (cs.takeWhile Text.isBlank) :=
  fun _ hc => List.mem_takeWhile_imp hc

/-- Skipping blanks stops at the first character that is none. -/
theorem takeWhile_dropWhile_of_blank {blanks cs : List Char} {c : Char} (hblanks : Blank blanks)
    (hc : Text.isBlank c = false) :
    (blanks ++ c :: cs).takeWhile Text.isBlank = blanks ∧
      (blanks ++ c :: cs).dropWhile Text.isBlank = c :: cs := by
  rw [List.takeWhile_append_of_pos hblanks, List.dropWhile_append_of_pos hblanks]
  simp [hc]

/-- The end of the input is cut nowhere. -/
theorem ne_endOfInput_of_cutAt {c : Char} {cs rest : List Char} {l : Lexeme}
    (h : cutAt c cs = .lexeme l rest) : l ≠ .endOfInput := by
  rintro rfl
  obtain ⟨more, htext, _⟩ := exists_of_cutAt h
  exact absurd htext (by simp [Lexeme.text])

/-- A blank is cut nowhere either. -/
theorem not_isBlank_of_cutAt {c : Char} {cs rest : List Char} {l : Lexeme}
    (h : cutAt c cs = .lexeme l rest) : Text.isBlank c = false := by
  rw [Bool.eq_false_iff]
  intro hblank
  simp only [Text.isBlank, Bool.or_eq_true, beq_iff_eq] at hblank
  have hstray : cutAt c cs = .stray cs := by
    rcases hblank with ((rfl | rfl) | rfl) | rfl <;> rfl
  exact absurd (hstray.symm.trans h) (by simp)

namespace Scanner

/-! ## Taking a lexeme -/

/-- What taking the next lexeme gives and leaves. -/
inductive Takes : Scanner → Located → Scanner → Prop where
  | finish {s : Scanner} : s.broken = false → Blank s.rest →
      Takes s ⟨.endOfInput, s.position.after s.rest⟩ s.skipBlanks
  | lexeme {s : Scanner} {blanks cs rest : List Char} {c : Char} {l : Lexeme} :
      s.rest = blanks ++ c :: cs → Blank blanks → Text.isBlank c = false →
      cutAt c cs = .lexeme l rest → s.breaksBehind rest = false →
      Takes s ⟨l, s.position.after blanks⟩
        ⟨rest, s.broken, (s.position.after blanks).after l.text.toList,
          (s.position.after blanks).column⟩

/-- **A scanner takes lexemes exactly as `Takes` says.** -/
theorem next_eq_ok_iff {s t : Scanner} {l : Located} : s.next = .ok (l, t) ↔ Takes s l t := by
  refine ⟨?_, ?_⟩
  · intro h
    have hsplit : s.rest = s.rest.takeWhile Text.isBlank ++ s.skipBlanks.rest :=
      List.takeWhile_append_dropWhile.symm
    unfold next takeLexeme at h
    split at h
    · rename_i hnil
      split at h
      · exact absurd h (by simp)
      · rename_i hbroken
        cases h
        have hopen : s.broken = false := Bool.eq_false_iff.mpr hbroken
        rw [hnil, List.append_nil] at hsplit
        have hblank : Blank s.rest := hsplit ▸ blank_takeWhile s.rest
        have hposition : s.skipBlanks.position = s.position.after s.rest :=
          congrArg s.position.after hsplit.symm
        rw [hposition]
        exact .finish hopen hblank
    · rename_i c cs hcons
      have hc : Text.isBlank c = false := by
        have hhead := List.head?_dropWhile_not Text.isBlank s.rest
        rw [show s.rest.dropWhile Text.isBlank = c :: cs from hcons] at hhead
        exact hhead
      split at h
      · exact absurd h (by simp)
      · split at h <;> exact absurd h (by simp)
      · rename_i hcut
        split at h
        · exact absurd h (by simp)
        · rename_i hbehind
          cases h
          rw [hcons] at hsplit
          exact .lexeme hsplit (blank_takeWhile s.rest) hc hcut (Bool.eq_false_iff.mpr hbehind)
  · intro h
    cases h with
    | finish hbroken hblank =>
        have htake : s.rest.takeWhile Text.isBlank = s.rest := List.takeWhile_eq_self_iff.mpr hblank
        have hnil : s.skipBlanks.rest = [] := List.dropWhile_eq_nil_iff.mpr hblank
        have hopen : s.skipBlanks.broken = false := hbroken
        have hposition : s.skipBlanks.position = s.position.after s.rest :=
          congrArg s.position.after htake
        unfold next takeLexeme
        rw [hnil]
        simp [hopen, hposition]
    | @lexeme blanks cs rest c l hrest hblanks hc hcut hbehind =>
        obtain ⟨htake, hdrop⟩ := @takeWhile_dropWhile_of_blank _ cs _ hblanks hc
        have hcons : s.skipBlanks.rest = c :: cs := (congrArg _ hrest).trans hdrop
        have hopen : s.skipBlanks.breaksBehind rest = false := hbehind
        have hposition : s.skipBlanks.position = s.position.after blanks :=
          congrArg s.position.after ((congrArg _ hrest).trans htake)
        have hbroken : s.skipBlanks.broken = s.broken := rfl
        unfold next takeLexeme
        rw [hcons]
        simp [hcut, hopen, hbroken, past, hposition]

/-- What stands behind some blanks decides what a scanner does. -/
theorem next_of_rest {s : Scanner} {blanks cs : List Char} {c : Char}
    (hrest : s.rest = blanks ++ c :: cs) (hblanks : Blank blanks) (hc : Text.isBlank c = false) :
    s.next =
      match cutAt c cs with
      | .bareExponent => .error ⟨.exponentWithoutDigits, s.position.after blanks⟩
      | .stray rest =>
        if s.breaksBehind rest then .error ⟨.malformedText, s.position.after blanks⟩
        else .error ⟨.strayCharacter c, s.position.after blanks⟩
      | .lexeme l rest =>
        if s.breaksBehind rest then .error ⟨.malformedText, s.position.after blanks⟩
        else .ok (⟨l, s.position.after blanks⟩,
          ⟨rest, s.broken, (s.position.after blanks).after l.text.toList,
            (s.position.after blanks).column⟩) := by
  obtain ⟨htake, hdrop⟩ := @takeWhile_dropWhile_of_blank _ cs _ hblanks hc
  have hskip : s.skipBlanks = ⟨c :: cs, s.broken, s.position.after blanks, s.lastColumn⟩ := by
    rw [skipBlanks, hrest, htake, hdrop]
  rw [next, hskip]
  rfl

theorem run_of_takes {s t : Scanner} {l : Located} (h : Takes s l t) :
    s.run =
      if l.lexeme = .endOfInput then ⟨[l], none⟩
      else ⟨l :: t.run.lexemes, t.run.failure⟩ := by
  rw [run]
  split
  · rename_i hnext
    rw [next_eq_ok_iff.mpr h] at hnext
    exact absurd hnext (by simp)
  · rename_i hnext
    rw [next_eq_ok_iff.mpr h] at hnext
    cases hnext
    rfl

theorem run_of_error {s : Scanner} {e : SyntaxError} (h : s.next = .error e) :
    s.run = ⟨[], some e⟩ := by
  rw [run]
  split
  · rename_i hnext
    rw [h] at hnext
    cases hnext
    rfl
  · rename_i hnext
    rw [h] at hnext
    exact absurd hnext (by simp)

theorem run_of_blank {s : Scanner} (hb : s.broken = false) (hblank : Blank s.rest) :
    s.run = ⟨[⟨.endOfInput, s.position.after s.rest⟩], none⟩ := by
  rw [run_of_takes (.finish hb hblank), if_pos rfl]

end Scanner

/-! ## The lexemes of a text -/

/-- The text is made of the lexemes, with blanks between them. -/
inductive Lexes : List Char → List Lexeme → Prop where
  | finish {blanks : List Char} : Blank blanks → Lexes blanks []
  | lexeme {blanks cs rest : List Char} {c : Char} {l : Lexeme} {ls : List Lexeme} :
      Blank blanks → Text.isBlank c = false → cutAt c cs = .lexeme l rest → Lexes rest ls →
      Lexes (blanks ++ c :: cs) (l :: ls)

/-- Blanks in front of a text change nothing. -/
theorem Lexes.blanks {blanks cs : List Char} {ls : List Lexeme} (hblanks : Blank blanks)
    (h : Lexes cs ls) : Lexes (blanks ++ cs) ls := by
  cases h with
  | finish hrest => exact .finish (List.forall_mem_append.mpr ⟨hblanks, hrest⟩)
  | lexeme hmore hc hcut hrest =>
      rw [← List.append_assoc]
      exact .lexeme (List.forall_mem_append.mpr ⟨hblanks, hmore⟩) hc hcut hrest

/-- **In front of a stop a text is made of the lexemes that it is made of alone.** -/
theorem Lexes.append {cs : List Char} {ls : List Lexeme} (h : Lexes cs ls) {d : Char}
    (hd : Cut.Stops d) {ds : List Char} {ms : List Lexeme} (hrest : Lexes (d :: ds) ms) :
    Lexes (cs ++ d :: ds) (ls ++ ms) := by
  induction h with
  | finish hblanks => exact hrest.blanks hblanks
  | lexeme hblanks hc hcut _ ih =>
      rw [List.append_assoc, List.cons_append]
      exact .lexeme hblanks hc (cutAt_append_of_stops hd ds hcut) ih

/-! ## Texts between other texts -/

namespace Lexes

/-- A lexeme in front of a text. -/
theorem cons {c : Char} {cs rest : List Char} {l : Lexeme} {ls : List Lexeme}
    (hcut : cutAt c cs = .lexeme l rest) (h : Lexes rest ls) : Lexes (c :: cs) (l :: ls) :=
  .lexeme blank_nil (not_isBlank_of_cutAt hcut) hcut h

/-- A text that is one lexeme. -/
theorem single {c : Char} {cs : List Char} {l : Lexeme} (h : cutAt c cs = .lexeme l []) :
    Lexes (c :: cs) [l] := .cons h (.finish blank_nil)

theorem group {cs ds : List Char} {ls ms : List Lexeme} (h : Lexes cs ls) (hrest : Lexes ds ms) :
    Lexes ('(' :: cs ++ ')' :: ds) (.leftParen :: ls ++ .rightParen :: ms) := by
  have hclose : Lexes (')' :: ds) (.rightParen :: ms) := .cons rfl hrest
  exact .cons rfl (h.append Cut.stops_rightParen hclose)

theorem operator {cs : List Char} {ls : List Lexeme} (op : Operator) (h : Lexes cs ls) :
    Lexes (op.symbol :: cs) (.operator op :: ls) :=
  .cons (cutAt_eq_lexeme_iff.mpr (.operator op cs)) h

theorem name {text : String} (h : IsName text) : Lexes text.toList [.name text] := by
  obtain ⟨c, cs, htext, hc, hcs⟩ := h
  rw [htext]
  exact .single (cutAt_of_isName htext hc hcs)

end Lexes

theorem Function.isName_name (f : Function) : IsName f.name := by
  cases f <;> exact ⟨_, _, rfl, by decide, List.all_eq_true.mp (by decide)⟩

theorem Constant.isName_name (c : Constant) : IsName c.name := by
  cases c <;> exact ⟨_, _, rfl, by decide, List.all_eq_true.mp (by decide)⟩

namespace Scanner

theorem lexes_of_ends {s : Scanner} :
    ∀ {ls : List Lexeme}, s.run.Ends ls → s.broken = false ∧ Lexes s.rest ls := by
  fun_induction Scanner.run s with
  | case1 s e hnext =>
      intro ls h
      exact absurd h.1 (by simp)
  | case2 s l t hnext hend =>
      -- the end comes first, so nothing but blanks is left
      intro ls h
      cases next_eq_ok_iff.mp hnext with
      | finish hbroken hblank =>
          have hnil : ls = [] := by
            have hlength := congrArg List.length h.2
            simpa using hlength
          rw [hnil]
          exact ⟨hbroken, .finish hblank⟩
      | lexeme _ _ _ hcut => exact absurd hend (ne_endOfInput_of_cutAt hcut)
  | case3 s l t hnext hne more =>
      rename_i ih
      intro ls h
      obtain ⟨hnone, hlexemes⟩ := h
      cases next_eq_ok_iff.mp hnext with
      | finish => exact absurd rfl hne
      | lexeme hrest hblanks hc hcut =>
          cases ls with
          | nil => exact absurd (List.cons.inj hlexemes).1 (ne_endOfInput_of_cutAt hcut)
          | cons first ls =>
              obtain ⟨rfl, hmore⟩ := List.cons.inj hlexemes
              obtain ⟨hbroken, hlexes⟩ := ih ⟨hnone, hmore⟩
              rw [hrest]
              exact ⟨hbroken, .lexeme hblanks hc hcut hlexes⟩

theorem ends_of_lexes {cs : List Char} {ls : List Lexeme} (h : Lexes cs ls) :
    ∀ {s : Scanner}, s.broken = false → s.rest = cs → s.run.Ends ls := by
  induction h with
  | finish hblanks =>
      intro s hbroken hrest
      rw [run_of_takes (.finish hbroken (hrest ▸ hblanks)), if_pos rfl]
      exact ⟨rfl, rfl⟩
  | @lexeme blanks cs rest c l ls hblanks hc hcut _ ih =>
      intro s hbroken hrest
      have hbehind : s.breaksBehind rest = false := by simp [breaksBehind, hbroken]
      rw [run_of_takes (.lexeme hrest hblanks hc hcut hbehind),
        if_neg (ne_endOfInput_of_cutAt hcut)]
      obtain ⟨hnone, hlexemes⟩ := @ih ⟨rest, s.broken, _, _⟩ hbroken rfl
      exact ⟨hnone, congrArg (l :: ·) hlexemes⟩

/-- **A scan ends behind the lexemes that its text is made of**, if all of it can be read. -/
theorem ends_run_iff {s : Scanner} {ls : List Lexeme} :
    s.run.Ends ls ↔ s.broken = false ∧ Lexes s.rest ls := by
  refine ⟨lexes_of_ends, ?_⟩
  intro h
  obtain ⟨hbroken, hlexes⟩ := h
  exact ends_of_lexes hlexes hbroken rfl

end Scanner

end Formula
