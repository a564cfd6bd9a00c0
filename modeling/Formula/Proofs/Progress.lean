import Mathlib.Logic.Relation
import Formula.Proofs.Descent
import Formula.Proofs.Window

/-!
# Progress

A formula is read to an end because nothing in the reading stays where it is. A scanner stands in
one place of the bytes (`Stands`), always behind whole characters. Going over characters leads to
the first that is not gone over; a lexeme leads on by a byte at least and not beyond the bytes; and
the end of the input, once found, is found in the same place again.

So there are no more answers to be had from a scanner than bytes and one (`length_answers_run_le`),
and none behind the end or an error (`exists_of_mem_dropLast`). A descent has been given a start of
them.
-/

namespace Formula

namespace Utf8

theorem length_le_encode (cs : List Char) : cs.length ≤ (encode cs).length := by
  induction cs with
  | nil => exact Nat.le_refl _
  | cons c cs ih =>
      have hpos := c.utf8Size_pos
      rw [encode_cons, List.length_append, String.length_utf8EncodeChar, List.length_cons]
      omega

/--
Goes on from character to character while they pass the test, and is `none` if that takes more
rounds. Where no character is, `advance` stays, and no number of rounds would be enough.
-/
def advanceWhile (test : Char → Bool) (bytes : List UInt8) : Nat → Nat → Option Nat
  | 0, _ => none
  | rounds + 1, i =>
    match head (bytes.drop i) with
    | .char c => if test c then advanceWhile test bytes rounds (advance bytes i) else some i
    | _ => some i

end Utf8

theorem Source.ofBytes_encode_append (cs : List Char) (more : List UInt8) :
    ofBytes (Utf8.encode cs ++ more) = ⟨cs ++ (ofBytes more).chars, (ofBytes more).broken⟩ := by
  rw [ofBytes, Utf8.readable_encode_append]
  rfl

/-- The first of the characters that are read of some bytes are the first of the bytes. -/
theorem Source.exists_of_ofBytes {bytes : List UInt8} {cs ds : List Char} {broken : Bool}
    (h : ofBytes bytes = ⟨cs ++ ds, broken⟩) :
    ∃ more, bytes = Utf8.encode cs ++ more ∧ ofBytes more = ⟨ds, broken⟩ := by
  have hchars : (Utf8.readable bytes).1 = cs ++ ds := congrArg chars h
  have hsplit := Utf8.encode_readable bytes
  rw [hchars, Utf8.encode_append, List.append_assoc] at hsplit
  generalize Utf8.encode ds ++ (Utf8.readable bytes).2 = more at hsplit
  refine ⟨more, hsplit.symm, ?_⟩
  rw [← hsplit, ofBytes_encode_append] at h
  injection h with hfront hbroken
  rw [← List.append_cancel_left hfront, ← hbroken]

theorem Source.length_chars_le (bytes : List UInt8) :
    (ofBytes bytes).chars.length ≤ bytes.length := by
  have hsplit := congrArg List.length (Utf8.encode_readable bytes)
  rw [List.length_append] at hsplit
  exact Nat.le_trans (Utf8.length_le_encode _) (Nat.le_of_add_right_le hsplit.le)

namespace Scanner

variable {bytes : List UInt8} {i j : Nat} {s t : Scanner} {l : Located}

/-! ## Places -/

/-- The scanner stands in this place of the bytes. -/
structure Stands (bytes : List UInt8) (i : Nat) (s : Scanner) : Prop where
  within : i ≤ bytes.length
  /-- Whole characters are in front of it, -/
  front : Utf8.Valid (bytes.take i)
  /-- and behind it is what it has still to read. -/
  behind : Source.ofBytes (bytes.drop i) = ⟨s.rest, s.broken⟩

theorem stands_iff : Stands bytes i s ↔
    ∃ cs more, bytes = Utf8.encode cs ++ more ∧ i = (Utf8.encode cs).length ∧
      Source.ofBytes more = ⟨s.rest, s.broken⟩ := by
  refine ⟨?_, ?_⟩
  · intro h
    obtain ⟨cs, hcs⟩ := h.front
    refine ⟨cs, bytes.drop i, ?_, ?_, h.behind⟩
    · rw [hcs, List.take_append_drop]
    · rw [hcs, List.length_take, Nat.min_eq_left h.within]
  · intro h
    obtain ⟨cs, more, rfl, rfl, hmore⟩ := h
    refine ⟨?_, ⟨cs, ?_⟩, ?_⟩
    · rw [List.length_append]
      exact Nat.le_add_right _ _
    · rw [List.take_left]
    · rwa [List.drop_left]

theorem stands_ofSource (bytes : List UInt8) : Stands bytes 0 (.ofSource (.ofBytes bytes)) :=
  ⟨Nat.zero_le _, ⟨[], rfl⟩, rfl⟩

/-- A scanner stands in one place only. -/
theorem Stands.unique (h : Stands bytes i s) (h' : Stands bytes j s) : i = j := by
  obtain ⟨cs, more, hbytes, rfl, hmore⟩ := stands_iff.mp h
  obtain ⟨ds, more', hbytes', rfl, hmore'⟩ := stands_iff.mp h'
  have hchars := Source.ofBytes_encode_append cs more
  rw [← hbytes, hbytes', Source.ofBytes_encode_append, hmore, hmore'] at hchars
  rw [List.append_cancel_right (congrArg Source.chars hchars)]

/-- **Going over characters leads on by their bytes.** -/
theorem Stands.forward (h : Stands bytes i s) {taken : List Char} (hrest : s.rest = taken ++ t.rest)
    (hbroken : t.broken = s.broken) : Stands bytes (i + (Utf8.encode taken).length) t := by
  obtain ⟨cs, more, rfl, rfl, hmore⟩ := stands_iff.mp h
  rw [hrest, ← hbroken] at hmore
  obtain ⟨rest, rfl, hbehind⟩ := Source.exists_of_ofBytes hmore
  refine stands_iff.mpr ⟨cs ++ taken, rest, ?_, ?_, hbehind⟩
  · rw [Utf8.encode_append, List.append_assoc]
  · rw [Utf8.encode_append, List.length_append]

/-- A scanner that has read everything stands behind all the bytes. -/
theorem Stands.eq_length (h : Stands bytes i s) (hrest : s.rest = []) (hbroken : s.broken = false) :
    i = bytes.length := by
  have hbehind := h.behind
  rw [hrest, hbroken] at hbehind
  have hnil := Source.encode_chars (congrArg Source.broken hbehind)
  rw [hbehind] at hnil
  have hlength := congrArg List.length hnil
  rw [List.length_drop] at hlength
  have := h.within
  simp at hlength
  omega

/-- A scanner has no more to read than there are bytes behind it. -/
theorem Stands.length_rest_le (h : Stands bytes i s) : i + s.rest.length ≤ bytes.length := by
  have hrest := Source.length_chars_le (bytes.drop i)
  have hwithin := h.within
  rw [h.behind, List.length_drop] at hrest
  dsimp only at hrest
  omega

/-- **Going over characters ends** at the first that is not gone over, with a round for each. -/
theorem Stands.advanceWhile_eq (test : Char → Bool) {rounds : Nat} (h : Stands bytes i s)
    (hrounds : s.rest.length < rounds) :
    Utf8.advanceWhile test bytes rounds i =
      some (i + (Utf8.encode (s.rest.takeWhile test)).length) := by
  obtain ⟨cs, broken, position, lastColumn⟩ := s
  obtain ⟨rounds, rfl⟩ := Nat.exists_eq_add_one_of_ne_zero (Nat.ne_zero_of_lt hrounds)
  induction cs generalizing i rounds with
  | nil =>
      rw [Utf8.advanceWhile]
      cases hhead : Utf8.head (bytes.drop i) with
      | char c =>
          have hbehind := congrArg Source.chars h.behind
          rw [Source.ofBytes, Utf8.readable_of_head_eq_char hhead] at hbehind
          exact absurd hbehind (by simp)
      | malformed | done => rfl
  | cons c cs ih =>
      have hbehind : Source.ofBytes (bytes.drop i) = ⟨[c] ++ cs, broken⟩ := h.behind
      obtain ⟨more, hmore, _⟩ := Source.exists_of_ofBytes hbehind
      have hhead : Utf8.head (bytes.drop i) = .char c := by
        rw [hmore]
        exact Utf8.head_encode_append [c] more
      rw [Utf8.advanceWhile, hhead]
      dsimp only
      by_cases hc : test c
      · have hnext :
            Stands bytes (i + (Utf8.encode [c]).length) ⟨cs, broken, position, lastColumn⟩ :=
          h.forward rfl rfl
        have hadvance : Utf8.advance bytes i = i + (Utf8.encode [c]).length := by
          rw [Utf8.advance, hhead]
          simp
        have hless : cs.length < rounds := Nat.lt_of_succ_lt_succ hrounds
        obtain ⟨rounds, rfl⟩ := Nat.exists_eq_add_one_of_ne_zero (Nat.ne_zero_of_lt hless)
        rw [if_pos hc, hadvance, ih hnext rounds hless, Nat.add_assoc, ← List.length_append,
          ← Utf8.encode_append]
        dsimp only
        rw [List.takeWhile_cons_of_pos hc, List.singleton_append]
      · rw [if_neg hc, List.takeWhile_cons_of_neg hc]
        rfl

/-! ## Lexemes -/

/-- **A lexeme leads on**, by a byte at least. -/
theorem Stands.exists_of_takes (h : Stands bytes i s) (htakes : Takes s l t)
    (hl : l.lexeme ≠ .endOfInput) : ∃ j, Stands bytes j t ∧ i + 1 ≤ j := by
  obtain ⟨blanks, hrest, _, _, _, hbroken⟩ := split_of_takes htakes hl
  refine ⟨_, h.forward hrest hbroken, ?_⟩
  have hlength := Utf8.length_le_encode (blanks ++ l.lexeme.text.toList)
  have htext := rest_lt_of_next (next_eq_ok_iff.mpr htakes) hl
  rw [hrest, List.length_append] at htext
  omega

theorem skipBlanks_of_rest (hrest : s.rest = []) : s.skipBlanks = s := by
  cases s
  cases hrest
  rfl

/-- Behind the end of the input there is only the end of the input, in the same place. -/
theorem takes_of_finish (htakes : Takes s l t) (hl : l.lexeme = .endOfInput) :
    Takes t l t ∧ t.rest = [] ∧ t.broken = false := by
  cases htakes with
  | lexeme _ _ _ hcut => exact absurd hl (ne_endOfInput_of_cutAt hcut)
  | finish hbroken hblank =>
      have hrest : s.skipBlanks.rest = [] := List.dropWhile_eq_nil_iff.mpr hblank
      have hposition : s.skipBlanks.position = s.position.after s.rest :=
        congrArg s.position.after (List.takeWhile_eq_self_iff.mpr hblank)
      have hskip : s.skipBlanks.skipBlanks = s.skipBlanks := skipBlanks_of_rest hrest
      have htwice : Takes s.skipBlanks _ _ := .finish hbroken (hrest ▸ blank_nil)
      rw [hrest, Position.after_nil, hposition, hskip] at htwice
      exact ⟨htwice, hrest, hbroken⟩

theorem Stands.finish (h : Stands bytes i s) (htakes : Takes s l t)
    (hl : l.lexeme = .endOfInput) : Stands bytes bytes.length t := by
  obtain ⟨_, hrest, hbroken⟩ := takes_of_finish htakes hl
  have hend : Stands bytes (i + (Utf8.encode s.rest).length) t := by
    cases htakes with
    | lexeme _ _ _ hcut => exact absurd hl (ne_endOfInput_of_cutAt hcut)
    | finish => exact h.forward (by rw [hrest, List.append_nil]) rfl
  exact hend.eq_length hrest hbroken ▸ hend

/-- What a call of `next` leads to, if it gives a lexeme. -/
def Calls (s t : Scanner) : Prop := ∃ l, s.next = .ok (l, t)

theorem eq_of_calls_finish (htakes : Takes t l t) {u : Scanner}
    (hcalls : Relation.ReflTransGen Calls t u) : u = t := by
  induction hcalls with
  | refl => rfl
  | tail _ hcall ih =>
      obtain ⟨m, hm⟩ := hcall
      rw [ih, next_eq_ok_iff.mpr htakes] at hm
      cases hm
      rfl

/-! ## Answers -/

theorem answers_run_ne_nil (s : Scanner) : s.run.answers ≠ [] := by
  fun_induction Scanner.run s with
  | case1 | case2 | case3 => simp [Scan.answers]

/-- A scanner has no more answers than characters, and one. -/
theorem length_answers_run_le (s : Scanner) : s.run.answers.length ≤ s.rest.length + 1 := by
  fun_induction Scanner.run s with
  | case1 | case2 => exact Nat.le_add_left 1 _
  | case3 s l t hnext hne more ih =>
      have hless := rest_lt_of_next hnext hne
      have hcons : Scan.answers ⟨l :: more.lexemes, more.failure⟩ = .ok l :: more.answers := rfl
      rw [hcons, List.length_cons]
      exact Nat.succ_le_succ (Nat.le_trans ih hless)

theorem length_lexemes_run_le (s : Scanner) : s.run.lexemes.length ≤ s.rest.length + 1 := by
  have hanswers := length_answers_run_le s
  rw [Scan.answers, List.length_append, List.length_map] at hanswers
  omega

/-- An answer that is not the last is a lexeme with more behind it. -/
theorem exists_of_mem_dropLast (s : Scanner) : ∀ answer ∈ s.run.answers.dropLast,
    ∃ l, answer = .ok l ∧ l.lexeme ≠ .endOfInput := by
  fun_induction Scanner.run s with
  | case1 | case2 => simp [Scan.answers]
  | case3 s l t hnext hne more ih =>
      have hcons : Scan.answers ⟨l :: more.lexemes, more.failure⟩ = .ok l :: more.answers := rfl
      rw [hcons, List.dropLast_cons_of_ne_nil (answers_run_ne_nil t)]
      exact List.forall_mem_cons.mpr ⟨⟨l, rfl, hne⟩, ih⟩

end Scanner

/--
**Reading makes progress and stops.** A scanner stands in one place of the bytes. From there, going
over characters ends, in no more rounds than there are bytes left and one; a lexeme leads on by a
byte at least, and not beyond the bytes; and where the end of the input is found the bytes are over,
and all later calls find it there again. A descent ends on every formula, with what is read of it
and the same with all fuel that is enough. It has been answered as in a scan, lexeme by lexeme, no
more than once more than there are bytes, and never behind the end of the input or an error.
-/
theorem reading_stops (bytes : List UInt8) :
    (Scanner.Stands bytes 0 (.ofSource (.ofBytes bytes)) ∧
      ∀ s i, Scanner.Stands bytes i s →
        (∀ j, Scanner.Stands bytes j s → i = j) ∧
        (∀ test rounds, bytes.length < i + rounds → Utf8.advanceWhile test bytes rounds i =
          some (i + (Utf8.encode (s.rest.takeWhile test)).length)) ∧
        ∀ l t, s.next = .ok (l, t) →
          (l.lexeme ≠ .endOfInput →
            ∃ j, Scanner.Stands bytes j t ∧ i + 1 ≤ j ∧ j ≤ bytes.length) ∧
          (l.lexeme = .endOfInput →
            Scanner.Stands bytes bytes.length t ∧
              ∀ u, Relation.ReflTransGen Scanner.Calls t u → u = t ∧ u.next = .ok (l, t))) ∧
    ∃ p, (∀ fuel, 3 * bytes.length + 4 < fuel →
        Descent.formula fuel (.ofSource (.ofBytes bytes)) = some (parse (.ofBytes bytes), p)) ∧
      p.answers <+: (scan (.ofBytes bytes)).answers ∧
      (∀ answer ∈ p.answers.dropLast, ∃ l, answer = .ok l ∧ l.lexeme ≠ .endOfInput) ∧
      p.answers.length ≤ bytes.length + 1 := by
  refine ⟨⟨Scanner.stands_ofSource bytes, ?_⟩, ?_⟩
  · intro s i hs
    refine ⟨fun j hj => hs.unique hj, ?_, ?_⟩
    · intro test rounds hrounds
      have hrest := hs.length_rest_le
      exact hs.advanceWhile_eq test (by omega)
    · intro l t hnext
      have htakes := Scanner.next_eq_ok_iff.mp hnext
      refine ⟨?_, ?_⟩
      · intro hl
        obtain ⟨j, hj, hle⟩ := hs.exists_of_takes htakes hl
        exact ⟨j, hj, hle, hj.within⟩
      · intro hl
        obtain ⟨hagain, _, _⟩ := Scanner.takes_of_finish htakes hl
        refine ⟨hs.finish htakes hl, ?_⟩
        intro u hu
        obtain rfl := Scanner.eq_of_calls_finish hagain hu
        exact ⟨rfl, Scanner.next_eq_ok_iff.mpr hagain⟩
  · obtain ⟨p, hformula, hstart⟩ := Descent.exists_formula_eq (.ofBytes bytes)
    have hchars := Source.length_chars_le bytes
    refine ⟨p, ?_, hstart, ?_, ?_⟩
    · have hlexemes : (scan (.ofBytes bytes)).lexemes.length ≤ _ :=
        Scanner.length_lexemes_run_le (.ofSource (.ofBytes bytes))
      have hrest : (Scanner.ofSource (.ofBytes bytes)).rest = (Source.ofBytes bytes).chars := rfl
      rw [hrest] at hlexemes
      intro fuel hfuel
      exact hformula fuel (by omega)
    · have hdropLast : p.answers.dropLast <+: (scan (.ofBytes bytes)).answers.dropLast := by
        refine List.prefix_of_prefix_length_le ((List.dropLast_prefix _).trans hstart)
          (List.dropLast_prefix _) ?_
        rw [List.length_dropLast, List.length_dropLast]
        exact Nat.sub_le_sub_right hstart.length_le 1
      intro answer hanswer
      exact Scanner.exists_of_mem_dropLast _ answer (hdropLast.subset hanswer)
    · have hanswers := Scanner.length_answers_run_le (.ofSource (.ofBytes bytes))
      exact Nat.le_trans hstart.length_le (Nat.le_trans hanswers (Nat.succ_le_succ hchars))

end Formula
