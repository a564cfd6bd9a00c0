import Formula.Proofs.Completion
import Formula.Proofs.Phrase

/-!
# What is accepted, and as what

A text is accepted just when its lexemes reach the end of the input and are a formula, and then its
tokens are what those lexemes stand for, one for each.

The first half is the run of the reader, which `Completion` settles. The second rests on one fact
about a step: a name leaves the reader one lexeme late, so the tokens that have gone out so far are
those of the lexemes read so far, less a name that is held back.
-/

namespace Formula

/-- The end of the input stands for nothing, and changes nothing in front of it. -/
theorem tokensOf_append_endOfInput (ls : List Lexeme) :
    ∀ fresh, tokensOf fresh (ls ++ [.endOfInput]) = tokensOf fresh ls := by
  induction ls with
  | nil => intro fresh; rfl
  | cons l ls ih =>
      intro fresh
      rw [List.cons_append, tokensOf, tokensOf, ih]
      -- only a last name could see the difference, and it sees no parenthesis either way
      cases ls with
      | nil => cases l <;> rfl
      | cons next ls => rfl

namespace Reader

/-- The lexeme that has been read and has no token yet. -/
def held (r : Reader) : List Lexeme :=
  match r.phase with
  | .name text => [.name text]
  | _ => []

/-- Whether a unit must start at the first lexeme that has no token yet. -/
def fresh (r : Reader) : Bool :=
  match r.phase with
  | .operator => false
  | _ => true

/-- **A step sends out the tokens of what it has taken, less what it holds back.** -/
theorem tokensOf_step {r next : Reader} {l : Lexeme} {ts : List Token} (h : Step r l ts next)
    (ls : List Lexeme) :
    tokensOf r.fresh (r.held ++ l :: ls) = ts ++ tokensOf next.fresh (next.held ++ ls) := by
  induction h with
  | integer _ hvalue => exact tokensOf_integer hvalue _ _
  | decimal _ hvalue => exact tokensOf_decimal hvalue _ _
  | group _ | negation _ | name _ _ | close | finish => rfl
  | call hf => exact tokensOf_call hf _ _
  | @bare frames text l ts next hstep ih =>
      have hl : l ≠ .leftParen := ne_leftParen_of_step hstep
      have hbare : tokensOf true (.name text :: l :: ls) =
          Token.ofName text :: tokensOf false (l :: ls) := tokensOf_bare (by simpa using hl) _ _
      exact hbare.trans (congrArg _ ih)
  | operator op => exact tokensOf_operator op _

theorem tokensOf_feedAll {ls : List Located} :
    ∀ {r last : Reader} {ts : List Token}, r.feedAll ls = .ok (ts, last) →
      tokensOf r.fresh (r.held ++ ls.map Located.lexeme) = ts ++ tokensOf last.fresh last.held := by
  induction ls with
  | nil =>
      intro r last ts h
      cases h
      simp
  | cons l ls ih =>
      intro r last ts h
      obtain ⟨first, next, more, hstep, hmore, rfl⟩ := feedAll_cons_eq_ok_iff.mp h
      rw [List.map_cons, tokensOf_step hstep, ih hmore, List.append_assoc]

/-- Reading the end of the input leaves nothing to hold back. -/
theorem held_of_step_endOfInput {r next : Reader} {ts : List Token}
    (h : Step r .endOfInput ts next) : next.held = [] := by
  generalize hl : Lexeme.endOfInput = l at h
  induction h with
  | bare _ ih => exact ih hl
  | finish => rfl
  | integer | decimal | group | negation | name | call | operator | close =>
      exact absurd hl (by simp)

theorem held_of_feedAll {ls : List Located} {last : Located} (hlast : last.lexeme = .endOfInput) :
    ∀ {r reader : Reader} {ts : List Token}, r.feedAll (ls ++ [last]) = .ok (ts, reader) →
      reader.held = [] := by
  induction ls with
  | nil =>
      intro r reader ts h
      obtain ⟨_, next, _, hstep, hmore, _⟩ := feedAll_cons_eq_ok_iff.mp h
      cases hmore
      exact held_of_step_endOfInput (hlast ▸ hstep)
  | cons l ls ih =>
      intro r reader ts h
      obtain ⟨_, next, _, _, hmore, _⟩ := feedAll_cons_eq_ok_iff.mp h
      exact ih hmore

/-- **A whole run reads a formula, and reads it as its lexemes stand.** -/
theorem feedAll_start_eq_ok_iff {ls : List Located} {last : Located}
    (hls : ∀ l ∈ ls, l.lexeme ≠ .endOfInput) (hlast : last.lexeme = .endOfInput)
    {ts : List Token} :
    (∃ reader, start.feedAll (ls ++ [last]) = .ok (ts, reader)) ↔
      Derives .expression nestingLimit (ls.map Located.lexeme) ∧
        ts = tokensOf true (ls.map Located.lexeme) := by
  have hrun := feedAll_eq_ok_iff_completes hls hlast wellFormed_start
  rw [completes_start_iff] at hrun
  have htokens : ∀ {us : List Token} {reader : Reader},
      start.feedAll (ls ++ [last]) = .ok (us, reader) →
      us = tokensOf true (ls.map Located.lexeme) := by
    intro us reader hfeed
    have hfed := tokensOf_feedAll hfeed
    rw [held_of_feedAll hlast hfeed, List.map_append, List.map_singleton, hlast, tokensOf_nil,
      List.append_nil] at hfed
    exact hfed.symm.trans (tokensOf_append_endOfInput _ true)
  refine ⟨?_, ?_⟩
  · intro h
    obtain ⟨reader, hfeed⟩ := h
    exact ⟨hrun.mp ⟨ts, reader, hfeed⟩, htokens hfeed⟩
  · intro h
    obtain ⟨hderives, rfl⟩ := h
    -- the run that the grammar allows can only have sent out these tokens
    obtain ⟨us, reader, hfeed⟩ := hrun.mpr hderives
    have hus : us = tokensOf true (ls.map Located.lexeme) := htokens hfeed
    exact ⟨reader, hus ▸ hfeed⟩

end Reader

/-- The scan reaches the end of the input, behind these lexemes. -/
def Scan.Ends (s : Scan) (ls : List Lexeme) : Prop :=
  s.failure = none ∧ s.lexemes.map Located.lexeme = ls ++ [.endOfInput]

/-- A run without a failure ends in the end of the input, and has it nowhere else. -/
theorem Scanner.exists_end_of_run {s : Scanner} (h : s.run.failure = none) :
    ∃ ls last, s.run.lexemes = ls ++ [last] ∧ (∀ l ∈ ls, l.lexeme ≠ .endOfInput) ∧
      last.lexeme = .endOfInput := by
  fun_induction Scanner.run s with
  | case1 s e hnext => exact absurd h (by simp)
  | case2 s l t hnext hend => exact ⟨[], l, rfl, by simp, hend⟩
  | case3 s l t hnext hne more ih =>
      obtain ⟨ls, last, hlexemes, hls, hlast⟩ := ih h
      refine ⟨l :: ls, last, ?_, ?_, hlast⟩
      · rw [List.cons_append, ← hlexemes]
      · intro l' hl'
        rcases List.mem_cons.mp hl' with rfl | hmem
        · exact hne
        · exact hls l' hmem

theorem Scan.tokens_eq_ok_iff {s : Scan} {tokens : List Token} :
    s.tokens = .ok tokens ↔
      s.failure = none ∧ ∃ last, Reader.start.feedAll s.lexemes = .ok (tokens, last) := by
  unfold Scan.tokens
  refine ⟨?_, ?_⟩
  · intro h
    split at h
    · exact absurd h (by simp)
    · exact absurd h (by simp)
    · rename_i ts last hfeed hnone
      cases h
      exact ⟨hnone, last, hfeed⟩
  · intro h
    obtain ⟨hnone, last, hfeed⟩ := h
    rw [hnone, hfeed]

/-- A scan is accepted just when it ends behind a formula, and is read as its lexemes stand. -/
theorem Scanner.tokens_run_eq_ok_iff {s : Scanner} {tokens : List Token} :
    s.run.tokens = .ok tokens ↔
      ∃ ls, s.run.Ends ls ∧ Derives .expression nestingLimit ls ∧ tokens = tokensOf true ls := by
  rw [Scan.tokens_eq_ok_iff]
  refine ⟨?_, ?_⟩
  · intro h
    obtain ⟨hnone, hfeed⟩ := h
    obtain ⟨ls, last, hlexemes, hls, hlast⟩ := exists_end_of_run hnone
    rw [hlexemes, Reader.feedAll_start_eq_ok_iff hls hlast] at hfeed
    refine ⟨ls.map Located.lexeme, ⟨hnone, ?_⟩, hfeed⟩
    rw [hlexemes, List.map_append, List.map_singleton, hlast]
  · intro h
    obtain ⟨ls, ⟨hnone, hends⟩, hread⟩ := h
    obtain ⟨before, last, hlexemes, hbefore, hlast⟩ := exists_end_of_run hnone
    rw [hlexemes, List.map_append, List.map_singleton, hlast] at hends
    -- both lists end in the end of the input, so they agree in front of it
    obtain ⟨rfl, _⟩ := List.append_inj' hends rfl
    refine ⟨hnone, ?_⟩
    rw [hlexemes, Reader.feedAll_start_eq_ok_iff hbefore hlast]
    exact hread

/-- What is read is a phrase, with no more units open than are allowed. -/
theorem phrase_of_parse {source : Source} {tokens : List Token}
    (h : parse source = .ok tokens) : Phrase .expression nestingLimit tokens := by
  obtain ⟨ls, _, hderives, rfl⟩ := Scanner.tokens_run_eq_ok_iff.mp h
  exact (phrase_of_derives hderives).1

/-- **A text is accepted just when it is a formula, and is read as its lexemes stand.** -/
theorem parse_eq_ok_iff {bytes : List UInt8} {tokens : List Token} :
    parse (.ofBytes bytes) = .ok tokens ↔
      ∃ ls, (scan (.ofBytes bytes)).Ends ls ∧ Derives .expression nestingLimit ls ∧
        tokens = tokensOf true ls ∧ tokens.length = ls.length := by
  rw [parse, scan, Scanner.tokens_run_eq_ok_iff]
  refine ⟨?_, ?_⟩
  · intro h
    obtain ⟨ls, hends, hderives, rfl⟩ := h
    obtain ⟨_, hlength⟩ := phrase_of_derives hderives
    exact ⟨ls, hends, hderives, rfl, hlength⟩
  · intro h
    obtain ⟨ls, hends, hderives, htokens, _⟩ := h
    exact ⟨ls, hends, hderives, htokens⟩

end Formula
