import Mathlib.Control.Monad.Basic
import Formula.Proofs.Acceptance
import Formula.Proofs.Lexing

/-!
# The first lexeme that cannot be continued

What has been read without an error can always be completed to a formula (`exists_completes`), and
what a reader refuses for another reason than depth can begin no formula at all
(`not_viable_of_feed_eq_error`). So the lexeme that a reader blames is the first that makes the
lexemes up to it hopeless, and it is blamed as soon as it is read: nothing behind it matters, and
nothing that is wrong with the text behind it is seen.

Viability takes no account of depth, so a formula that goes on has to be found outside the limit.
This is where the demand of a reader is used with a bound of its own.
-/

namespace Formula

/-- What is wrong with the grammar, as against the text or its depth. -/
def Cause.Grammatical : Cause → Prop
  | .unexpected _ | .expected _ _ | .unknownFunction _ | .invalidNumber _ => True
  | _ => False

/-- What is wrong with the text itself. -/
def Cause.Lexical : Cause → Prop
  | .malformedText | .strayCharacter _ | .exponentWithoutDigits => True
  | _ => False

/-- What begins a viable list is viable. -/
theorem Viable.of_prefix {ls ms : List Lexeme} (h : Viable ms) (hstart : ls <+: ms) :
    Viable ls := by
  obtain ⟨formula, hderives, hms⟩ := h
  exact ⟨formula, hderives, hstart.trans hms⟩

namespace Reader

/-! ## Whatever has been read can be completed -/

/-- Closing every parenthesis closes every frame. -/
theorem exists_closes (bound : Nat) (frames : List Frame) :
    ∃ ls, Closes bound (closeUnit frames) ls := by
  induction frames with
  | nil => exact ⟨[], .done⟩
  | cons frame outer ih =>
      obtain ⟨ls, hls⟩ := ih
      cases frame with
      | parenthesis => exact ⟨.rightParen :: ls, .close hls⟩
      | negation => exact ⟨ls, hls⟩

/-- **Every reader that can be reached can be completed**, given room for one more unit. -/
theorem exists_completes {r : Reader} (hw : r.WellFormed) :
    ∃ ls, Completes (nestingLimit + 1) r ls := by
  obtain ⟨phase, frames⟩ := r
  obtain ⟨ls, hls⟩ := exists_closes (nestingLimit + 1) frames
  cases phase with
  | operand =>
      have hroom : nestingLimit + 1 - frames.length = nestingLimit - frames.length + 1 :=
        Nat.succ_sub hw.bounded
      refine ⟨.name "x" :: ls, [.name "x"], ls, rfl, ?_, hls⟩
      rw [hroom]
      exact .name "x"
  | name text => exact ⟨ls, Or.inl hls⟩
  | operator =>
      rw [hw.settled rfl] at hls
      exact ⟨ls, hls⟩

/-! ## Runs and demands -/

theorem wellFormed_of_feedAll {ls : List Located} :
    ∀ {r next : Reader} {ts : List Token}, r.feedAll ls = .ok (ts, next) → r.WellFormed →
      next.WellFormed := by
  induction ls with
  | nil =>
      intro r next ts h hw
      cases h
      exact hw
  | cons l ls ih =>
      intro r last ts h hw
      obtain ⟨_, next, _, hstep, hmore, _⟩ := feedAll_cons_eq_ok_iff.mp h
      exact ih hmore (wellFormed_of_step hstep hw)

/-- What completes the reader behind some lexemes completes, with them, the reader before. -/
theorem completes_of_feedAll {bound : Nat} (hb : nestingLimit ≤ bound) {ls : List Located}
    (hls : ∀ l ∈ ls, l.lexeme ≠ .endOfInput) :
    ∀ {r next : Reader} {ts : List Token}, r.feedAll ls = .ok (ts, next) → r.WellFormed →
      ∀ {rest : List Lexeme}, Completes bound next rest →
        Completes bound r (ls.map Located.lexeme ++ rest) := by
  induction ls with
  | nil =>
      intro r next ts h _ rest hc
      cases h
      exact hc
  | cons l ls ih =>
      intro r last ts h hw rest hc
      obtain ⟨hl, hmore⟩ := List.forall_mem_cons.mp hls
      obtain ⟨_, next, _, hstep, hfeed, _⟩ := feedAll_cons_eq_ok_iff.mp h
      exact completes_of_step hb hstep hw hl (ih hmore hfeed (wellFormed_of_step hstep hw) hc)

/-- A reader that has taken a lexeme had room for it. -/
theorem room_of_step {r next : Reader} {l : Lexeme} {ts : List Token} (h : Step r l ts next)
    (hoperand : r.phase = .operand) : r.frames.length ≠ nestingLimit := by
  cases h with
  | integer hroom | decimal hroom | group hroom | negation hroom | name _ hroom => exact hroom
  | call | bare | operator | close | finish => exact absurd hoperand (by simp)

/-- What completes a reader is completed by the reader behind the lexemes it starts with. -/
theorem completes_append_of_feedAll {bound : Nat} {ls : List Located} :
    ∀ {r next : Reader} {ts : List Token}, r.feedAll ls = .ok (ts, next) → r.WellFormed →
      ∀ {rest : List Lexeme}, Completes bound r (ls.map Located.lexeme ++ rest) →
        Completes bound next rest := by
  induction ls with
  | nil =>
      intro r next ts h _ rest hc
      cases h
      exact hc
  | cons l ls ih =>
      intro r last ts h hw rest hc
      obtain ⟨_, next, _, hstep, hfeed, _⟩ := feedAll_cons_eq_ok_iff.mp h
      -- a reader takes one step only, so the step that the demand allows is the one taken
      obtain ⟨_, other, hother, hnext⟩ := step_of_completes hw (room_of_step hstep) hc
      have hsame := (feed_eq_ok_iff.mpr hother).symm.trans (feed_eq_ok_iff.mpr hstep)
      cases hsame
      exact ih hfeed (wellFormed_of_step hstep hw) hnext

/-! ## What is refused -/

/-- A run that fails is a run that succeeds, and a lexeme that is refused behind it. -/
theorem exists_of_feedAll_eq_error {ls : List Located} {e : SyntaxError} :
    ∀ {r : Reader}, r.feedAll ls = .error e →
      ∃ before l after ts next, ls = before ++ l :: after ∧ r.feedAll before = .ok (ts, next) ∧
        next.feed l.lexeme = .error e.cause ∧ e.position = l.position := by
  induction ls with
  | nil =>
      intro r h
      exact absurd h (by simp [feedAll])
  | cons l ls ih =>
      intro r h
      rw [feedAll] at h
      split at h
      · rename_i cause hfeed
        cases h
        exact ⟨[], l, ls, [], r, rfl, rfl, hfeed, rfl⟩
      · rename_i ts next hfeed
        cases hmore : next.feedAll ls with
        | ok read => rw [hmore] at h; exact absurd h (by simp [Except.map])
        | error e' =>
            rw [hmore] at h
            cases h
            obtain ⟨before, m, after, us, last, rfl, hbefore, hm, hposition⟩ := ih hmore
            have hstep := feed_eq_ok_iff.mp hfeed
            exact ⟨l :: before, m, after, ts ++ us, last, rfl,
              feedAll_cons_eq_ok_iff.mpr ⟨ts, next, us, hstep, hbefore, rfl⟩, hm, hposition⟩

/-- A lexeme that is refused behind a run that succeeds is blamed, whatever follows. -/
theorem feedAll_eq_error_of_feed {before : List Located} {l : Located} {mid : Reader}
    {cause : Cause} (after : List Located) (hrefused : mid.feed l.lexeme = .error cause) :
    ∀ {r : Reader} {ts : List Token}, r.feedAll before = .ok (ts, mid) →
      r.feedAll (before ++ l :: after) = .error ⟨cause, l.position⟩ := by
  induction before with
  | nil =>
      intro r ts h
      cases h
      rw [List.nil_append, feedAll, hrefused]
  | cons first before ih =>
      intro r ts h
      obtain ⟨_, next, _, hstep, hmore, _⟩ := feedAll_cons_eq_ok_iff.mp h
      rw [List.cons_append, feedAll, feed_eq_ok_iff.mpr hstep]
      dsimp only
      rw [ih hmore]
      rfl

theorem cause_of_feedOperator_eq_error {frames : List Frame} {l : Lexeme} {cause : Cause}
    (h : feedOperator frames l = .error cause) : cause.Grammatical := by
  unfold feedOperator at h
  split at h
  · exact absurd h (by simp)
  · exact absurd h (by simp)
  · exact absurd h (by simp)
  · cases h
    trivial
  · cases h
    trivial

theorem cause_of_feedName_eq_error {frames : List Frame} {text : String} {l : Lexeme}
    {cause : Cause} (h : feedName text frames l = .error cause) : cause.Grammatical := by
  unfold feedName at h
  split at h
  · split at h
    · exact absurd h (by simp)
    · cases h
      trivial
  · cases hread : feedOperator (closeUnit frames) l with
    | ok read => rw [hread] at h; exact absurd h (by simp [Except.map])
    | error cause' =>
        rw [hread] at h
        cases h
        exact cause_of_feedOperator_eq_error hread

theorem cause_of_feedOperand_eq_error {frames : List Frame} {l : Lexeme} {cause : Cause}
    (h : feedOperand frames l = .error cause) : cause.Grammatical ∨ cause = .nestedTooDeep := by
  unfold feedOperand at h
  split at h
  · cases h
    exact Or.inr rfl
  · split at h
    · split at h
      · exact absurd h (by simp)
      · cases h
        exact Or.inl trivial
    · split at h
      · exact absurd h (by simp)
      · cases h
        exact Or.inl trivial
    · exact absurd h (by simp)
    · exact absurd h (by simp)
    · exact absurd h (by simp)
    · cases h
      exact Or.inl trivial

/-- A reader never speaks of the text itself. -/
theorem cause_of_feed_eq_error {r : Reader} {l : Lexeme} {cause : Cause}
    (h : r.feed l = .error cause) : cause.Grammatical ∨ cause = .nestedTooDeep := by
  obtain ⟨phase, frames⟩ := r
  cases phase with
  | operand => exact cause_of_feedOperand_eq_error h
  | name text => exact Or.inl (cause_of_feedName_eq_error h)
  | operator => exact Or.inl (cause_of_feedOperator_eq_error h)

/-- Where there is no room for a unit, nothing else is found wrong. -/
theorem room_of_feed_eq_error {r : Reader} {l : Lexeme} {cause : Cause}
    (h : r.feed l = .error cause) (hcause : cause.Grammatical) (hoperand : r.phase = .operand) :
    r.frames.length ≠ nestingLimit := by
  obtain ⟨phase, frames⟩ := r
  cases hoperand
  intro hfull
  have hfull : frames.length = nestingLimit := hfull
  simp only [feed, feedOperand, hfull, if_true] at h
  cases h
  exact hcause

/-- **What is refused for its grammar begins no formula**, at any depth. -/
theorem not_viable_of_feed_eq_error {before : List Located} {l : Located} {r : Reader}
    {ts : List Token} {cause : Cause} (hbefore : start.feedAll before = .ok (ts, r))
    (h : r.feed l.lexeme = .error cause) (hcause : cause.Grammatical) :
    ¬Viable ((before ++ [l]).map Located.lexeme) := by
  intro hviable
  obtain ⟨formula, ⟨n, hderives⟩, rest, hrest⟩ := hviable
  have hw : r.WellFormed := wellFormed_of_feedAll hbefore wellFormed_start
  have hrefused : ¬∃ us next, Step r l.lexeme us next := by
    intro hstep
    obtain ⟨us, next, hstep⟩ := hstep
    rw [feed_eq_ok_iff.mpr hstep] at h
    exact absurd h (by simp)
  have hdemand := completes_start_iff.mpr hderives
  rw [List.map_append, List.map_singleton, List.append_assoc, List.singleton_append] at hrest
  rcases List.eq_nil_or_concat rest with rfl | ⟨rest, last, rfl⟩
  · -- the lexeme is the end of the input, and the formula is complete in front of it
    obtain ⟨hformula, hend⟩ := List.append_inj' hrest rfl
    rw [← hformula, ← List.append_nil (before.map _)] at hdemand
    have hnil := completes_append_of_feedAll hbefore wellFormed_start hdemand
    rw [(List.cons.inj hend).1] at hrefused
    exact hrefused (completes_nil_iff.mp hnil)
  · -- the lexeme is one of the formula's, and the formula goes on behind it
    rw [List.concat_eq_append, ← List.cons_append, ← List.append_assoc] at hrest
    obtain ⟨hformula, _⟩ := List.append_inj' hrest rfl
    rw [← hformula] at hdemand
    have hcons := completes_append_of_feedAll hbefore wellFormed_start hdemand
    obtain ⟨us, next, hstep, _⟩ :=
      step_of_completes hw (room_of_feed_eq_error h hcause) hcons
    exact hrefused ⟨us, next, hstep⟩

/-- **What has been read is viable.** -/
theorem viable_of_feedAll {before : List Located} {r : Reader} {ts : List Token}
    (h : start.feedAll before = .ok (ts, r)) (hbefore : ∀ l ∈ before, l.lexeme ≠ .endOfInput) :
    Viable (before.map Located.lexeme) := by
  obtain ⟨rest, hrest⟩ := exists_completes (wellFormed_of_feedAll h wellFormed_start)
  have hcompletes := completes_of_feedAll (Nat.le_succ _) hbefore h wellFormed_start hrest
  refine ⟨_, ⟨_, completes_start_iff.mp hcompletes⟩, ?_⟩
  rw [List.append_assoc]
  exact List.prefix_append _ _

end Reader

/-! ## Scans -/

namespace Scanner

/-- What a scanner finds wrong is in the text. -/
theorem lexical_of_next_eq_error {s : Scanner} {e : SyntaxError} (h : s.next = .error e) :
    e.cause.Lexical := by
  unfold next takeLexeme at h
  split at h
  · split at h
    · cases h
      trivial
    · exact absurd h (by simp)
  · split at h
    · cases h
      trivial
    · split at h <;> cases h <;> trivial
    · split at h
      · cases h
        trivial
      · exact absurd h (by simp)

theorem lexical_of_run {s : Scanner} {e : SyntaxError} (h : s.run.failure = some e) :
    e.cause.Lexical := by
  fun_induction Scanner.run s with
  | case1 s e' hnext =>
      cases h
      exact lexical_of_next_eq_error hnext
  | case2 s l t hnext hend => exact absurd h (by simp)
  | case3 s l t hnext hne more ih => exact ih h

/-- A run that fails has not seen the end of the input. -/
theorem ne_endOfInput_of_failure {s : Scanner} {e : SyntaxError} (h : s.run.failure = some e) :
    ∀ l ∈ s.run.lexemes, l.lexeme ≠ .endOfInput := by
  fun_induction Scanner.run s with
  | case1 s e' hnext => simp
  | case2 s l t hnext hend => exact absurd h (by simp)
  | case3 s l t hnext hne more ih => exact List.forall_mem_cons.mpr ⟨hne, ih h⟩

/-- Nothing is listed behind the end of the input. -/
theorem ne_endOfInput_of_split {s : Scanner} {before after : List Located} {l : Located}
    (h : s.run.lexemes = before ++ l :: after) : ∀ m ∈ before, m.lexeme ≠ .endOfInput := by
  cases hfailure : s.run.failure with
  | some e =>
      intro m hm
      apply ne_endOfInput_of_failure hfailure
      rw [h]
      exact List.mem_append_left _ hm
  | none =>
      obtain ⟨ls, last, hlexemes, hls, _⟩ := exists_end_of_run hfailure
      have hall : before ++ l :: after = ls ++ [last] := h.symm.trans hlexemes
      have hlength := congrArg List.length hall
      simp only [List.length_append, List.length_cons, List.length_nil] at hlength
      have hbefore : before <+: ls :=
        List.prefix_of_prefix_length_le ⟨_, hall⟩ (List.prefix_append ls [last]) (by omega)
      exact fun m hm => hls m (hbefore.subset hm)

end Scanner

/-- The lexeme at the index is the one that leaves no hope for the lexemes up to it. -/
structure Breaks (lexemes : List Located) (i : Nat) (l : Located) : Prop where
  here : lexemes[i]? = some l
  /-- Without it they begin some formula, -/
  viable : Viable ((lexemes.take i).map Located.lexeme)
  /-- and with it they begin none. -/
  hopeless : ¬Viable ((lexemes.take (i + 1)).map Located.lexeme)

theorem Breaks.le {lexemes : List Located} {i j : Nat} {l m : Located} (h : Breaks lexemes i l)
    (h' : Breaks lexemes j m) : i ≤ j := by
  apply Nat.le_of_not_lt
  intro hlt
  exact h'.hopeless (h.viable.of_prefix ((List.take_prefix_take_left hlt).map _))

theorem Breaks.unique {lexemes : List Located} {i j : Nat} {l m : Located}
    (h : Breaks lexemes i l) (h' : Breaks lexemes j m) : j = i :=
  Nat.le_antisymm (h'.le h) (h.le h')

theorem breaks_of_feedAll {s : Scanner} {e : SyntaxError}
    (h : Reader.start.feedAll s.run.lexemes = .error e) (hcause : e.cause.Grammatical) :
    ∃ i l, Breaks s.run.lexemes i l ∧ e.position = l.position := by
  obtain ⟨before, l, after, ts, r, hsplit, hbefore, hrefused, hposition⟩ :=
    Reader.exists_of_feedAll_eq_error h
  refine ⟨before.length, l, ⟨?_, ?_, ?_⟩, hposition⟩
  · simp [hsplit]
  · rw [hsplit, List.take_left]
    exact Reader.viable_of_feedAll hbefore (Scanner.ne_endOfInput_of_split hsplit)
  · have htake : (before ++ l :: after).take (before.length + 1) = before ++ [l] := by
      simp [List.take_append, List.take_of_length_le]
    rw [hsplit, htake]
    exact Reader.not_viable_of_feed_eq_error hbefore hrefused hcause

/-- A reader that fails blames the grammar or the depth. -/
theorem cause_of_feedAll_eq_error {ls : List Located} {e : SyntaxError}
    (h : Reader.start.feedAll ls = .error e) :
    e.cause.Grammatical ∨ e.cause = .nestedTooDeep := by
  obtain ⟨_, _, _, _, _, _, _, hrefused, _⟩ := Reader.exists_of_feedAll_eq_error h
  exact Reader.cause_of_feed_eq_error hrefused

/-- A formula is refused by the reader, or behind all that it could read by the scanner. -/
theorem Scan.tokens_eq_error_iff {s : Scan} {e : SyntaxError} :
    s.tokens = .error e ↔
      Reader.start.feedAll s.lexemes = .error e ∨
        (∃ read, Reader.start.feedAll s.lexemes = .ok read) ∧ s.failure = some e := by
  unfold Scan.tokens
  cases hfeed : Reader.start.feedAll s.lexemes with
  | error e' => simp
  | ok read =>
      cases hfailure : s.failure with
      | none => simp
      | some e' => simp

theorem not_grammatical_of_lexical {cause : Cause} (h : cause.Lexical) : ¬cause.Grammatical := by
  intro hgrammatical
  cases cause with
  | malformedText | strayCharacter | exponentWithoutDigits => exact hgrammatical
  | unexpected | expected | unknownFunction | invalidNumber | nestedTooDeep => exact h

/--
**An error of the grammar is blamed on the first lexeme that leaves no hope**, and there is one such
lexeme only. An error of the text is reported, unless the depth is, just when all in front of it
begins some formula.
-/
theorem parse_error_blames_first {bytes : List UInt8} :
    (∀ e, parse (.ofBytes bytes) = .error e → e.cause.Grammatical →
      ∃ i l, Breaks (scan (.ofBytes bytes)).lexemes i l ∧ e.position = l.position ∧
        ∀ j m, Breaks (scan (.ofBytes bytes)).lexemes j m → j = i) ∧
    (∀ e, (scan (.ofBytes bytes)).failure = some e →
      (∀ p, parse (.ofBytes bytes) ≠ .error ⟨.nestedTooDeep, p⟩) →
      (parse (.ofBytes bytes) = .error e ↔
        Viable ((scan (.ofBytes bytes)).lexemes.map Located.lexeme))) := by
  rw [parse, scan]
  generalize Scanner.ofSource (.ofBytes bytes) = s
  refine ⟨?_, ?_⟩
  · intro e h hcause
    rcases Scan.tokens_eq_error_iff.mp h with hfeed | ⟨_, hfailure⟩
    · obtain ⟨i, l, hbreaks, hposition⟩ := breaks_of_feedAll hfeed hcause
      exact ⟨i, l, hbreaks, hposition, fun j m h' => hbreaks.unique h'⟩
    · exact absurd hcause (not_grammatical_of_lexical (Scanner.lexical_of_run hfailure))
  · intro e hfailure hdepth
    have hlexical := Scanner.lexical_of_run hfailure
    have hend := Scanner.ne_endOfInput_of_failure hfailure
    refine ⟨?_, ?_⟩
    · intro h
      rcases Scan.tokens_eq_error_iff.mp h with hfeed | ⟨⟨read, hread⟩, _⟩
      · -- a reader's own error is never one of the text
        rcases cause_of_feedAll_eq_error hfeed with hcause | hcause
        · exact absurd hcause (not_grammatical_of_lexical hlexical)
        · rw [hcause] at hlexical
          exact False.elim hlexical
      · exact Reader.viable_of_feedAll hread hend
    · intro hviable
      cases hfeed : Reader.start.feedAll s.run.lexemes with
      | ok read => exact Scan.tokens_eq_error_iff.mpr (Or.inr ⟨⟨read, hfeed⟩, hfailure⟩)
      | error e' =>
          rcases cause_of_feedAll_eq_error hfeed with hcause | hcause
          · obtain ⟨i, l, hbreaks, _⟩ := breaks_of_feedAll hfeed hcause
            exact absurd (hviable.of_prefix ((List.take_prefix _ _).map _)) hbreaks.hopeless
          · have hdeep : s.run.tokens = .error e' := Scan.tokens_eq_error_iff.mpr (Or.inl hfeed)
            obtain ⟨cause, position⟩ := e'
            cases hcause
            exact absurd hdeep (hdepth position)

/-- Of `x 5 &` the `5` is blamed, though a stray character follows; of `x + &` that character is. -/
theorem parse_error_blames_first_of_two :
    (∃ i l, Breaks (scan (.ofBytes [120, 32, 53, 32, 38])).lexemes i l ∧ ⟨1, 3⟩ = l.position ∧
      ∀ j m, Breaks (scan (.ofBytes [120, 32, 53, 32, 38])).lexemes j m → j = i) ∧
    Viable ((scan (.ofBytes [120, 32, 43, 32, 38])).lexemes.map Located.lexeme) := by
  have hfive : parse (.ofBytes [120, 32, 53, 32, 38]) =
      .error ⟨.expected .endOfInput (.integer "5"), ⟨1, 3⟩⟩ := by decide +kernel
  have hstray : parse (.ofBytes [120, 32, 43, 32, 38]) = .error ⟨.strayCharacter '&', ⟨1, 5⟩⟩ := by
    decide +kernel
  have hfailure : (scan (.ofBytes [120, 32, 43, 32, 38])).failure =
      some ⟨.strayCharacter '&', ⟨1, 5⟩⟩ := by decide +kernel
  refine ⟨parse_error_blames_first.1 _ hfive trivial, ?_⟩
  exact (parse_error_blames_first.2 _ hfailure (by simp [hstray])).mp hstray

end Formula
