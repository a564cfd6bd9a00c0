import Formula.Grammar

/-!
# What may still follow

A reader keeps only a phase and a stack of frames. This file says what those two are worth: the
lexemes that complete a formula of which so much has been read. `Closes` is the demand of the
frames once a unit has ended, and `Completes` adds what the phase asks for in front of that.

Reading one lexeme takes exactly that lexeme off the demand: forward in `completes_of_step`,
backward in `step_of_completes`. What a whole run accepts is then one induction over the lexemes,
and at the start of a formula the demand is the grammar itself.

The demand carries a bound on the units open at once which need not be the reader's own. Read with
a greater bound, it tells what could follow if only the reader had room.
-/

namespace Formula

/-- No phrase is without lexemes. -/
theorem Derives.ne_nil {category : Category} {n : Nat} {ls : List Lexeme}
    (h : Derives category n ls) : ls ≠ [] := by
  induction h with
  | single _ ih => exact ih
  | integer | decimal | name | group | negation | call | chain => simp

theorem Derives.succ {category : Category} {n : Nat} {ls : List Lexeme}
    (h : Derives category n ls) : Derives category (n + 1) ls := by
  induction h with
  | integer hliteral => exact .integer hliteral
  | decimal hliteral => exact .decimal hliteral
  | name text => exact .name text
  | group _ ih => exact .group ih
  | negation _ ih => exact .negation ih
  | call hf _ ih => exact .call hf ih
  | single _ ih => exact .single ih
  | chain _ _ ih₁ ih₂ => exact .chain ih₁ ih₂

/-- More units may be open than are. -/
theorem Derives.mono {category : Category} {n m : Nat} {ls : List Lexeme}
    (h : Derives category n ls) (hle : n ≤ m) : Derives category m ls := by
  induction hle with
  | refl => exact h
  | step _ ih => exact ih.succ

namespace Reader

/-! ## Frames -/

@[simp] theorem closeUnit_nil : closeUnit [] = [] := rfl

@[simp] theorem closeUnit_parenthesis (outer : List Frame) :
    closeUnit (.parenthesis :: outer) = .parenthesis :: outer := rfl

@[simp] theorem closeUnit_negation (outer : List Frame) :
    closeUnit (.negation :: outer) = closeUnit outer := rfl

/-- A closed unit leaves nothing open, or else a parenthesis innermost. -/
theorem closeUnit_cases (frames : List Frame) :
    closeUnit frames = [] ∨ ∃ outer, closeUnit frames = .parenthesis :: outer := by
  induction frames with
  | nil => exact Or.inl rfl
  | cons frame outer ih =>
      cases frame with
      | parenthesis => exact Or.inr ⟨outer, rfl⟩
      | negation => exact ih

@[simp] theorem closeUnit_closeUnit (frames : List Frame) :
    closeUnit (closeUnit frames) = closeUnit frames := by
  rcases closeUnit_cases frames with h | ⟨outer, h⟩ <;> rw [h] <;> rfl

theorem length_closeUnit_le (frames : List Frame) :
    (closeUnit frames).length ≤ frames.length := (List.dropWhile_sublist _).length_le

/-- What every reader that can be reached satisfies. -/
structure WellFormed (r : Reader) : Prop where
  /-- No minus sign waits behind a unit that has ended. -/
  settled : r.phase = .operator → closeUnit r.frames = r.frames
  /-- No more units are open than are allowed. -/
  bounded : r.frames.length ≤ nestingLimit
  /-- A name that has been read is one more. -/
  room : ∀ text, r.phase = .name text → r.frames.length < nestingLimit

theorem wellFormed_start : start.WellFormed where
  settled := by intro _; rfl
  bounded := Nat.zero_le _
  room := by intro text h; exact absurd h (by simp [start])

theorem wellFormed_closeUnit {frames : List Frame} (h : frames.length ≤ nestingLimit) :
    WellFormed ⟨.operator, closeUnit frames⟩ where
  settled := by intro _; exact closeUnit_closeUnit frames
  bounded := Nat.le_trans (length_closeUnit_le frames) h
  room := by intro text h; exact absurd h (by simp)

theorem wellFormed_operand {frames : List Frame} (h : frames.length ≤ nestingLimit) :
    WellFormed ⟨.operand, frames⟩ where
  settled := by intro h; exact absurd h (by simp)
  bounded := h
  room := by intro text h; exact absurd h (by simp)

/-! ## The demand -/

/-- The lexemes complete a formula in which a unit has just ended inside these frames. -/
inductive Closes (bound : Nat) : List Frame → List Lexeme → Prop where
  | done : Closes bound [] []
  | operator {op : Operator} {frames : List Frame} {unit rest : List Lexeme} :
      Derives .unit (bound - frames.length) unit → Closes bound frames rest →
      Closes bound frames (.operator op :: unit ++ rest)
  | close {outer : List Frame} {rest : List Lexeme} :
      Closes bound (closeUnit outer) rest →
      Closes bound (.parenthesis :: outer) (.rightParen :: rest)

/-- The lexemes complete a formula that has been read so far. -/
def Completes (bound : Nat) : Reader → List Lexeme → Prop
  | ⟨.operand, frames⟩, ls =>
    ∃ unit rest, ls = unit ++ rest ∧ Derives .unit (bound - frames.length) unit ∧
      Closes bound (closeUnit frames) rest
  | ⟨.name text, frames⟩, ls =>
    Closes bound (closeUnit frames) ls ∨
      ∃ argument rest, ls = .leftParen :: argument ++ .rightParen :: rest ∧
        (∃ f : Function, f.name = text) ∧
        Derives .expression (bound - (frames.length + 1)) argument ∧
        Closes bound (closeUnit frames) rest
  | ⟨.operator, frames⟩, ls => Closes bound frames ls

/-! ## Expressions in front of what closes them -/

/-- An expression is its first unit and a tail that any closing of its frames may be put behind. -/
theorem exists_unit_of_expression {bound n : Nat} (frames : List Frame) {e : List Lexeme}
    (h : Derives .expression n e) (hn : n = bound - frames.length) :
    ∃ unit tail, e = unit ++ tail ∧ Derives .unit n unit ∧
      ∀ rest, Closes bound frames rest → Closes bound frames (tail ++ rest) := by
  generalize hc : Category.expression = category at h
  induction h with
  | integer | decimal | name | group | negation | call => exact absurd hc (by simp)
  | @single n ls hunit => exact ⟨ls, [], by simp, hunit, fun rest hrest => hrest⟩
  | @chain n op ls more hunit _ _ ih =>
      -- what follows the operator is a unit and a tail again, so the whole of it can be put behind
      obtain ⟨unit, tail, hmore, hfirst, htail⟩ := ih hn hc
      refine ⟨ls, .operator op :: more, rfl, hunit, ?_⟩
      intro rest hrest
      have hnext : Closes bound frames (.operator op :: unit ++ (tail ++ rest)) :=
        .operator (hn ▸ hfirst) (htail rest hrest)
      rw [hmore]
      simpa using hnext

/-- Inside a parenthesis, a unit and what closes it are an expression, its partner and a rest. -/
theorem exists_expression_of_closes {bound : Nat} {outer : List Frame} {ls : List Lexeme}
    (h : Closes bound (.parenthesis :: outer) ls) {unit : List Lexeme}
    (hunit : Derives .unit (bound - (outer.length + 1)) unit) :
    ∃ e rest, unit ++ ls = e ++ .rightParen :: rest ∧
      Derives .expression (bound - (outer.length + 1)) e ∧
      Closes bound (closeUnit outer) rest := by
  -- induction on the closing: it goes from operator to operator up to the partner
  generalize hf : Frame.parenthesis :: outer = frames at h
  induction h generalizing unit with
  | done => exact absurd hf (by simp)
  | @operator op frames next more hnext _ ih =>
      subst hf
      obtain ⟨e, rest, hmore, he, hrest⟩ := ih hnext rfl
      refine ⟨unit ++ .operator op :: e, rest, ?_, .chain hunit he, hrest⟩
      simp [hmore]
  | @close outer' rest hrest _ =>
      cases hf
      exact ⟨unit, rest, rfl, .single hunit, hrest⟩

/-- With nothing open, a unit and what closes it are an expression. -/
theorem expression_of_closes {bound : Nat} {ls : List Lexeme} (h : Closes bound [] ls)
    {unit : List Lexeme} (hunit : Derives .unit bound unit) :
    Derives .expression bound (unit ++ ls) := by
  generalize hf : ([] : List Frame) = frames at h
  induction h generalizing unit with
  | done => simpa using Derives.single hunit
  | @operator op frames next more hnext _ ih =>
      subst hf
      simpa using Derives.chain hunit (ih hnext rfl)
  | close _ => exact absurd hf (by simp)

/-- **At the start of a formula the demand is the grammar.** -/
theorem completes_start_iff {bound : Nat} {ls : List Lexeme} :
    Completes bound start ls ↔ Derives .expression bound ls := by
  refine ⟨?_, ?_⟩
  · intro h
    obtain ⟨unit, rest, rfl, hunit, hrest⟩ := h
    exact expression_of_closes hrest hunit
  · intro h
    obtain ⟨unit, tail, rfl, hunit, htail⟩ := exists_unit_of_expression [] h rfl
    exact ⟨unit, tail, rfl, hunit, by simpa using htail [] .done⟩

/-! ## Steps -/

/-- What reading one lexeme does: the tokens that go out, and the reader then. -/
inductive Step : Reader → Lexeme → List Token → Reader → Prop where
  | integer {frames : List Frame} {text : String} {value : Float} :
      frames.length ≠ nestingLimit → literal? text = some value →
      Step ⟨.operand, frames⟩ (.integer text) [.number value] ⟨.operator, closeUnit frames⟩
  | decimal {frames : List Frame} {text : String} {value : Float} :
      frames.length ≠ nestingLimit → literal? text = some value →
      Step ⟨.operand, frames⟩ (.decimal text) [.number value] ⟨.operator, closeUnit frames⟩
  | group {frames : List Frame} : frames.length ≠ nestingLimit →
      Step ⟨.operand, frames⟩ .leftParen [.leftParen] ⟨.operand, .parenthesis :: frames⟩
  | negation {frames : List Frame} : frames.length ≠ nestingLimit →
      Step ⟨.operand, frames⟩ (.operator .subtract) [.negate] ⟨.operand, .negation :: frames⟩
  | name {frames : List Frame} (text : String) : frames.length ≠ nestingLimit →
      Step ⟨.operand, frames⟩ (.name text) [] ⟨.name text, frames⟩
  | call {frames : List Frame} {text : String} {f : Function} : Function.ofName? text = some f →
      Step ⟨.name text, frames⟩ .leftParen [.function f, .leftParen]
        ⟨.operand, .parenthesis :: frames⟩
  | bare {frames : List Frame} {text : String} {l : Lexeme} {ts : List Token} {r : Reader} :
      Step ⟨.operator, closeUnit frames⟩ l ts r →
      Step ⟨.name text, frames⟩ l (Token.ofName text :: ts) r
  | operator {frames : List Frame} (op : Operator) :
      Step ⟨.operator, frames⟩ (.operator op) [.operator op] ⟨.operand, frames⟩
  | close {frame : Frame} {outer : List Frame} :
      Step ⟨.operator, frame :: outer⟩ .rightParen [.rightParen] ⟨.operator, closeUnit outer⟩
  | finish : Step ⟨.operator, []⟩ .endOfInput [] ⟨.operator, []⟩

theorem step_of_feedOperand {frames : List Frame} {l : Lexeme} {ts : List Token} {r : Reader}
    (h : feedOperand frames l = .ok (ts, r)) : Step ⟨.operand, frames⟩ l ts r := by
  unfold feedOperand at h
  split at h
  · exact absurd h (by simp)
  · rename_i hroom
    split at h
    · split at h
      · rename_i hvalue; cases h; exact .integer hroom hvalue
      · exact absurd h (by simp)
    · split at h
      · rename_i hvalue; cases h; exact .decimal hroom hvalue
      · exact absurd h (by simp)
    · cases h; exact .group hroom
    · cases h; exact .negation hroom
    · cases h; exact .name _ hroom
    · exact absurd h (by simp)

theorem step_of_feedOperator {frames : List Frame} {l : Lexeme} {ts : List Token} {r : Reader}
    (h : feedOperator frames l = .ok (ts, r)) : Step ⟨.operator, frames⟩ l ts r := by
  unfold feedOperator at h
  split at h
  · cases h; exact .operator _
  · cases h; exact .close
  · cases h; exact .finish
  · exact absurd h (by simp)
  · exact absurd h (by simp)

/-- Behind a unit that has ended no parenthesis can open. -/
theorem ne_leftParen_of_step {frames : List Frame} {l : Lexeme} {ts : List Token} {r : Reader}
    (h : Step ⟨.operator, frames⟩ l ts r) : l ≠ .leftParen := by
  cases h with
  | operator | close | finish => simp

theorem step_of_feedName {frames : List Frame} {text : String} {l : Lexeme} {ts : List Token}
    {r : Reader} (h : feedName text frames l = .ok (ts, r)) : Step ⟨.name text, frames⟩ l ts r := by
  unfold feedName at h
  split at h
  · split at h
    · rename_i hf; cases h; exact .call hf
    · exact absurd h (by simp)
  · cases hread : feedOperator (closeUnit frames) l with
    | error cause => rw [hread] at h; exact absurd h (by simp [Except.map])
    | ok read =>
        rw [hread] at h
        cases h
        exact .bare (step_of_feedOperator hread)

theorem feedName_of_feedOperator {frames : List Frame} {text : String} {l : Lexeme}
    {ts : List Token} {r : Reader} (h : feedOperator (closeUnit frames) l = .ok (ts, r)) :
    feedName text frames l = .ok (Token.ofName text :: ts, r) := by
  have hl : l ≠ .leftParen := ne_leftParen_of_step (step_of_feedOperator h)
  unfold feedName
  split
  · exact absurd rfl hl
  · rw [h]; rfl

/-- **A reader steps exactly as `Step` says.** -/
theorem feed_eq_ok_iff {r next : Reader} {l : Lexeme} {ts : List Token} :
    r.feed l = .ok (ts, next) ↔ Step r l ts next := by
  refine ⟨?_, ?_⟩
  · intro h
    obtain ⟨phase, frames⟩ := r
    cases phase with
    | operand => exact step_of_feedOperand h
    | name text => exact step_of_feedName h
    | operator => exact step_of_feedOperator h
  · intro h
    induction h with
    | integer hroom hvalue | decimal hroom hvalue => simp [feed, feedOperand, hroom, hvalue]
    | group hroom | negation hroom | name text hroom => simp [feed, feedOperand, hroom]
    | call hf => simp [feed, feedName, hf]
    | bare _ ih => exact feedName_of_feedOperator ih
    | operator op => rfl
    | close => rfl
    | finish => rfl

/-- **Preserved by every step.** -/
theorem wellFormed_of_step {r next : Reader} {l : Lexeme} {ts : List Token}
    (h : Step r l ts next) (hw : r.WellFormed) : next.WellFormed := by
  induction h with
  | integer | decimal => exact wellFormed_closeUnit hw.bounded
  | group hroom | negation hroom =>
      exact wellFormed_operand (Nat.lt_of_le_of_ne hw.bounded hroom)
  | name text hroom =>
      exact ⟨fun hop => absurd hop (by simp), hw.bounded,
        fun _ _ => Nat.lt_of_le_of_ne hw.bounded hroom⟩
  | @call frames text f hf => exact wellFormed_operand (hw.room text rfl)
  | bare _ ih => exact ih (wellFormed_closeUnit hw.bounded)
  | operator op => exact wellFormed_operand hw.bounded
  | close => exact wellFormed_closeUnit (Nat.le_of_succ_le hw.bounded)
  | finish => exact hw

/-! ## A step takes one lexeme off the demand -/

/-- A unit that may start is one more than what may be open inside it. -/
theorem depth_eq_succ {bound : Nat} {frames : List Frame} (hb : nestingLimit ≤ bound)
    (hlen : frames.length ≤ nestingLimit) (hroom : frames.length ≠ nestingLimit) :
    bound - frames.length = bound - (frames.length + 1) + 1 := by omega

/-- **Forward.** What completes the reader behind a lexeme completes, with it, the reader before. -/
theorem completes_of_step {bound : Nat} (hb : nestingLimit ≤ bound) {r next : Reader} {l : Lexeme}
    {ts : List Token} (h : Step r l ts next) (hw : r.WellFormed) (hl : l ≠ .endOfInput)
    {ls : List Lexeme} (hc : Completes bound next ls) : Completes bound r (l :: ls) := by
  induction h with
  | @integer frames text value hroom hvalue =>
      have hliteral : ∃ value, SaysNumber text value := ⟨value, literal?_eq_some_iff.mp hvalue⟩
      refine ⟨[.integer text], ls, rfl, ?_, hc⟩
      rw [depth_eq_succ hb hw.bounded hroom]
      exact .integer hliteral
  | @decimal frames text value hroom hvalue =>
      have hliteral : ∃ value, SaysNumber text value := ⟨value, literal?_eq_some_iff.mp hvalue⟩
      refine ⟨[.decimal text], ls, rfl, ?_, hc⟩
      rw [depth_eq_succ hb hw.bounded hroom]
      exact .decimal hliteral
  | @group frames hroom =>
      -- the frames demand the partner, which cuts what follows into the inside and a rest
      obtain ⟨unit, tail, rfl, hunit, htail⟩ := hc
      obtain ⟨e, rest, he, hderives, hrest⟩ := exists_expression_of_closes htail hunit
      refine ⟨.leftParen :: e ++ [.rightParen], rest, by simp [he], ?_, hrest⟩
      rw [depth_eq_succ hb hw.bounded hroom]
      exact .group hderives
  | @negation frames hroom =>
      obtain ⟨unit, rest, rfl, hunit, hrest⟩ := hc
      refine ⟨.operator .subtract :: unit, rest, rfl, ?_, hrest⟩
      rw [depth_eq_succ hb hw.bounded hroom]
      exact .negation hunit
  | @name frames text hroom =>
      have hdepth := depth_eq_succ hb hw.bounded hroom
      rcases hc with hrest | ⟨argument, rest, rfl, hf, hargument, hrest⟩
      · refine ⟨[.name text], ls, rfl, ?_, hrest⟩
        rw [hdepth]
        exact .name text
      · refine ⟨.name text :: .leftParen :: argument ++ [.rightParen], rest, by simp, ?_, hrest⟩
        rw [hdepth]
        exact .call hf hargument
  | @call frames text f hf =>
      obtain ⟨unit, tail, rfl, hunit, htail⟩ := hc
      obtain ⟨e, rest, he, hderives, hrest⟩ := exists_expression_of_closes htail hunit
      have hname := Function.name_of_ofName?_eq_some hf
      exact Or.inr ⟨e, rest, by simp [he], ⟨f, hname⟩, hderives, hrest⟩
  | @bare frames text l ts next hstep ih =>
      exact Or.inl (ih (wellFormed_closeUnit hw.bounded) hl hc)
  | @operator frames op =>
      have hframes : closeUnit frames = frames := hw.settled rfl
      obtain ⟨unit, rest, rfl, hunit, hrest⟩ := hc
      rw [hframes] at hrest
      exact Closes.operator hunit hrest
  | @close frame outer =>
      have hframes : closeUnit (frame :: outer) = frame :: outer := hw.settled rfl
      cases frame with
      | parenthesis => exact Closes.close hc
      | negation =>
          -- a minus sign cannot be innermost here: closing would have dropped it
          have hshorter := length_closeUnit_le outer
          have hlength : (closeUnit outer).length = outer.length + 1 := congrArg List.length hframes
          omega
  | finish => exact absurd rfl hl

/-- Behind a unit that has ended, the first lexeme of the demand can be read. -/
theorem step_of_closes {bound : Nat} {frames : List Frame} {l : Lexeme} {ls : List Lexeme}
    (hframes : closeUnit frames = frames) (h : Closes bound frames (l :: ls)) :
    ∃ ts next, Step ⟨.operator, frames⟩ l ts next ∧ Completes bound next ls := by
  generalize hall : l :: ls = all at h
  cases h with
  | done => exact absurd hall (by simp)
  | @operator op _ unit rest hunit hrest =>
      obtain ⟨rfl, rfl⟩ := List.cons.inj hall
      exact ⟨_, _, .operator op, unit, rest, rfl, hunit, by rw [hframes]; exact hrest⟩
  | close hrest =>
      obtain ⟨rfl, rfl⟩ := List.cons.inj hall
      exact ⟨_, _, .close, hrest⟩

/-- Where a unit must start and there is room for it, the first lexeme of the demand can be read. -/
theorem step_of_completes_operand {bound : Nat} {frames : List Frame} {l : Lexeme}
    {ls : List Lexeme} (hroom : frames.length ≠ nestingLimit)
    (h : Completes bound ⟨.operand, frames⟩ (l :: ls)) :
    ∃ ts next, Step ⟨.operand, frames⟩ l ts next ∧ Completes bound next ls := by
  obtain ⟨unit, rest, hall, hunit, hrest⟩ := h
  -- each kind of unit begins with one lexeme, which settles the step
  generalize hdepth : bound - frames.length = depth at hunit
  cases hunit with
  | integer hliteral =>
      obtain ⟨value, hsays⟩ := hliteral
      have hvalue := literal?_eq_some_iff.mpr hsays
      obtain ⟨rfl, rfl⟩ := List.cons.inj hall
      exact ⟨_, _, .integer hroom hvalue, hrest⟩
  | decimal hliteral =>
      obtain ⟨value, hsays⟩ := hliteral
      have hvalue := literal?_eq_some_iff.mpr hsays
      obtain ⟨rfl, rfl⟩ := List.cons.inj hall
      exact ⟨_, _, .decimal hroom hvalue, hrest⟩
  | name text =>
      obtain ⟨rfl, rfl⟩ := List.cons.inj hall
      exact ⟨_, _, .name text hroom, Or.inl hrest⟩
  | @group n e he =>
      obtain ⟨rfl, rfl⟩ := List.cons.inj hall
      have hn : n = bound - (Frame.parenthesis :: frames).length := by
        rw [List.length_cons]
        omega
      obtain ⟨unit, tail, rfl, hunit, htail⟩ := exists_unit_of_expression _ he hn
      refine ⟨_, _, .group hroom, unit, tail ++ .rightParen :: rest, by simp, hn ▸ hunit, ?_⟩
      exact htail _ (.close hrest)
  | @negation n next hnext =>
      obtain ⟨rfl, rfl⟩ := List.cons.inj hall
      have hn : n = bound - (Frame.negation :: frames).length := by
        rw [List.length_cons]
        omega
      exact ⟨_, _, .negation hroom, next, rest, rfl, hn ▸ hnext, hrest⟩
  | @call n text argument hf hargument =>
      obtain ⟨rfl, rfl⟩ := List.cons.inj hall
      have hn : n = bound - (frames.length + 1) := by omega
      exact ⟨_, _, .name text hroom,
        Or.inr ⟨argument, rest, by simp, hf, hn ▸ hargument, hrest⟩⟩

/-- A name that has been read goes on with the first lexeme of the demand. -/
theorem step_of_completes_name {bound : Nat} {frames : List Frame} {text : String} {l : Lexeme}
    {ls : List Lexeme} (h : Completes bound ⟨.name text, frames⟩ (l :: ls)) :
    ∃ ts next, Step ⟨.name text, frames⟩ l ts next ∧ Completes bound next ls := by
  rcases h with hrest | ⟨argument, rest, hall, hf, hargument, hrest⟩
  · obtain ⟨ts, next, hstep, hnext⟩ := step_of_closes (closeUnit_closeUnit frames) hrest
    exact ⟨_, next, .bare hstep, hnext⟩
  · obtain ⟨rfl, rfl⟩ := List.cons.inj hall
    obtain ⟨f, hname⟩ := hf
    have hfun := Function.ofName?_eq_some_iff.mpr hname
    obtain ⟨unit, tail, rfl, hunit, htail⟩ :=
      exists_unit_of_expression (.parenthesis :: frames) hargument rfl
    refine ⟨_, _, .call hfun, unit, tail ++ .rightParen :: rest, by simp, hunit, ?_⟩
    exact htail _ (.close hrest)

/-- **Backward.** A reader with room reads the first lexeme of what completes it. -/
theorem step_of_completes {bound : Nat} {r : Reader} (hw : r.WellFormed)
    (hroom : r.phase = .operand → r.frames.length ≠ nestingLimit) {l : Lexeme} {ls : List Lexeme}
    (h : Completes bound r (l :: ls)) :
    ∃ ts next, Step r l ts next ∧ Completes bound next ls := by
  obtain ⟨phase, frames⟩ := r
  cases phase with
  | operand => exact step_of_completes_operand (hroom rfl) h
  | name text => exact step_of_completes_name h
  | operator => exact step_of_closes (hw.settled rfl) h

/-- Within the limit there is always room for what completes a reader. -/
theorem room_of_completes {r : Reader} {ls : List Lexeme} (h : Completes nestingLimit r ls)
    (hoperand : r.phase = .operand) : r.frames.length ≠ nestingLimit := by
  obtain ⟨phase, frames⟩ := r
  cases hoperand
  obtain ⟨unit, rest, _, hunit, _⟩ := h
  intro hfull
  -- a unit counts itself, so none is derived where nothing may be open
  dsimp only at hfull
  rw [hfull, Nat.sub_self] at hunit
  cases hunit

/-- **The end of the input can be read just when nothing more is demanded.** -/
theorem completes_nil_iff {bound : Nat} {r : Reader} :
    Completes bound r [] ↔ ∃ ts next, Step r .endOfInput ts next := by
  refine ⟨?_, ?_⟩
  · intro h
    obtain ⟨phase, frames⟩ := r
    cases phase with
    | operand =>
        obtain ⟨unit, rest, hnil, hunit, _⟩ := h
        obtain ⟨rfl, rfl⟩ := List.append_eq_nil_iff.mp hnil.symm
        generalize bound - frames.length = depth at hunit
        exact absurd hunit.ne_nil (by simp)
    | name text =>
        rcases h with hrest | ⟨argument, rest, hnil, _⟩
        · cases hf : closeUnit frames with
          | nil =>
              have hfinish : Step ⟨.operator, closeUnit frames⟩ .endOfInput [] ⟨.operator, []⟩ := by
                rw [hf]
                exact .finish
              exact ⟨_, _, .bare hfinish⟩
          | cons frame outer => rw [hf] at hrest; cases hrest
        · exact absurd hnil (by simp)
    | operator =>
        -- an operator or a parenthesis would still be demanded unless nothing is open
        cases h with
        | done => exact ⟨_, _, .finish⟩
  · intro h
    obtain ⟨ts, next, hstep⟩ := h
    cases hstep with
    | bare hbare =>
        generalize hf : closeUnit _ = frames at hbare
        cases hbare
        exact Or.inl (hf ▸ .done)
    | finish => exact Closes.done

/-! ## A whole run -/

theorem feedAll_cons_eq_ok_iff {r last : Reader} {l : Located} {ls : List Located}
    {ts : List Token} :
    r.feedAll (l :: ls) = .ok (ts, last) ↔
      ∃ first next more, Step r l.lexeme first next ∧ next.feedAll ls = .ok (more, last) ∧
        ts = first ++ more := by
  rw [feedAll]
  refine ⟨?_, ?_⟩
  · intro h
    split at h
    · exact absurd h (by simp)
    · rename_i first next hfeed
      cases hmore : next.feedAll ls with
      | error e => rw [hmore] at h; exact absurd h (by simp [Except.map])
      | ok read =>
          rw [hmore] at h
          cases h
          exact ⟨first, next, read.1, feed_eq_ok_iff.mp hfeed, hmore, rfl⟩
  · intro h
    obtain ⟨first, next, more, hstep, hmore, rfl⟩ := h
    rw [feed_eq_ok_iff.mpr hstep]
    dsimp only
    rw [hmore]
    rfl

/-- **A run up to the end of the input succeeds just on what completes the reader.** -/
theorem feedAll_eq_ok_iff_completes {ls : List Located} {last : Located}
    (hls : ∀ l ∈ ls, l.lexeme ≠ .endOfInput) (hlast : last.lexeme = .endOfInput) :
    ∀ {r : Reader}, r.WellFormed →
      ((∃ ts next, r.feedAll (ls ++ [last]) = .ok (ts, next)) ↔
        Completes nestingLimit r (ls.map Located.lexeme)) := by
  induction ls with
  | nil =>
      intro r _
      rw [List.map_nil, completes_nil_iff, List.nil_append]
      refine ⟨?_, ?_⟩
      · intro h
        obtain ⟨ts, next, hfeed⟩ := h
        obtain ⟨first, behind, _, hstep, _⟩ := feedAll_cons_eq_ok_iff.mp hfeed
        exact ⟨first, behind, hlast ▸ hstep⟩
      · intro h
        obtain ⟨ts, next, hstep⟩ := h
        exact ⟨ts ++ [], next, feedAll_cons_eq_ok_iff.mpr ⟨ts, next, [], hlast ▸ hstep, rfl, rfl⟩⟩
  | cons l ls ih =>
      intro r hw
      have hl : l.lexeme ≠ .endOfInput := hls l List.mem_cons_self
      have ih := @ih fun l' hl' => hls l' (List.mem_cons_of_mem l hl')
      rw [List.map_cons, List.cons_append]
      refine ⟨?_, ?_⟩
      · intro h
        obtain ⟨ts, last, hfeed⟩ := h
        obtain ⟨first, next, more, hstep, hmore, _⟩ := feedAll_cons_eq_ok_iff.mp hfeed
        have hc := (ih (wellFormed_of_step hstep hw)).mp ⟨more, last, hmore⟩
        exact completes_of_step (Nat.le_refl _) hstep hw hl hc
      · intro hc
        -- the demand is within the limit, so there is room whatever it starts with
        obtain ⟨first, next, hstep, hnext⟩ := step_of_completes hw (room_of_completes hc) hc
        obtain ⟨more, last, hmore⟩ := (ih (wellFormed_of_step hstep hw)).mpr hnext
        exact ⟨first ++ more, last,
          feedAll_cons_eq_ok_iff.mpr ⟨first, next, more, hstep, hmore, rfl⟩⟩

end Reader

end Formula
