import Formula.Proofs.Completion
import Formula.Proofs.Lexing

/-!
# Reading by descent

A formula can also be read by functions that call one another as its phrases contain one another.
They have one lexeme at hand, and ask the scanner for the next once they have dealt with it. Their
only bound is from outside: a call is cut off when its fuel is used up, and every call and every
round of a loop leaves one less of it. For all that the functions say, no fuel might be enough.

Every call ends. To see it, a descent is set beside the scan of the whole source and the reader that
goes through it. `Faces` says that the lexeme at hand is the next for the reader, and `Past` that it
is done with: both say that what has gone out and what is still to come are together what the scan
is read as, and that the scanner has been asked in order, once for each lexeme.

* `wider_of_le`: fuel decides whether a call ends and nothing else;
* `Past.consume_ends`: asking for a lexeme leads from the one to the other;
* `unit_ends`: fuel for three calls a lexeme ahead is enough for a unit, by induction on these, for
  wherever `unit` is called again a lexeme has been asked for in between;
* `exists_formula_eq`: a descent reads a formula as `parse` does, and has been given a start of the
  answers that list the scan.
-/

namespace Formula

/-! ## The descent -/

/-- A parser at work. -/
structure Descent where
  /-- Where the next lexeme comes from. -/
  scanner : Scanner
  /-- The lexeme at hand. -/
  look : Located
  /-- The tokens so far. -/
  tokens : List Token
  /-- What the scanner has answered so far, call by call. -/
  answers : List (Except SyntaxError Located)

namespace Descent

/-- Something a parser does. It ends, with an error or without, or is `none` for want of fuel. -/
abbrev Action := ExceptT SyntaxError (StateT Descent Option)

/-- A call without fuel. -/
def exhausted : Action Unit := fun _ => none

/-- Asks the scanner for a lexeme, to have it at hand. -/
def consume : Action Unit := fun p =>
  match p.scanner.next with
  | .error e => some (.error e, { p with answers := p.answers ++ [.error e] })
  | .ok (l, s) =>
    some (.ok (), { p with scanner := s, look := l, answers := p.answers ++ [.ok l] })

/-- Sends out a token. -/
def push (token : Token) : Action Unit := modify fun p => { p with tokens := p.tokens ++ [token] }

/-- Blames the lexeme at hand. -/
def fail (cause : Cause) : Action Unit := do
  let p ← get
  throw ⟨cause, p.look.position⟩

/-- Insists on the lexeme at hand. -/
def expect (wanted : Lexeme) : Action Unit := do
  let p ← get
  if p.look.lexeme = wanted then pure () else fail (.expected wanted p.look.lexeme)

/-- A unit that is a literal. -/
def literal (text : String) : Action Unit :=
  match Reader.literal? text with
  | none => fail (.invalidNumber text)
  | some value => do
    push (.number value)
    consume

mutual

/-- An expression inside so many open units. -/
def expression : Nat → Nat → Action Unit
  | 0, _ => exhausted
  | fuel + 1, depth => do
    unit fuel depth
    operators fuel depth

/-- The operators behind a unit, each with the unit behind it. -/
def operators : Nat → Nat → Action Unit
  | 0, _ => exhausted
  | fuel + 1, depth => do
    let p ← get
    match p.look.lexeme with
    | .operator op =>
      push (.operator op)
      consume
      unit fuel depth
      operators fuel depth
    | _ => pure ()

/-- A unit inside so many open ones. -/
def unit : Nat → Nat → Action Unit
  | 0, _ => exhausted
  | fuel + 1, depth =>
    if depth = nestingLimit then fail .nestedTooDeep
    else do
      let p ← get
      match p.look.lexeme with
      | .integer text | .decimal text => literal text
      | .leftParen => nested fuel (depth + 1)
      | .operator .subtract => negation fuel (depth + 1)
      | .name text => name text fuel (depth + 1)
      | got => fail (.unexpected got)

/-- A minus sign and its operand. -/
def negation : Nat → Nat → Action Unit
  | 0, _ => exhausted
  | fuel + 1, depth => do
    push .negate
    consume
    unit fuel depth

/-- A name, and its argument if it is called. -/
def name (text : String) : Nat → Nat → Action Unit
  | 0, _ => exhausted
  | fuel + 1, depth => do
    consume
    let p ← get
    if p.look.lexeme = .leftParen then
      match Function.ofName? text with
      | none => fail (.unknownFunction text)
      | some f => do
        push (.function f)
        nested fuel depth
    else push (Token.ofName text)

/-- An expression between parentheses. -/
def nested : Nat → Nat → Action Unit
  | 0, _ => exhausted
  | fuel + 1, depth => do
    push .leftParen
    consume
    expression fuel depth
    expect .rightParen
    consume
    push .rightParen

end

/-- A whole formula, and the tokens it is read as. -/
def formula (fuel : Nat) : Action (List Token) := do
  consume
  expression fuel 0
  expect .endOfInput
  let p ← get
  return p.tokens

/-- Before the first call, with nothing at hand that anything would look at. -/
def ofSource (source : Source) : Descent :=
  ⟨.ofSource source, ⟨.endOfInput, .nowhere⟩, [], []⟩

end Descent

/-! ## What is still to come -/

namespace Scan

/-- The answers that list a scan, call by call. -/
def answers (s : Scan) : List (Except SyntaxError Located) :=
  s.lexemes.map .ok ++ (s.failure.map .error).toList

/-- What a reader makes of a scan. -/
def tokensFrom (r : Reader) (s : Scan) : Except SyntaxError (List Token) :=
  match r.feedAll s.lexemes, s.failure with
  | .error e, _ => .error e
  | .ok _, some e => .error e
  | .ok (tokens, _), none => .ok tokens

variable {r next : Reader} {l : Located}

theorem tokensFrom_cons_of_ok {ts : List Token} (h : r.feed l.lexeme = .ok (ts, next))
    (ls : List Located) (failure : Option SyntaxError) :
    tokensFrom r ⟨l :: ls, failure⟩ = (tokensFrom next ⟨ls, failure⟩).map (ts ++ ·) := by
  unfold tokensFrom
  rw [Reader.feedAll, h]
  dsimp only
  cases next.feedAll ls with
  | error e => rfl
  | ok read => cases failure <;> rfl

theorem tokensFrom_cons_of_error {cause : Cause} (h : r.feed l.lexeme = .error cause)
    (ls : List Located) (failure : Option SyntaxError) :
    tokensFrom r ⟨l :: ls, failure⟩ = .error ⟨cause, l.position⟩ := by
  unfold tokensFrom
  rw [Reader.feedAll, h]

/-- The end of the input ends a formula in which nothing is open. -/
theorem tokensFrom_finish (hl : l.lexeme = .endOfInput) :
    tokensFrom ⟨.operator, []⟩ ⟨[l], none⟩ = .ok [] := by
  have hfinish : Reader.feed ⟨.operator, []⟩ l.lexeme = .ok ([], ⟨.operator, []⟩) := by
    rw [hl]
    rfl
  rw [tokensFrom_cons_of_ok hfinish]
  rfl

/-- A name that is not called is a unit of its own, and its token goes out in front. -/
theorem tokensFrom_name {frames : List Frame} (text : String) (hl : l.lexeme ≠ .leftParen)
    (ls : List Located) (failure : Option SyntaxError) :
    tokensFrom ⟨.name text, frames⟩ ⟨l :: ls, failure⟩ =
      (tokensFrom ⟨.operator, Reader.closeUnit frames⟩ ⟨l :: ls, failure⟩).map
        (Token.ofName text :: ·) := by
  have hname : Reader.feed ⟨.name text, frames⟩ l.lexeme =
      (Reader.feed ⟨.operator, Reader.closeUnit frames⟩ l.lexeme).map
        fun read => (Token.ofName text :: read.1, read.2) := by
    unfold Reader.feed Reader.feedName
    dsimp only
    split
    · rename_i hparen
      exact absurd hparen hl
    · rfl
  cases hread : Reader.feed ⟨.operator, Reader.closeUnit frames⟩ l.lexeme with
  | error cause =>
      rw [hread] at hname
      rw [tokensFrom_cons_of_error hname, tokensFrom_cons_of_error hread]
      rfl
  | ok read =>
      obtain ⟨ts, next⟩ := read
      rw [hread] at hname
      rw [tokensFrom_cons_of_ok hname, tokensFrom_cons_of_ok hread]
      cases tokensFrom next ⟨ls, failure⟩ <;> rfl

end Scan

namespace Descent

variable {α β : Type} {whole : Scan} {p : Descent}

/-- What comes behind an action begins where that has ended, if it has not failed. -/
theorem bind_apply (x : Action α) (f : α → Action β) (p : Descent) :
    (x >>= f) p = (x p).bind fun ended => ExceptT.bindCont f ended.1 ended.2 := rfl

/-! ## Fuel -/

/-- Where the first action ends, the second ends alike. -/
def Within (x y : Action α) : Prop := ∀ p ended, x p = some ended → y p = some ended

namespace Within

theorem refl (x : Action α) : Within x x := fun _ _ h => h

theorem of_exhausted (x : Action Unit) : Within exhausted x := by
  intro _ _ h
  cases h

theorem bind {x y : Action α} {f g : α → Action β} (h : Within x y)
    (hf : ∀ a, Within (f a) (g a)) : Within (x >>= f) (y >>= g) := by
  intro p ended hended
  rw [bind_apply] at hended
  obtain ⟨⟨result, q⟩, hx, hcont⟩ := Option.bind_eq_some_iff.mp hended
  rw [bind_apply, h p _ hx]
  cases result with
  | ok a => exact hf a q ended hcont
  | error e => exact hcont

end Within

/-- More fuel takes no call's end away. -/
structure Wider (fuel more : Nat) : Prop where
  expression : ∀ depth, Within (expression fuel depth) (expression more depth)
  operators : ∀ depth, Within (operators fuel depth) (operators more depth)
  unit : ∀ depth, Within (unit fuel depth) (unit more depth)
  negation : ∀ depth, Within (negation fuel depth) (negation more depth)
  name : ∀ text depth, Within (name text fuel depth) (name text more depth)
  nested : ∀ depth, Within (nested fuel depth) (nested more depth)

/-- **Fuel decides whether a call ends** and nothing else. -/
theorem wider_of_le {fuel more : Nat} (h : fuel ≤ more) : Wider fuel more := by
  induction fuel generalizing more with
  | zero =>
      constructor <;> intros <;>
        simp only [expression, operators, unit, negation, name, nested, Within.of_exhausted]
  | succ fuel ih =>
      obtain ⟨more, rfl⟩ := Nat.exists_eq_add_one_of_ne_zero (Nat.ne_zero_of_lt h)
      have hwider := ih (Nat.le_of_succ_le_succ h)
      -- the equations are the same on both sides, but for the fuel of what they call
      refine ⟨?_, ?_, ?_, ?_, ?_, ?_⟩
      · intro depth
        rw [expression, expression]
        exact (hwider.unit depth).bind fun _ => hwider.operators depth
      · intro depth
        rw [operators, operators]
        refine (Within.refl _).bind fun p => ?_
        cases p.look.lexeme with
        | operator op =>
            refine (Within.refl _).bind fun _ => (Within.refl _).bind fun _ => ?_
            exact (hwider.unit depth).bind fun _ => hwider.operators depth
        | _ => exact Within.refl _
      · intro depth
        rw [unit, unit]
        by_cases hroom : depth = nestingLimit
        · rw [if_pos hroom, if_pos hroom]
          exact Within.refl _
        · rw [if_neg hroom, if_neg hroom]
          refine (Within.refl _).bind fun p => ?_
          cases p.look.lexeme with
          | leftParen => exact hwider.nested (depth + 1)
          | name text => exact hwider.name text (depth + 1)
          | operator op =>
              cases op with
              | subtract => exact hwider.negation (depth + 1)
              | _ => exact Within.refl _
          | _ => exact Within.refl _
      · intro depth
        rw [negation, negation]
        exact (Within.refl _).bind fun _ => (Within.refl _).bind fun _ => hwider.unit depth
      · intro text depth
        rw [name, name]
        refine (Within.refl _).bind fun _ => (Within.refl _).bind fun p => ?_
        by_cases hparen : p.look.lexeme = .leftParen
        · rw [if_pos hparen, if_pos hparen]
          cases Function.ofName? text with
          | none => exact Within.refl _
          | some f => exact (Within.refl _).bind fun _ => hwider.nested depth
        · rw [if_neg hparen, if_neg hparen]
          exact Within.refl _
      · intro depth
        rw [nested, nested]
        refine (Within.refl _).bind fun _ => (Within.refl _).bind fun _ => ?_
        exact (hwider.expression depth).bind fun _ => Within.refl _

theorem formula_within {fuel more : Nat} (h : fuel ≤ more) :
    Within (formula fuel) (formula more) :=
  (Within.refl _).bind fun _ => ((wider_of_le h).expression 0).bind fun _ => Within.refl _

/-! ## Ending -/

/--
An action ends, either as is claimed of it, or with the error that the whole scan is refused for and
a start of its answers.
-/
inductive Ends (whole : Scan) (claim : α → Descent → Prop) :
    Option (Except SyntaxError α × Descent) → Prop where
  | ok {a : α} {q : Descent} : claim a q → Ends whole claim (some (.ok a, q))
  | error {e : SyntaxError} {q : Descent} : whole.tokens = .error e →
      q.answers <+: whole.answers → Ends whole claim (some (.error e, q))

namespace Ends

variable {claim : α → Descent → Prop} {claim' : β → Descent → Prop}

theorem bind {x : Action α} {f : α → Action β} (h : Ends whole claim (x p))
    (hf : ∀ a q, claim a q → Ends whole claim' (f a q)) : Ends whole claim' ((x >>= f) p) := by
  rw [bind_apply]
  generalize x p = ended at h
  cases h with
  | ok hclaim => exact hf _ _ hclaim
  | error herror hanswers => exact .error herror hanswers

theorem mono {claim' : α → Descent → Prop} {ended : Option (Except SyntaxError α × Descent)}
    (h : Ends whole claim ended) (hle : ∀ a q, claim a q → claim' a q) :
    Ends whole claim' ended := by
  cases h with
  | ok hclaim => exact .ok (hle _ _ hclaim)
  | error herror hanswers => exact .error herror hanswers

/-- Looking at the parser changes nothing. -/
theorem get_bind {f : Descent → Action β} (h : Ends whole claim' (f p p)) :
    Ends whole claim' ((get >>= f) p) := h

theorem push_bind {token : Token} {f : Unit → Action β}
    (h : Ends whole claim' (f () { p with tokens := p.tokens ++ [token] })) :
    Ends whole claim' ((push token >>= f) p) := h

end Ends

/-! ## Where a descent is in the scan -/

/-- The scan from the lexeme at hand on. Behind the end of the input there is nothing. -/
def ahead (p : Descent) : Scan :=
  if p.look.lexeme = .endOfInput then ⟨[p.look], none⟩
  else ⟨p.look :: p.scanner.run.lexemes, p.scanner.run.failure⟩

/-- How many lexemes are ahead, the one at hand included. -/
def left (p : Descent) : Nat := p.ahead.lexemes.length

/-- The lexeme at hand is done with: `out` has gone out, and `r` reads on behind it. -/
structure Past (whole : Scan) (r : Reader) (out : List Token) (p : Descent) : Prop where
  /-- The scanner's answers and those to come are all there are, -/
  answered : p.answers ++ p.scanner.run.answers = whole.answers
  /-- and so are the tokens. -/
  reads : (p.scanner.run.tokensFrom r).map (out ++ ·) = whole.tokens

/-- The lexeme at hand is the next for `r` to read, and `out` has gone out. -/
structure Faces (whole : Scan) (r : Reader) (out : List Token) (p : Descent) : Prop where
  /-- The answers before the one at hand, and those from it on, are all there are, -/
  answered : ∃ before, p.answers = before ++ [.ok p.look] ∧
    before ++ p.ahead.answers = whole.answers
  /-- and so are the tokens. -/
  reads : (p.ahead.tokensFrom r).map (out ++ ·) = whole.tokens

theorem exists_ahead_eq (p : Descent) : ∃ ls failure, p.ahead = ⟨p.look :: ls, failure⟩ := by
  unfold ahead
  split
  · exact ⟨[], none, rfl⟩
  · exact ⟨_, _, rfl⟩

theorem ahead_of_ne (hl : p.look.lexeme ≠ .endOfInput) :
    p.ahead = ⟨p.look :: p.scanner.run.lexemes, p.scanner.run.failure⟩ := if_neg hl

theorem left_of_ne (hl : p.look.lexeme ≠ .endOfInput) :
    p.left = p.scanner.run.lexemes.length + 1 := by
  rw [left, ahead_of_ne hl, List.length_cons]

section

variable {r next : Reader} {out ts : List Token} {claim : Unit → Descent → Prop}

/-- **Asking for a lexeme** that has not been asked for yet. -/
theorem Past.consume_ends (h : Past whole r out p) (tokens : List Token) :
    Ends whole
      (fun _ q => Faces whole r out q ∧ q.tokens = tokens ∧ q.left = p.scanner.run.lexemes.length)
      (consume { p with tokens := tokens }) := by
  obtain ⟨hanswered, hreads⟩ := h
  unfold consume
  cases hnext : p.scanner.next with
  | error e =>
      rw [Scanner.run_of_error hnext] at hreads hanswered
      exact .error hreads.symm ⟨[], (List.append_nil _).trans hanswered⟩
  | ok read =>
      obtain ⟨l, s⟩ := read
      have hrun := Scanner.run_of_takes (Scanner.next_eq_ok_iff.mp hnext)
      rw [hrun] at hreads hanswered ⊢
      exact .ok ⟨⟨⟨p.answers, rfl, hanswered⟩, hreads⟩, rfl, rfl⟩

/-- What the reader takes is done with. -/
theorem Faces.past (h : Faces whole r out p) {l : Lexeme} (hlook : p.look.lexeme = l)
    (hl : l ≠ .endOfInput) (hstep : Reader.Step r l ts next) : Past whole next (out ++ ts) p := by
  subst hlook
  obtain ⟨before, hbefore, hanswered⟩ := h.answered
  have hreads := h.reads
  rw [ahead_of_ne hl] at hanswered hreads
  refine ⟨?_, ?_⟩
  · rw [hbefore, List.append_assoc]
    exact hanswered
  · rw [← hreads, Scan.tokensFrom_cons_of_ok (Reader.feed_eq_ok_iff.mpr hstep)]
    cases p.scanner.run.tokensFrom next with
    | error e => rfl
    | ok more => exact congrArg Except.ok (List.append_assoc out ts more)

/-- A name that is not called is done with before the lexeme behind it. -/
theorem Faces.bare {text : String} {frames : List Frame}
    (h : Faces whole ⟨.name text, frames⟩ out p) (hl : p.look.lexeme ≠ .leftParen) :
    Faces whole ⟨.operator, Reader.closeUnit frames⟩ (out ++ [Token.ofName text]) p := by
  obtain ⟨ls, failure, hahead⟩ := exists_ahead_eq p
  refine ⟨h.answered, ?_⟩
  rw [← h.reads, hahead, Scan.tokensFrom_name text hl]
  cases Scan.tokensFrom ⟨.operator, Reader.closeUnit frames⟩ ⟨p.look :: ls, failure⟩ with
  | error e => rfl
  | ok more => exact congrArg Except.ok (List.append_assoc out [Token.ofName text] more)

theorem Past.with_tokens (h : Past whole r out p) (tokens : List Token) :
    Past whole r out { p with tokens := tokens } := ⟨h.answered, h.reads⟩

/-- Sending out a token asks for nothing. -/
theorem Faces.push_ends {token : Token} (h : Faces whole r (p.tokens ++ [token]) p) :
    Ends whole (fun _ q => Faces whole r q.tokens q ∧ q.left = p.left) (push token p) :=
  .ok ⟨⟨h.answered, h.reads⟩, rfl⟩

/-- The scanner has been asked for nothing beyond the lexeme at hand. -/
theorem Faces.answers_prefix (h : Faces whole r out p) : p.answers <+: whole.answers := by
  obtain ⟨before, hbefore, hanswered⟩ := h.answered
  obtain ⟨ls, failure, hahead⟩ := exists_ahead_eq p
  rw [hahead] at hanswered
  rw [hbefore, ← hanswered]
  exact (List.prefix_append_right_inj before).mpr ⟨_, rfl⟩

/-- **What the reader refuses is what the whole scan is refused for.** -/
theorem Faces.fail_ends (h : Faces whole r out p) {l : Lexeme} (hlook : p.look.lexeme = l)
    {cause : Cause} (hrefused : r.feed l = .error cause) : Ends whole claim (fail cause p) := by
  subst hlook
  obtain ⟨ls, failure, hahead⟩ := exists_ahead_eq p
  have hreads := h.reads
  rw [hahead, Scan.tokensFrom_cons_of_error hrefused] at hreads
  exact .error hreads.symm h.answers_prefix

end

/-! ## Every call ends -/

/-- A unit inside these frames has ended, and fewer lexemes are ahead. -/
structure BehindUnit (whole : Scan) (frames : List Frame) (n : Nat) (p : Descent) : Prop where
  faces : Faces whole ⟨.operator, Reader.closeUnit frames⟩ p.tokens p
  less : p.left < n

/-- An expression inside these frames has ended, and no more lexemes are ahead. -/
structure BehindExpression (whole : Scan) (frames : List Frame) (n : Nat) (p : Descent) :
    Prop where
  faces : Faces whole ⟨.operator, frames⟩ p.tokens p
  le : p.left ≤ n
  last : ∀ op, p.look.lexeme ≠ .operator op

/-- What closes an expression inside these frames. -/
def closer : List Frame → Lexeme
  | [] => .endOfInput
  | _ :: _ => .rightParen

/-- Behind an expression there is what closes it, or something to be refused. -/
theorem BehindExpression.expect_ends {frames : List Frame} {n : Nat}
    (h : BehindExpression whole frames n p) :
    Ends whole (fun _ q => p = q ∧ p.look.lexeme = closer frames) (expect (closer frames) p) := by
  unfold expect
  refine .get_bind ?_
  by_cases hl : p.look.lexeme = closer frames
  · rw [if_pos hl]
    exact .ok ⟨rfl, hl⟩
  · rw [if_neg hl]
    apply h.faces.fail_ends rfl
    have hlast := h.last
    generalize p.look.lexeme = l at hl hlast
    cases frames with
    | nil | cons => cases l <;> simp_all [closer, Reader.feed, Reader.feedOperator]

/--
What there is to say of a call of `unit` with so many lexemes ahead. On the way to a call of `unit`
inside it are three calls at most for each lexeme asked for, hence the fuel.
-/
def UnitEnds (whole : Scan) (n : Nat) : Prop :=
  ∀ (p : Descent) (frames : List Frame) (fuel : Nat), p.left = n → 3 * n < fuel →
    Faces whole ⟨.operand, frames⟩ p.tokens p →
      Ends whole (fun _ q => BehindUnit whole frames n q) (unit fuel frames.length p)

section

variable {frames : List Frame} {n fuel : Nat}

theorem literal_ends {text : String} {l : Lexeme} (hl : l = .integer text ∨ l = .decimal text)
    (hlook : p.look.lexeme = l) (hroom : frames.length ≠ nestingLimit)
    (h : Faces whole ⟨.operand, frames⟩ p.tokens p) :
    Ends whole (fun _ q => BehindUnit whole frames p.left q) (literal text p) := by
  unfold literal
  cases hvalue : Reader.literal? text with
  | none =>
      apply h.fail_ends hlook
      rcases hl with rfl | rfl <;> simp [Reader.feed, Reader.feedOperand, hroom, hvalue]
  | some value =>
      have hne : l ≠ .endOfInput := by rcases hl with rfl | rfl <;> simp
      have hstep : Reader.Step ⟨.operand, frames⟩ l [.number value]
          ⟨.operator, Reader.closeUnit frames⟩ := by
        rcases hl with rfl | rfl
        · exact .integer hroom hvalue
        · exact .decimal hroom hvalue
      have hleft := left_of_ne (hlook ▸ hne)
      refine .push_bind (((h.past hlook hne hstep).consume_ends _).mono ?_)
      intro _ q hq
      obtain ⟨hfaces, htokens, hless⟩ := hq
      exact ⟨htokens ▸ hfaces, by omega⟩

variable (hunit : ∀ m < n, UnitEnds whole m)

include hunit

/-- The operators behind a unit end: every round leaves fewer lexemes ahead for the next. -/
theorem operators_ends (h : Faces whole ⟨.operator, frames⟩ p.tokens p)
    (hframes : Reader.closeUnit frames = frames) (hn : p.left < n) (hfuel : 3 * p.left < fuel) :
    Ends whole (fun _ q => BehindExpression whole frames p.left q)
      (operators fuel frames.length p) := by
  induction fuel generalizing p with
  | zero => omega
  | succ fuel ih =>
      rw [operators]
      refine .get_bind ?_
      cases hlook : p.look.lexeme with
      | operator op =>
          have hleft : p.left = p.scanner.run.lexemes.length + 1 := left_of_ne (by simp [hlook])
          have hpast := h.past hlook (by simp) (.operator op)
          refine .push_bind (.bind (hpast.consume_ends _) ?_)
          intro _ q hq
          obtain ⟨hfaces, htokens, hless⟩ := hq
          refine .bind (hunit q.left (by omega) q frames fuel rfl (by omega) (htokens ▸ hfaces)) ?_
          intro _ q' hq'
          have hfaces' := hq'.faces
          have hless' := hq'.less
          rw [hframes] at hfaces'
          -- the operator and the unit are gone, and so there is fuel for another round
          refine (ih hfaces' (by omega) (by omega)).mono ?_
          intro _ q'' hq''
          exact ⟨hq''.faces, Nat.le_trans hq''.le (by omega), hq''.last⟩
      | _ => exact .ok ⟨h, Nat.le_refl _, by simp [hlook]⟩

theorem expression_ends (h : Faces whole ⟨.operand, frames⟩ p.tokens p)
    (hframes : Reader.closeUnit frames = frames) (hn : p.left < n)
    (hfuel : 3 * p.left + 1 < fuel) :
    Ends whole (fun _ q => BehindExpression whole frames p.left q)
      (expression fuel frames.length p) := by
  obtain ⟨fuel, rfl⟩ := Nat.exists_eq_add_one_of_ne_zero (Nat.ne_zero_of_lt hfuel)
  rw [expression]
  refine .bind (hunit p.left hn p frames fuel rfl (by omega) h) ?_
  intro _ q hq
  have hfaces := hq.faces
  have hless := hq.less
  rw [hframes] at hfaces
  refine (operators_ends hunit hfaces hframes (by omega) (by omega)).mono ?_
  intro _ q' hq'
  exact ⟨hq'.faces, Nat.le_trans hq'.le hless.le, hq'.last⟩

theorem nested_ends (hn : p.scanner.run.lexemes.length < n)
    (hfuel : 3 * p.scanner.run.lexemes.length + 2 < fuel)
    (h : Past whole ⟨.operand, .parenthesis :: frames⟩ (p.tokens ++ [.leftParen]) p) :
    Ends whole (fun _ q => BehindUnit whole frames n q) (nested fuel (frames.length + 1) p) := by
  obtain ⟨fuel, rfl⟩ := Nat.exists_eq_add_one_of_ne_zero (Nat.ne_zero_of_lt hfuel)
  rw [nested]
  refine .push_bind (.bind (h.consume_ends _) ?_)
  intro _ q hq
  obtain ⟨hfaces, htokens, hless⟩ := hq
  rw [← htokens] at hfaces
  refine .bind (expression_ends hunit hfaces rfl (by omega) (by omega)) ?_
  intro _ q hq
  refine .bind hq.expect_ends ?_
  intro _ _ hclosed
  obtain ⟨rfl, hlook⟩ := hclosed
  have hle := hq.le
  have hleft : q.left = q.scanner.run.lexemes.length + 1 := left_of_ne (by simp [hlook, closer])
  refine .bind ((hq.faces.past hlook (by simp [closer]) .close).consume_ends q.tokens) ?_
  intro _ q' hq'
  obtain ⟨hfaces', htokens', hless'⟩ := hq'
  refine (htokens' ▸ hfaces').push_ends.mono ?_
  intro _ q'' hq''
  exact ⟨hq''.1, by omega⟩

theorem name_ends {text : String} (hn : p.scanner.run.lexemes.length < n)
    (hfuel : 3 * p.scanner.run.lexemes.length + 2 < fuel)
    (h : Past whole ⟨.name text, frames⟩ p.tokens p) :
    Ends whole (fun _ q => BehindUnit whole frames n q)
      (name text fuel (frames.length + 1) p) := by
  obtain ⟨fuel, rfl⟩ := Nat.exists_eq_add_one_of_ne_zero (Nat.ne_zero_of_lt hfuel)
  rw [name]
  refine .bind (h.consume_ends p.tokens) ?_
  intro _ q hq
  obtain ⟨hfaces, htokens, hless⟩ := hq
  refine .get_bind ?_
  by_cases hlook : q.look.lexeme = .leftParen
  · rw [if_pos hlook]
    cases hf : Function.ofName? text with
    | none => exact hfaces.fail_ends hlook (by simp [Reader.feed, Reader.feedName, hf])
    | some f =>
        have hleft : q.left = q.scanner.run.lexemes.length + 1 := left_of_ne (by simp [hlook])
        have hpast := hfaces.past hlook (by simp) (.call hf)
        rw [List.append_cons, ← htokens] at hpast
        refine .push_bind (nested_ends hunit ?_ ?_ (hpast.with_tokens _))
        · show q.scanner.run.lexemes.length < n
          omega
        · show 3 * q.scanner.run.lexemes.length + 2 < fuel
          omega
  · -- a name alone leaves the lexeme behind it at hand
    rw [if_neg hlook]
    refine (htokens ▸ hfaces.bare hlook).push_ends.mono ?_
    intro _ q' hq'
    exact ⟨hq'.1, by omega⟩

theorem negation_ends (hn : p.scanner.run.lexemes.length < n)
    (hfuel : 3 * p.scanner.run.lexemes.length + 2 < fuel)
    (h : Past whole ⟨.operand, .negation :: frames⟩ (p.tokens ++ [.negate]) p) :
    Ends whole (fun _ q => BehindUnit whole frames n q)
      (negation fuel (frames.length + 1) p) := by
  obtain ⟨fuel, rfl⟩ := Nat.exists_eq_add_one_of_ne_zero (Nat.ne_zero_of_lt hfuel)
  rw [negation]
  refine .push_bind (.bind (h.consume_ends _) ?_)
  intro _ q hq
  obtain ⟨hfaces, htokens, hless⟩ := hq
  have hcall := hunit q.left (by omega) q (.negation :: frames) fuel rfl (by omega)
  refine (hcall (htokens ▸ hfaces)).mono ?_
  intro _ q' hq'
  exact ⟨hq'.faces, Nat.lt_trans hq'.less (by omega)⟩

end

/-- **A unit ends.** -/
theorem unit_ends (whole : Scan) (n : Nat) : UnitEnds whole n := by
  induction n using Nat.strongRecOn with
  | ind n ih =>
      intro p frames fuel hleft hfuel h
      subst hleft
      obtain ⟨fuel, rfl⟩ := Nat.exists_eq_add_one_of_ne_zero (Nat.ne_zero_of_lt hfuel)
      rw [unit]
      by_cases hroom : frames.length = nestingLimit
      · rw [if_pos hroom]
        exact h.fail_ends rfl (if_pos hroom)
      · rw [if_neg hroom]
        refine .get_bind ?_
        -- whatever is called has asked for a lexeme before `unit` is called again
        have hless : p.look.lexeme ≠ .endOfInput → p.scanner.run.lexemes.length < p.left ∧
            3 * p.scanner.run.lexemes.length + 2 < fuel := by
          intro hl
          have hleft := left_of_ne hl
          exact ⟨by omega, by omega⟩
        cases hlook : p.look.lexeme with
        | integer text => exact literal_ends (Or.inl rfl) hlook hroom h
        | decimal text => exact literal_ends (Or.inr rfl) hlook hroom h
        | name text =>
            have hpast := h.past hlook (by simp) (.name text hroom)
            rw [List.append_nil] at hpast
            obtain ⟨hn, henough⟩ := hless (by simp [hlook])
            exact name_ends ih hn henough hpast
        | leftParen =>
            obtain ⟨hn, henough⟩ := hless (by simp [hlook])
            exact nested_ends ih hn henough (h.past hlook (by simp) (.group hroom))
        | operator op =>
            cases op with
            | subtract =>
                obtain ⟨hn, henough⟩ := hless (by simp [hlook])
                exact negation_ends ih hn henough (h.past hlook (by simp) (.negation hroom))
            | _ => exact h.fail_ends hlook (by simp [Reader.feed, Reader.feedOperand, hroom])
        | _ => exact h.fail_ends hlook (by simp [Reader.feed, Reader.feedOperand, hroom])

/-- **A formula ends**, and is read as the whole scan. -/
theorem formula_ends (source : Source) {fuel : Nat}
    (hfuel : 3 * (scan source).lexemes.length + 1 < fuel) :
    Ends (scan source)
      (fun tokens q => (scan source).tokens = .ok tokens ∧ q.answers <+: (scan source).answers)
      (formula fuel (ofSource source)) := by
  have hstart : Past (scan source) .start [] (ofSource source) := by
    refine ⟨rfl, ?_⟩
    change (Scan.tokensFrom .start (scan source)).map ([] ++ ·) =
      Scan.tokensFrom .start (scan source)
    cases Scan.tokensFrom .start (scan source) <;> rfl
  refine .bind (hstart.consume_ends []) ?_
  intro _ p hp
  obtain ⟨hfaces, htokens, hleft⟩ := hp
  have hunit : ∀ m < p.left + 1, UnitEnds (scan source) m := fun m _ => unit_ends _ m
  have hempty : Faces (scan source) ⟨.operand, []⟩ p.tokens p := htokens ▸ hfaces
  refine .bind (expression_ends hunit hempty rfl (Nat.lt_succ_self _) (hleft ▸ hfuel)) ?_
  intro _ q hq
  refine .bind hq.expect_ends ?_
  intro _ _ hclosed
  obtain ⟨rfl, hlook⟩ := hclosed
  refine .get_bind (.ok ⟨?_, hq.faces.answers_prefix⟩)
  have hahead : q.ahead = ⟨[q.look], none⟩ := if_pos hlook
  have hreads := hq.faces.reads
  rw [hahead, Scan.tokensFrom_finish hlook] at hreads
  rw [← hreads]
  exact congrArg Except.ok (List.append_nil q.tokens)

/--
**A descent reads what is read lexeme by lexeme.** It ends on every source, with fuel for three
calls a lexeme, and what the scanner has answered by then is a start of what it answers in a scan.
-/
theorem exists_formula_eq (source : Source) :
    ∃ p, (∀ fuel, 3 * (scan source).lexemes.length + 1 < fuel →
        formula fuel (ofSource source) = some (parse source, p)) ∧
      p.answers <+: (scan source).answers := by
  have hends := formula_ends source (Nat.lt_succ_self _)
  generalize hformula : formula _ (ofSource source) = ended at hends
  cases hends with
  | ok hclaim =>
      refine ⟨_, ?_, hclaim.2⟩
      intro fuel hfuel
      rw [parse, hclaim.1]
      exact formula_within hfuel _ _ hformula
  | error herror hanswers =>
      refine ⟨_, ?_, hanswers⟩
      intro fuel hfuel
      rw [parse, herror]
      exact formula_within hfuel _ _ hformula

end Descent

end Formula
