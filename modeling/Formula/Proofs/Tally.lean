import Mathlib.Data.List.Induction
import Formula.Machine

/-!
# Counting instead of running

Whether a sequence of tokens can be run is seen without running it. An operand puts one value on the
stack, a binary operator takes one off it in the end, and no other token changes how many there are.
So behind tokens that could be run the stack holds as many values as they have operands more than
binary operators, and the counts of what stands in front of a token say whether the token finds what
it takes (`Ready`).

The first token that does not is where the run ends (`Offends`), whatever stands behind it. If there
is none the run comes to its end, and the counts of the whole sequence say what is left.
-/

namespace Formula

/-- Whether the token takes two operands. -/
def Token.isBinary : Token → Bool
  | .operator _ => true
  | _ => false

namespace Program

/-- How many tokens stand for a value of their own. -/
def operandCount (program : Program) : Nat := program.countP Token.isOperand

/-- How many tokens take two operands. -/
def binaryCount (program : Program) : Nat := program.countP Token.isBinary

theorem operandCount_concat (before : Program) (token : Token) :
    operandCount (before ++ [token]) =
      operandCount before + if token.isOperand then 1 else 0 := by
  rw [operandCount, List.countP_append, List.countP_singleton]
  rfl

theorem binaryCount_concat (before : Program) (token : Token) :
    binaryCount (before ++ [token]) = binaryCount before + if token.isBinary then 1 else 0 := by
  rw [binaryCount, List.countP_append, List.countP_singleton]
  rfl

/-! ## What a token asks of those in front of it -/

/-- The token finds what it takes behind these. -/
def Ready (values : List Float) (before : Program) : Token → Prop
  | .number _ | .constant _ => True
  | .var _ slot => ∃ i, slot = some i ∧ i < values.length
  | .operator _ => binaryCount before + 2 ≤ operandCount before
  | .negate | .function _ => binaryCount before + 1 ≤ operandCount before
  | .leftParen | .rightParen => False

/-- The token does not find what it takes behind these, and this is how it says so. -/
inductive Offends (values : List Float) (before : Program) : Token → Fault → Prop where
  | missingValue (name : String) {slot : Nat} : values.length ≤ slot →
      Offends values before (.var name (some slot)) (.missingValue slot values.length)
  | unresolved (name : String) : Offends values before (.var name none) (.unresolved name)
  | missingOperand (op : Operator) : operandCount before < binaryCount before + 2 →
      Offends values before (.operator op) (.missingOperand op)
  | missingNegated : operandCount before < binaryCount before + 1 →
      Offends values before .negate .missingNegated
  | missingArgument (f : Function) : operandCount before < binaryCount before + 1 →
      Offends values before (.function f) (.missingArgument f)
  | leftParen : Offends values before .leftParen .parenthesis
  | rightParen : Offends values before .rightParen .parenthesis

variable {values : List Float} {before program : Program} {token : Token} {fault : Fault}

theorem not_ready_of_offends (h : Offends values before token fault) :
    ¬Ready values before token := by
  cases h with
  | missingValue name hshort =>
      rintro ⟨i, hslot, hi⟩
      cases hslot
      omega
  | unresolved name =>
      rintro ⟨i, hslot, _⟩
      cases hslot
  | missingOperand _ hfew | missingNegated hfew | missingArgument _ hfew =>
      exact Nat.not_le.mpr hfew
  | leftParen | rightParen => exact False.elim

theorem exists_offends_of_not_ready (h : ¬Ready values before token) :
    ∃ fault, Offends values before token fault := by
  cases token with
  | number | constant => exact absurd trivial h
  | var name slot =>
      cases slot with
      | none => exact ⟨_, .unresolved name⟩
      | some slot => exact ⟨_, .missingValue name (Nat.not_lt.mp fun hlt => h ⟨slot, rfl, hlt⟩)⟩
  | operator op => exact ⟨_, .missingOperand op (Nat.not_le.mp h)⟩
  | negate => exact ⟨_, .missingNegated (Nat.not_le.mp h)⟩
  | function f => exact ⟨_, .missingArgument f (Nat.not_le.mp h)⟩
  | leftParen => exact ⟨_, .leftParen⟩
  | rightParen => exact ⟨_, .rightParen⟩

/-! ## One token -/

/-- The stack holds as many values as the tokens have operands more than binary operators. -/
def Tallies (before : Program) (stack : Stack Float) : Prop :=
  stack.length + binaryCount before = operandCount before

/-- **A token that is ready can be run, and keeps the tally.** -/
theorem step_of_ready {stack : Stack Float} (hstack : Tallies before stack)
    (h : Ready values before token) :
    ∃ next, step values token stack = .ok next ∧ Tallies (before ++ [token]) next := by
  unfold Tallies at hstack ⊢
  rw [operandCount_concat, binaryCount_concat]
  cases token with
  | number value => exact ⟨_, rfl, by simp [Stack.push, Token.isOperand, Token.isBinary]; omega⟩
  | constant c => exact ⟨_, rfl, by simp [Stack.push, Token.isOperand, Token.isBinary]; omega⟩
  | var name slot =>
      obtain ⟨i, rfl, hi⟩ := h
      refine ⟨values[i] :: stack, by simp [step, hi, Stack.push], ?_⟩
      simp [Token.isOperand, Token.isBinary]
      omega
  | operator op =>
      have htwo : binaryCount before + 2 ≤ operandCount before := h
      cases stack with
      | nil =>
          simp only [List.length_nil] at hstack
          omega
      | cons right rest =>
          cases rest with
          | nil =>
              simp only [List.length_singleton] at hstack
              omega
          | cons left below =>
              refine ⟨_, rfl, ?_⟩
              simp [Token.isOperand, Token.isBinary] at hstack ⊢
              omega
  | negate | function =>
      have hone : binaryCount before + 1 ≤ operandCount before := h
      cases stack with
      | nil =>
          simp only [List.length_nil] at hstack
          omega
      | cons top below => exact ⟨_, rfl, by simpa [Token.isOperand, Token.isBinary] using hstack⟩
  | leftParen | rightParen => exact False.elim h

/-- **A token that offends ends the run in its own way.** -/
theorem step_of_offends {stack : Stack Float} (hstack : Tallies before stack)
    (h : Offends values before token fault) : step values token stack = .error fault := by
  unfold Tallies at hstack
  cases h with
  | missingValue name hshort => simp [step, hshort]
  | unresolved | leftParen | rightParen => rfl
  | missingOperand op hfew =>
      cases stack with
      | nil => rfl
      | cons right rest =>
          cases rest with
          | nil => rfl
          | cons left below =>
              simp only [List.length_cons] at hstack
              omega
  | missingNegated hfew | missingArgument f hfew =>
      cases stack with
      | nil => rfl
      | cons top below =>
          simp only [List.length_cons] at hstack
          omega

/-! ## Whole runs -/

/-- Every token finds what it takes behind those in front of it. -/
def AllReady (values : List Float) (program : Program) : Prop :=
  ∀ before token after, program = before ++ token :: after → Ready values before token

theorem AllReady.of_append {after : Program} (h : AllReady values (before ++ after)) :
    AllReady values before := by
  intro first token more hsplit
  exact h first token (more ++ after) (by rw [hsplit, List.append_assoc, List.cons_append])

theorem allReady_concat_iff :
    AllReady values (before ++ [token]) ↔ AllReady values before ∧ Ready values before token := by
  refine ⟨?_, ?_⟩
  · intro h
    exact ⟨h.of_append, h before token [] rfl⟩
  · rintro ⟨hbefore, htoken⟩ first other more hsplit
    -- the token is either the last one or one of those in front of it
    rcases List.eq_nil_or_concat more with rfl | ⟨more, last, rfl⟩
    · obtain ⟨rfl, heq⟩ := List.append_inj' hsplit rfl
      cases heq
      exact htoken
    · rw [List.concat_eq_append, ← List.cons_append, ← List.append_assoc] at hsplit
      obtain ⟨hinit, _⟩ := List.append_inj' hsplit rfl
      exact hbefore first other more hinit

/-- **Tokens that are all ready are run through**, and leave what they tally to. -/
theorem exists_stack_of_allReady (h : AllReady values before) :
    ∃ stack, Tallies before stack ∧
      ∀ after, runOn values [] (before ++ after) = runOn values stack after := by
  -- from the front to the back: what a token asks for is told by all of those in front of it
  induction before using List.reverseRecOn with
  | nil => exact ⟨[], rfl, fun _ => rfl⟩
  | append_singleton before token ih =>
      obtain ⟨hbefore, htoken⟩ := allReady_concat_iff.mp h
      obtain ⟨stack, hstack, hrun⟩ := ih hbefore
      obtain ⟨next, hstep, hnext⟩ := step_of_ready hstack htoken
      refine ⟨next, hnext, ?_⟩
      intro after
      rw [List.append_assoc, hrun, List.singleton_append, runOn_of_ok hstep]

/-- A token stands first among those that offend, and this is how it does. -/
def FirstOffends (values : List Float) (program : Program) (fault : Fault) : Prop :=
  ∃ before token after, program = before ++ token :: after ∧ AllReady values before ∧
    Offends values before token fault

theorem allReady_or_firstOffends (values : List Float) (program : Program) :
    AllReady values program ∨ ∃ fault, FirstOffends values program fault := by
  induction program using List.reverseRecOn with
  | nil => exact Or.inl fun before token after hsplit => absurd hsplit (by simp)
  | append_singleton program last ih =>
      rcases ih with hready | ⟨fault, before, token, after, rfl, hbefore, hfault⟩
      · by_cases hlast : Ready values program last
        · exact Or.inl (allReady_concat_iff.mpr ⟨hready, hlast⟩)
        · obtain ⟨fault, hfault⟩ := exists_offends_of_not_ready hlast
          exact Or.inr ⟨fault, program, last, [], rfl, hready, hfault⟩
      · exact Or.inr ⟨fault, before, token, after ++ [last], by simp, hbefore, hfault⟩

theorem not_allReady_of_firstOffends (h : FirstOffends values program fault) :
    ¬AllReady values program := by
  obtain ⟨before, token, after, hsplit, _, hfault⟩ := h
  exact fun hready => not_ready_of_offends hfault (hready before token after hsplit)

/-- **A run ends on the first token that offends.** -/
theorem run_of_firstOffends (h : FirstOffends values program fault) (stack : Stack Float) :
    (program.run values stack).1 = .error fault := by
  obtain ⟨before, token, after, rfl, hbefore, hfault⟩ := h
  obtain ⟨held, hheld, hrun⟩ := exists_stack_of_allReady hbefore
  have hfirst : runOn values [] (before ++ token :: after) =
      (.error fault, residue token held) := by
    rw [hrun, runOn_of_error (step_of_offends hheld hfault)]
  exact congrArg Prod.fst hfirst

/-- **A run that no token ends leaves what the sequence tallies to.** -/
theorem run_of_allReady (h : AllReady values program) (stack : Stack Float) :
    ∃ left, Tallies program left ∧ (program.run values stack).1 = outcome left := by
  obtain ⟨left, hleft, hrun⟩ := exists_stack_of_allReady h
  have hend : runOn values [] (program ++ []) = (outcome left, left) := hrun []
  rw [List.append_nil] at hend
  exact ⟨left, hleft, congrArg Prod.fst hend⟩

/-- The counts say of a sequence that it leaves one value. -/
structure WellFormed (values : List Float) (program : Program) : Prop where
  /-- No token offends, -/
  ready : AllReady values program
  /-- and one operand is over. -/
  single : operandCount program = binaryCount program + 1

/-- The end of a run tells its count. -/
theorem outcome_cases {left : Stack Float} (h : Tallies program left) :
    (operandCount program = binaryCount program + 1 ∧ ∃ x, outcome left = .ok x) ∨
      operandCount program ≠ binaryCount program + 1 ∧
        ∃ n, operandCount program = binaryCount program + n ∧
          outcome left = .error (.leftover n) := by
  have hcount : operandCount program = binaryCount program + left.length := by
    rw [Nat.add_comm]
    exact h.symm
  cases left with
  | nil => exact Or.inr ⟨by rw [hcount]; simp, 0, hcount, rfl⟩
  | cons x rest =>
      cases rest with
      | nil => exact Or.inl ⟨hcount, x, rfl⟩
      | cons y below => exact Or.inr ⟨by rw [hcount]; simp, (x :: y :: below).length, hcount, rfl⟩

end Program

/--
**Counting decides a run.** Whatever the sequence, the values, and what was on the stack before, the
run has a result just when every token finds what it takes behind those in front of it, and one
operand is over in the whole. Otherwise it ends on the first token that does not, in that token's
way, and if there is none, on what is left: as many values as there are operands more than binary
operators.
-/
theorem run_decided_by_counts (program : Program) (values : List Float) (stack : Stack Float) :
    ((∃ x, (program.run values stack).1 = .ok x) ↔ program.WellFormed values) ∧
    (∀ fault, (program.run values stack).1 = .error fault ↔
      program.FirstOffends values fault ∨
        program.AllReady values ∧ program.operandCount ≠ program.binaryCount + 1 ∧
          ∃ n, program.operandCount = program.binaryCount + n ∧ fault = .leftover n ∧
            fault.message = "internal invariant violated: evaluation left " ++ Nat.repr n ++
              " values on the stack") := by
  rcases Program.allReady_or_firstOffends values program with hready | ⟨first, hfirst⟩
  · obtain ⟨left, hleft, hrun⟩ := Program.run_of_allReady hready stack
    have hnone : ∀ fault, ¬program.FirstOffends values fault :=
      fun fault h => Program.not_allReady_of_firstOffends h hready
    rw [hrun]
    rcases Program.outcome_cases hleft with ⟨hsingle, x, hx⟩ | ⟨hcount, n, hn, herror⟩
    · rw [hx]
      refine ⟨⟨fun _ => ⟨hready, hsingle⟩, fun _ => ⟨x, rfl⟩⟩, ?_⟩
      intro fault
      simp [hnone, hsingle]
    · rw [herror]
      refine ⟨⟨by simp, fun h => absurd h.single hcount⟩, ?_⟩
      intro fault
      refine ⟨?_, ?_⟩
      · intro h
        cases h
        exact Or.inr ⟨hready, hcount, n, hn, rfl, rfl⟩
      · rintro (h | ⟨_, _, m, hm, rfl, _⟩)
        · exact absurd h (hnone fault)
        · rw [show n = m by omega]
  · have hrun := Program.run_of_firstOffends hfirst stack
    have hnot := Program.not_allReady_of_firstOffends hfirst
    rw [hrun]
    refine ⟨⟨by simp, fun h => absurd h.ready hnot⟩, ?_⟩
    intro fault
    refine ⟨?_, ?_⟩
    · intro h
      cases h
      exact Or.inl hfirst
    · rintro (h | ⟨hready, _⟩)
      · rw [← hrun, Program.run_of_firstOffends h stack]
      · exact absurd hready hnot

/-- An operator with one operand is blamed before the parenthesis behind it. -/
example : (Program.run [.number 1.0, .operator .add, .leftParen] [] []).1 =
    .error (.missingOperand .add) := rfl

end Formula
