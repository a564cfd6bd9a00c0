import Formula.Program
import Formula.Text.Quoted

/-!
# Running a program

A program runs over a list of values, one for each declared name, with a stack of operands. The
stack may be one that earlier runs have used: it is cleared first, and holds the result alone after
a run that succeeds.

A program that was compiled from a formula has one way to go wrong, a value that was not supplied.
Any other sequence of tokens may fail in the other ways a `Fault` names.
-/

namespace Formula

/-- Why a run ends without a result. -/
inductive Fault where
  /-- A slot beyond the values supplied. -/
  | missingValue (slot supplied : Nat)
  /-- A variable that was never given a slot. -/
  | unresolved (name : String)
  /-- An operator with fewer than two operands. -/
  | missingOperand (op : Operator)
  /-- A minus sign with no operand. -/
  | missingNegated
  /-- A function with no argument. -/
  | missingArgument (f : Function)
  /-- A parenthesis, which no program should hold. -/
  | parenthesis
  /-- An end with no operand, or more than one, on the stack. -/
  | leftover (count : Nat)
  deriving DecidableEq, Repr

/-- The wording of a fault. All but the first tell of a sequence that is no program. -/
def Fault.message : Fault → String
  | missingValue slot supplied =>
    "expression reads value #" ++ Nat.repr slot ++ " but only " ++ Nat.repr supplied ++
      " values were supplied"
  | unresolved name =>
    "internal invariant violated: variable " ++ Text.quoted name ++ " was never resolved"
  | missingOperand op =>
    "internal invariant violated: operand missing for " ++ String.singleton op.symbol
  | missingNegated => "internal invariant violated: operand missing for negation"
  | missingArgument f => "internal invariant violated: argument missing for " ++ f.name
  | parenthesis => "internal invariant violated: parenthesis left in postfix sequence"
  | leftover count =>
    "internal invariant violated: evaluation left " ++ Nat.repr count ++ " values on the stack"

namespace Program

/-- Runs one token on a stack of operands. -/
def step (values : List Float) (token : Token) (stack : Stack Float) :
    Except Fault (Stack Float) :=
  match token with
  | .number value => .ok (stack.push value)
  | .constant c => .ok (stack.push c.value)
  | .var _ (some slot) =>
    match values[slot]? with
    | some value => .ok (stack.push value)
    | none => .error (.missingValue slot values.length)
  | .var name none => .error (.unresolved name)
  | .operator op =>
    match stack with
    | right :: left :: below => .ok (op.apply left right :: below)
    | _ => .error (.missingOperand op)
  | .negate =>
    match stack with
    | top :: below => .ok (-top :: below)
    | [] => .error .missingNegated
  | .function f =>
    match stack with
    | top :: below => .ok (f.apply top :: below)
    | [] => .error (.missingArgument f)
  | .leftParen | .rightParen => .error .parenthesis

/-- What a token that fails leaves behind: an operator has taken its right operand already. -/
def residue (token : Token) (stack : Stack Float) : Stack Float :=
  match token with
  | .operator _ => stack.tail
  | _ => stack

/-- The result of a run that has come to its end: the one operand left. -/
def outcome : Stack Float → Except Fault Float
  | [result] => .ok result
  | stack => .error (.leftover stack.length)

/-- Runs tokens on a stack of operands: the outcome, and the stack as it is then. -/
def runOn (values : List Float) (stack : Stack Float) : Program → Except Fault Float × Stack Float
  | [] => (outcome stack, stack)
  | token :: tokens =>
    match step values token stack with
    | .ok next => runOn values next tokens
    | .error fault => (.error fault, residue token stack)

theorem runOn_of_ok {values : List Float} {token : Token} {stack next : Stack Float}
    (h : step values token stack = .ok next) (tokens : Program) :
    runOn values stack (token :: tokens) = runOn values next tokens := by
  rw [runOn, h]

theorem runOn_of_error {values : List Float} {token : Token} {stack : Stack Float}
    {fault : Fault} (h : step values token stack = .error fault) (tokens : Program) :
    runOn values stack (token :: tokens) = (.error fault, residue token stack) := by
  rw [runOn, h]

/-- Runs a program on a stack that may hold anything; it is cleared first. -/
def run (program : Program) (values : List Float) (stack : Stack Float) :
    Except Fault Float × Stack Float :=
  program.runOn values stack.clear

end Program

end Formula
