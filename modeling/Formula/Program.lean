import Formula.Binding
import Formula.Stack

/-!
# Programs

A program is a formula in the order in which it is computed: operands first, then the operator that
takes them. It holds no parentheses if the formula's are balanced.

An infix sequence is put in order with a stack of pending tokens. An operand goes straight out. An
operator waits until one comes that binds less tightly, a minus sign or a function until its operand
is complete, and a left parenthesis until its partner comes.
-/

namespace Formula

/-- Tokens in the order in which they are run. -/
abbrev Program := List Token

namespace Program

/-- Whether a pending token has its last operand once `incoming` is met. -/
def givesWay (incoming : Operator) : Token → Bool
  | .negate | .function _ => true
  | .operator op =>
    incoming.precedence < op.precedence ||
      (op.precedence == incoming.precedence && !incoming.groupsRight)
  | _ => false

/-- Takes one infix token: the tokens that go out, and those that are pending then. -/
def place (pending : Stack Token) (token : Token) : List Token × Stack Token :=
  match token with
  | .negate | .function _ | .leftParen => ([], pending.push token)
  | .operator op =>
    let popped := pending.popWhile (givesWay op)
    (popped.1, popped.2.push token)
  | .rightParen => pending.popThrough (· = .leftParen)
  | .var _ _ | .constant _ | .number _ => ([token], pending)

/-- Puts an infix sequence in order behind the tokens that are pending already. -/
def arrange (pending : Stack Token) : List Token → Program
  | [] => pending.drainOnto []
  | token :: tokens =>
    let placed := place pending token
    placed.1 ++ arrange placed.2 tokens

/-- The program of an infix sequence. -/
def ofInfix (tokens : List Token) : Program := arrange [] tokens

/-- Binds the names of an infix sequence and puts it in order, or gives those that are unbound. -/
def resolve (declared : List String) (tokens : List Token) : Except (List String) Program :=
  match unboundNames declared tokens with
  | [] => .ok (ofInfix (tokens.map (Token.bind declared)))
  | names => .error names

/-- The names that a program reads, in order of their first occurrence, once each. -/
def names (program : Program) : List String := distinctNames (readNames program)

/-- The greatest number of operands held while a program runs, when `held` are held before. -/
def peakFrom (held : Nat) : Program → Nat
  | [] => 0
  | token :: tokens =>
    match token with
    | .number _ | .constant _ | .var _ _ => max (held + 1) (peakFrom (held + 1) tokens)
    | .operator _ => peakFrom (held - 1) tokens
    | _ => peakFrom held tokens

/-- The greatest number of operands that a program holds at once. -/
def peak (program : Program) : Nat := program.peakFrom 0

end Program

end Formula
