import Formula.Constant
import Formula.Function
import Formula.Number.Shortest
import Formula.Operator

/-!
# Tokens

The elements of a formula once it has been read, both in the order in which it was written and in
the order in which it is run.
-/

namespace Formula

/-- One element of an infix sequence or of a program. -/
inductive Token where
  | constant (c : Constant)
  | leftParen
  | rightParen
  | function (f : Function)
  | operator (op : Operator)
  /-- The minus of a single operand. -/
  | negate
  | number (value : Float)
  /-- A variable, and its position among the declared names once that is known. -/
  | var (name : String) (slot : Option Nat)
  deriving DecidableEq

namespace Token

/-- What a bare name stands for: the constant of that name, or else a variable. -/
def ofName (name : String) : Token :=
  match Constant.ofName? name with
  | some c => .constant c
  | none => .var name none

theorem ofName_name (c : Constant) : ofName c.name = .constant c := by
  rw [ofName, Constant.ofName?_name]

theorem ofName_of_free {name : String} (h : ∀ c : Constant, c.name ≠ name) :
    ofName name = .var name none := by
  rw [ofName, Constant.ofName?_eq_none_iff.mpr h]

/-- Whether the token stands for a value of its own. -/
def isOperand : Token → Bool
  | .constant _ | .number _ | .var _ _ => true
  | _ => false

/-- The name a variable reads. -/
def varName? : Token → Option String
  | .var name _ => some name
  | _ => none

/-- The token as it is shown. -/
def text : Token → String
  | .constant c => c.name
  | .leftParen => "("
  | .rightParen => ")"
  | .function f => f.name
  | .operator op => String.singleton op.symbol
  | .negate => "neg"
  | .number value => Shortest.text value
  | .var name _ => name

/--
Whether two tokens are the same token, numbers being compared as numbers: zero and negative zero
are the same, and a NaN is not the same as itself.
-/
def same : Token → Token → Bool
  | .number a, .number b => a == b
  | a, b => decide (a = b)

end Token

/-- A token sequence as it is shown: its tokens with one space between them. -/
def showTokens (tokens : List Token) : String := " ".intercalate (tokens.map Token.text)

/-- A token as a formula writes it: a minus sign of a single operand is written as one. -/
def Token.spelling : Token → String
  | .negate => "-"
  | token => token.text

/-- A formula that reads as the given infix sequence: its tokens as they are written, with one space
between them. -/
def spellTokens (tokens : List Token) : String := " ".intercalate (tokens.map Token.spelling)

/-- Whether two sequences hold the same tokens in the same order. -/
def sameTokens : List Token → List Token → Bool
  | [], [] => true
  | a :: as, b :: bs => a.same b && sameTokens as bs
  | _, _ => false

end Formula
