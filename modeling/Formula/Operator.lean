/-!
# Binary operators

The five operators a formula may write between two operands, how tightly each binds, and what each
computes. `^` alone associates to the right.
-/

namespace Formula

/-- An operator between two operands. -/
inductive Operator where
  | add
  | subtract
  | multiply
  | divide
  | power
  deriving DecidableEq, Repr

namespace Operator

/-- Every operator, in the order of declaration. -/
def all : List Operator := [add, subtract, multiply, divide, power]

/-- How tightly the operator binds: a greater number binds tighter. -/
def precedence : Operator → Nat
  | power => 4
  | multiply | divide => 3
  | add | subtract => 2

/-- Whether a chain of the operator groups from the right. -/
def groupsRight : Operator → Bool
  | power => true
  | _ => false

/-- The character that writes the operator. -/
def symbol : Operator → Char
  | add => '+'
  | subtract => '-'
  | multiply => '*'
  | divide => '/'
  | power => '^'

/-- The operator that a character writes. -/
def ofSymbol? (c : Char) : Option Operator := all.find? (·.symbol == c)

/-- IEEE arithmetic: dividing by zero gives an infinity or a NaN, and is no error. -/
def apply (op : Operator) (left right : Float) : Float :=
  match op with
  | add => left + right
  | subtract => left - right
  | multiply => left * right
  | divide => left / right
  | power => left.pow right

theorem ofSymbol?_symbol (op : Operator) : ofSymbol? op.symbol = some op := by
  cases op <;> rfl

theorem symbol_of_ofSymbol?_eq_some {c : Char} {op : Operator} (h : ofSymbol? c = some op) :
    op.symbol = c := by
  have := List.find?_some h
  simpa using this

/-- A character is found just if it is in the table. -/
theorem ofSymbol?_eq_some_iff {c : Char} {op : Operator} :
    ofSymbol? c = some op ↔ op.symbol = c := by
  refine ⟨symbol_of_ofSymbol?_eq_some, ?_⟩
  intro h
  rw [← h, ofSymbol?_symbol]

end Operator

end Formula
