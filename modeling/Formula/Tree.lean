import Formula.Program

/-!
# What a formula means

An infix sequence denotes a tree, in which each operator stands above its operands. `Denotes` says
which, by a grammar with one level for each strength of binding: a unit binds tightest, then `^`,
which groups from the right, then `*` and `/`, then `+` and `-`, which group from the left. A minus
sign and a function belong to the one unit behind them. Parentheses leave no trace.

Nothing here mentions a stack: a tree is evaluated by recursion, and listed by recursion, and these
are what a program and a run of it are measured against.
-/

namespace Formula

/-- A formula as a tree of operations. -/
inductive Tree where
  | constant (c : Constant)
  | number (value : Float)
  | var (name : String)
  | negate (operand : Tree)
  | call (f : Function) (argument : Tree)
  | binary (op : Operator) (left right : Tree)
  deriving DecidableEq

namespace Tree

/-- The value of a tree, given the value of each name. -/
def value (env : String → Float) : Tree → Float
  | constant c => c.value
  | number value => value
  | var name => env name
  | negate operand => -operand.value env
  | call f argument => f.apply (argument.value env)
  | binary op left right => op.apply (left.value env) (right.value env)

/-- The names that a tree reads, from left to right, with repetitions. -/
def names : Tree → List String
  | constant _ | number _ => []
  | var name => [name]
  | negate operand => operand.names
  | call _ argument => argument.names
  | binary _ left right => left.names ++ right.names

/-- The tree's tokens with operands first, each name bound among the declared ones. -/
def listing (declared : List String) : Tree → Program
  | constant c => [.constant c]
  | number value => [.number value]
  | var name => [.var name (slotOf? name declared)]
  | negate operand => operand.listing declared ++ [.negate]
  | call f argument => argument.listing declared ++ [.function f]
  | binary op left right => left.listing declared ++ right.listing declared ++ [.operator op]

end Tree

/-- How tightly the parts of an infix sequence hold together. -/
inductive Level where
  /-- A single operand, a group, a call, or one of these behind minus signs. -/
  | unit
  /-- Units joined by `^`. -/
  | power
  /-- Powers joined by `*` and `/`. -/
  | product
  /-- Products joined by `+` and `-`. -/
  | sum
  deriving DecidableEq, Repr

/-- The infix sequence holds together at the level, and denotes the tree. -/
inductive Denotes : Level → List Token → Tree → Prop where
  | constant (c : Constant) : Denotes .unit [.constant c] (.constant c)
  | number (value : Float) : Denotes .unit [.number value] (.number value)
  | var (name : String) (slot : Option Nat) : Denotes .unit [.var name slot] (.var name)
  | group {ts : List Token} {t : Tree} :
      Denotes .sum ts t → Denotes .unit (.leftParen :: ts ++ [.rightParen]) t
  | negate {ts : List Token} {t : Tree} :
      Denotes .unit ts t → Denotes .unit (.negate :: ts) (.negate t)
  | call {f : Function} {ts : List Token} {t : Tree} :
      Denotes .sum ts t →
      Denotes .unit (.function f :: .leftParen :: ts ++ [.rightParen]) (.call f t)
  | ofUnit {ts : List Token} {t : Tree} : Denotes .unit ts t → Denotes .power ts t
  | power {ls rs : List Token} {l r : Tree} :
      Denotes .unit ls l → Denotes .power rs r →
      Denotes .power (ls ++ .operator .power :: rs) (.binary .power l r)
  | ofPower {ts : List Token} {t : Tree} : Denotes .power ts t → Denotes .product ts t
  | product {op : Operator} {ls rs : List Token} {l r : Tree} :
      op = .multiply ∨ op = .divide → Denotes .product ls l → Denotes .power rs r →
      Denotes .product (ls ++ .operator op :: rs) (.binary op l r)
  | ofProduct {ts : List Token} {t : Tree} : Denotes .product ts t → Denotes .sum ts t
  | sum {op : Operator} {ls rs : List Token} {l r : Tree} :
      op = .add ∨ op = .subtract → Denotes .sum ls l → Denotes .product rs r →
      Denotes .sum (ls ++ .operator op :: rs) (.binary op l r)

end Formula
