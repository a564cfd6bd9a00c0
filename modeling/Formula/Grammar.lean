import Formula.Reader

/-!
# The grammar

Which lists of lexemes are formulas, said without a reader: what a literal says is left to numbers,
and what a name means to the tables of functions and constants. An expression is a chain of units
with operators between them; a unit is a literal, a name, a group, a call, or a unit behind a minus
sign. `Derives` also counts: its number bounds how many units are open at once, the innermost
included.

`tokensOf` is the infix sequence that a formula's lexemes stand for. Two lexemes mean different
things in different places: a minus where a unit must start is a negation, and a name in front of a
parenthesis is a function.
-/

namespace Formula

/-- The kinds of phrase. -/
inductive Category where
  | unit
  | expression
  deriving DecidableEq, Repr

/-- A text says a number: it is written as a decimal, and the number nearest to that is finite. -/
def SaysNumber (text : String) (value : Float) : Prop :=
  ∃ d, Decimal.ofChars? text.toList = some d ∧ d.toFloat? = some value

/-- The lexemes form a phrase in which at most so many units are open at once. -/
inductive Derives : Category → Nat → List Lexeme → Prop where
  | integer {n : Nat} {text : String} :
      (∃ value, SaysNumber text value) → Derives .unit (n + 1) [.integer text]
  | decimal {n : Nat} {text : String} :
      (∃ value, SaysNumber text value) → Derives .unit (n + 1) [.decimal text]
  | name {n : Nat} (text : String) : Derives .unit (n + 1) [.name text]
  | group {n : Nat} {ls : List Lexeme} :
      Derives .expression n ls → Derives .unit (n + 1) (.leftParen :: ls ++ [.rightParen])
  | negation {n : Nat} {ls : List Lexeme} :
      Derives .unit n ls → Derives .unit (n + 1) (.operator .subtract :: ls)
  | call {n : Nat} {text : String} {ls : List Lexeme} :
      (∃ f : Function, f.name = text) → Derives .expression n ls →
      Derives .unit (n + 1) (.name text :: .leftParen :: ls ++ [.rightParen])
  | single {n : Nat} {ls : List Lexeme} : Derives .unit n ls → Derives .expression n ls
  | chain {n : Nat} {op : Operator} {ls rest : List Lexeme} :
      Derives .unit n ls → Derives .expression n rest →
      Derives .expression n (ls ++ .operator op :: rest)

/-- What a name stands for that is not called: the constant of that name, or else a variable. -/
def bareName (text : String) : List Token :=
  match Constant.all.filter (·.name = text) with
  | [] => [.var text none]
  | named => named.map Token.constant

/-- What a lexeme other than a minus stands for, a name if it is not called. -/
def Lexeme.token : Lexeme → List Token
  | .integer text | .decimal text =>
    (((Decimal.ofChars? text.toList).bind Decimal.toFloat?).map Token.number).toList
  | .operator op => [.operator op]
  | .leftParen => [.leftParen]
  | .rightParen => [.rightParen]
  | .name text => bareName text
  | .endOfInput => []

/-- Whether a unit must start behind the lexeme. -/
def Lexeme.opensUnit : Lexeme → Bool
  | .operator _ | .leftParen => true
  | _ => false

/-- What a lexeme stands for, given whether a unit must start there and the lexeme behind it. -/
def Lexeme.tokenAt (fresh : Bool) (l : Lexeme) (behind : Option Lexeme) : List Token :=
  match l with
  | .operator .subtract => [if fresh then .negate else .operator .subtract]
  | .name text =>
    if behind = some .leftParen then (Function.all.filter (·.name = text)).map Token.function
    else bareName text
  | _ => l.token

/-- The infix sequence that lexemes stand for, given whether a unit must start at the first. -/
def tokensOf (fresh : Bool) : List Lexeme → List Token
  | [] => []
  | l :: ls => l.tokenAt fresh ls.head? ++ tokensOf l.opensUnit ls

/--
The lexemes begin some formula, however deep it may be nested: a formula and the end of its input
start with them.
-/
def Viable (ls : List Lexeme) : Prop :=
  ∃ formula, (∃ n, Derives .expression n formula) ∧ ls <+: formula ++ [.endOfInput]

/-! ## What a reader looks up -/

theorem literal?_eq_some_iff {text : String} {value : Float} :
    Reader.literal? text = some value ↔ SaysNumber text value := Option.bind_eq_some_iff

theorem bareName_eq (text : String) : bareName text = [Token.ofName text] := by
  rw [bareName, Constant.filter_name_all, Token.ofName]
  cases Constant.ofName? text <;> rfl

end Formula
