import Formula.Lexeme

/-!
# What can be wrong with a formula

A formula is refused either for its text, at a position, or for the names it reads that nobody
declared. Each cause is a constructor; its wording is in `message`.
-/

namespace Formula

/-- How many units may be open at once. -/
def nestingLimit : Nat := 256

/-- Why a text is no formula. -/
inductive Cause where
  /-- The text is not well-formed UTF-8. -/
  | malformedText
  /-- A character that begins no lexeme. -/
  | strayCharacter (c : Char)
  /-- An exponent mark with no digit behind it. -/
  | exponentWithoutDigits
  /-- A lexeme where an operand must start. -/
  | unexpected (got : Lexeme)
  /-- A lexeme where only one other, or an operator, could stand. -/
  | expected (wanted got : Lexeme)
  /-- A call of a name that is no function's. -/
  | unknownFunction (name : String)
  /-- A literal that denotes no finite number. -/
  | invalidNumber (text : String)
  /-- More units open at once than are allowed. -/
  | nestedTooDeep
  deriving DecidableEq, Repr

/-- The wording of a cause. -/
def Cause.message : Cause → String
  | malformedText => "invalid UTF-8 encoding"
  | strayCharacter c => "unexpected token: " ++ Text.quoted (String.singleton c)
  | exponentWithoutDigits => "exponent has no digits"
  | unexpected got => "unexpected token: " ++ got.describe
  | expected wanted got => "expected " ++ wanted.describe ++ ", got " ++ got.describe
  | unknownFunction name => "no function named: " ++ Text.quoted name
  | invalidNumber text => "invalid float: " ++ Text.quoted text
  | nestedTooDeep => "nesting depth exceeds maximum of " ++ Nat.repr nestingLimit

/-- A cause and the position of the lexeme to blame. -/
structure SyntaxError where
  cause : Cause
  position : Position
  deriving DecidableEq, Repr

/-- The position and the wording of the cause. -/
def SyntaxError.message (e : SyntaxError) : String :=
  Nat.repr e.position.line ++ ":" ++ Nat.repr e.position.column ++ " : " ++ e.cause.message

/-- Why a formula does not compile. -/
inductive CompileError where
  | malformed (error : SyntaxError)
  /-- The names read but not declared, in order and once each. -/
  | unbound (names : List String)
  deriving DecidableEq, Repr

/-- The wording of the error. -/
def CompileError.message : CompileError → String
  | malformed error => error.message
  | unbound names => "missing variables: [" ++ " ".intercalate names ++ "]"

end Formula
