import Formula.Scanner
import Formula.Token

/-!
# From lexemes to an infix sequence

The grammar is

    expression  :=  unit (operator unit)*
    unit        :=  literal  |  ( expression )  |  - unit  |  name  |  name ( expression )

and a reader follows it one lexeme at a time. All it has to remember is what may come next and
which units are still open: parentheses that wait to be closed, and minus signs that wait for their
operand. A unit is refused when `nestingLimit` others are open around it, whatever lexeme it would
start with.

Each lexeme but the end becomes one token. A name becomes one only when the lexeme behind it is
known, for that decides between a call and a bare name.
-/

namespace Formula

/-- A unit that has begun and not ended. -/
inductive Frame where
  | parenthesis
  | negation
  deriving DecidableEq, Repr

/-- What may come next. -/
inductive Phase where
  /-- A unit must start. -/
  | operand
  /-- A name has been read, and may turn out to be called. -/
  | name (text : String)
  /-- A unit has ended. -/
  | operator
  deriving DecidableEq, Repr

/-- How far a formula has been read: what may come next, and the open units, innermost first. -/
structure Reader where
  phase : Phase
  frames : List Frame
  deriving DecidableEq, Repr

namespace Reader

/-- Before the first lexeme. -/
def start : Reader := ⟨.operand, []⟩

/-- The frames that stay open when a unit ends: the minus signs that waited for it end with it. -/
def closeUnit (frames : List Frame) : List Frame := frames.dropWhile (· == .negation)

/-- The number a literal denotes, if it is finite. -/
def literal? (text : String) : Option Float := (Decimal.ofChars? text.toList).bind Decimal.toFloat?

/-- Reads a lexeme where a unit must start. -/
def feedOperand (frames : List Frame) (l : Lexeme) : Except Cause (List Token × Reader) :=
  if frames.length = nestingLimit then .error .nestedTooDeep
  else
    match l with
    | .integer text | .decimal text =>
      match literal? text with
      | some value => .ok ([.number value], ⟨.operator, closeUnit frames⟩)
      | none => .error (.invalidNumber text)
    | .leftParen => .ok ([.leftParen], ⟨.operand, .parenthesis :: frames⟩)
    | .operator .subtract => .ok ([.negate], ⟨.operand, .negation :: frames⟩)
    | .name text => .ok ([], ⟨.name text, frames⟩)
    | _ => .error (.unexpected l)

/-- Reads a lexeme behind a unit that has ended; no minus sign waits any more. -/
def feedOperator (frames : List Frame) (l : Lexeme) : Except Cause (List Token × Reader) :=
  match l, frames with
  | .operator op, _ => .ok ([.operator op], ⟨.operand, frames⟩)
  | .rightParen, _ :: outer => .ok ([.rightParen], ⟨.operator, closeUnit outer⟩)
  | .endOfInput, [] => .ok ([], ⟨.operator, []⟩)
  | _, [] => .error (.expected .endOfInput l)
  | _, _ :: _ => .error (.expected .rightParen l)

/-- Reads a lexeme behind a name: a call if it is a parenthesis, and else a unit of its own. -/
def feedName (name : String) (frames : List Frame) (l : Lexeme) :
    Except Cause (List Token × Reader) :=
  match l with
  | .leftParen =>
    match Function.ofName? name with
    | some f => .ok ([.function f, .leftParen], ⟨.operand, .parenthesis :: frames⟩)
    | none => .error (.unknownFunction name)
  | _ => (feedOperator (closeUnit frames) l).map fun read => (Token.ofName name :: read.1, read.2)

/-- Reads one lexeme: the tokens that are certain now, and how to go on. -/
def feed (r : Reader) (l : Lexeme) : Except Cause (List Token × Reader) :=
  match r.phase with
  | .operand => feedOperand r.frames l
  | .name text => feedName text r.frames l
  | .operator => feedOperator r.frames l

/-- Reads lexemes in order, stopping at the first that cannot continue those before it. -/
def feedAll (r : Reader) : List Located → Except SyntaxError (List Token × Reader)
  | [] => .ok ([], r)
  | l :: ls =>
    match r.feed l.lexeme with
    | .error cause => .error ⟨cause, l.position⟩
    | .ok (tokens, next) =>
      (next.feedAll ls).map fun read => (tokens ++ read.1, read.2)

end Reader

/--
The infix sequence of a scanned source. What is wrong with the grammar is found before what is wrong
with the text behind it.
-/
def Scan.tokens (s : Scan) : Except SyntaxError (List Token) :=
  match Reader.start.feedAll s.lexemes, s.failure with
  | .error e, _ => .error e
  | .ok _, some e => .error e
  | .ok (tokens, _), none => .ok tokens

/-- Reads a formula as an infix sequence. -/
def parse (source : Source) : Except SyntaxError (List Token) := (scan source).tokens

end Formula
