import Formula.Operator
import Formula.Text.Quoted

/-!
# Lexemes and positions

The smallest pieces of a formula's text that mean something, each with the place where it starts.
-/

namespace Formula

/-- A line and a column, both counted from one. Line zero marks a place that cannot be told. -/
structure Position where
  line : Nat
  column : Nat
  deriving DecidableEq, Repr

namespace Position

/-- The first character of a source. -/
def start : Position := ⟨1, 1⟩

/-- Where the end of an empty source is. -/
def nowhere : Position := ⟨0, 0⟩

/-- The position behind a character: a line feed starts a line. -/
def advance (p : Position) (c : Char) : Position :=
  if c = '\n' then ⟨p.line + 1, 1⟩ else ⟨p.line, p.column + 1⟩

/-- The position behind some characters. -/
def after (p : Position) (cs : List Char) : Position := cs.foldl advance p

@[simp] theorem after_nil (p : Position) : p.after [] = p := rfl

@[simp] theorem after_cons (p : Position) (c : Char) (cs : List Char) :
    p.after (c :: cs) = (p.advance c).after cs := rfl

theorem after_append (p : Position) (cs ds : List Char) :
    p.after (cs ++ ds) = (p.after cs).after ds := List.foldl_append ..

end Position

/-- A piece of a formula's text. -/
inductive Lexeme where
  /-- A literal without a point and without an exponent. -/
  | integer (text : String)
  /-- A literal with a point or an exponent. -/
  | decimal (text : String)
  | name (text : String)
  | operator (op : Operator)
  | leftParen
  | rightParen
  | endOfInput
  deriving DecidableEq, Repr

namespace Lexeme

/-- The text that the lexeme is read from. -/
def text : Lexeme → String
  | integer text | decimal text | name text => text
  | operator op => String.singleton op.symbol
  | leftParen => "("
  | rightParen => ")"
  | endOfInput => ""

/-- How a message speaks of the lexeme: by its kind, or as itself between quotes. -/
def describe : Lexeme → String
  | integer _ => "Int"
  | decimal _ => "Float"
  | name _ => "Ident"
  | endOfInput => "EOF"
  | symbol => Text.quoted symbol.text

end Lexeme

/-- A lexeme and the position of its first character. -/
structure Located where
  lexeme : Lexeme
  position : Position
  deriving DecidableEq, Repr

end Formula
