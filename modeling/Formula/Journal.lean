import Formula.Compiled

/-!
# What compiling tells on its way

Compiling a formula can be followed from outside: by the text it starts from, the infix sequence it
reads, and the program it arrives at or the names it misses. The text is shown even where it is
malformed.
-/

namespace Formula

/-- A step of compiling worth telling. -/
inductive Event where
  | compiling (formula : List UInt8)
  | parsed (tokens : List Token)
  | unbound (names : List String)
  | resolved (program : Program)
  deriving DecidableEq

/-- The wording of an event. -/
def Event.message : Event → String
  | compiling formula => "Compiling formula: " ++ String.ofList (Utf8.lossy formula)
  | parsed tokens => "Parsed infix sequence: " ++ showTokens tokens
  | unbound names =>
    "Unbound variables: [" ++ ", ".intercalate (names.map Text.quoted) ++ "]"
  | resolved program => "Postfix sequence: " ++ showTokens program

/-- How an infix sequence fares against the declared names. -/
def resolution (declared : List String) (tokens : List Token) : Event :=
  match Program.resolve declared tokens with
  | .ok program => .resolved program
  | .error names => .unbound names

/-- What compiling a formula tells, in order. -/
def journal (formula : List UInt8) (declared : List String) : List Event :=
  .compiling formula ::
    match parse (.ofBytes formula) with
    | .error _ => []
    | .ok tokens => [.parsed tokens, resolution declared tokens]

end Formula
