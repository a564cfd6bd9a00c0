import Formula.Token

/-!
# Names and slots

A variable reads the value at the position of its name among the declared names. A name declared
twice means its last position. Names that are not declared are collected, not refused one by one,
and reported in order of their code points.
-/

namespace Formula

/-- The last position of a name among the declared names. -/
def slotOf? (name : String) : List String → Option Nat
  | [] => none
  | first :: others =>
    match slotOf? name others with
    | some i => some (i + 1)
    | none => if first = name then some 0 else none

theorem slotOf?_eq_none_iff {name : String} {declared : List String} :
    slotOf? name declared = none ↔ name ∉ declared := by
  induction declared with
  | nil => simp [slotOf?]
  | cons first others ih =>
      unfold slotOf?
      cases h : slotOf? name others with
      | some i =>
          have : name ∈ others := Classical.byContradiction fun hn => by
            rw [ih.mpr hn] at h
            simp at h
          simp [this]
      | none =>
          have := ih.mp h
          by_cases he : first = name
          · simp [he]
          · simp [he, this, Ne.symm he]

/-- Adds a name to an increasing list of names, in its place, unless it is there already. -/
def insertName (name : String) : List String → List String
  | [] => [name]
  | first :: others =>
    if name < first then name :: first :: others
    else if name = first then first :: others
    else first :: insertName name others

/-- The given names in increasing order, once each. -/
def sortedNames (names : List String) : List String := names.foldr insertName []

/-- The names that a sequence reads, with repetitions, in order. -/
def readNames (tokens : List Token) : List String := tokens.filterMap Token.varName?

/-- The names that a sequence reads and nobody declared, in increasing order, once each. -/
def unboundNames (declared : List String) (tokens : List Token) : List String :=
  sortedNames ((readNames tokens).filter fun name => (slotOf? name declared).isNone)

/-- Gives a variable its slot, whatever it held before. -/
def Token.bind (declared : List String) : Token → Token
  | .var name _ => .var name (slotOf? name declared)
  | token => token

/-- The names in order of their first occurrence, once each. -/
def distinctNames (names : List String) : List String :=
  names.foldl (fun seen name => if name ∈ seen then seen else seen ++ [name]) []

end Formula
