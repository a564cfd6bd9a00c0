/-!
# Named constants

The constants a formula may read by name. A bare name that is a constant's is always the constant,
whatever variables are declared.
-/

namespace Formula

/-- A named number. -/
inductive Constant where
  | e
  | pi
  | phi
  | sqrt2
  | sqrtE
  | sqrtPi
  | sqrtPhi
  deriving DecidableEq, Repr

namespace Constant

/-- Every constant, in the order of declaration. -/
def all : List Constant := [e, pi, phi, sqrt2, sqrtE, sqrtPi, sqrtPhi]

/-- The name a formula reads the constant by. -/
def name : Constant → String
  | e => "E"
  | pi => "PI"
  | phi => "PHI"
  | sqrt2 => "SQRT2"
  | sqrtE => "SQRTE"
  | sqrtPi => "SQRTPI"
  | sqrtPhi => "SQRTPHI"

/-- The constant with the given name; upper and lower case differ. -/
def ofName? (name : String) : Option Constant := all.find? (·.name == name)

/-- The nearest binary64 number to the constant. -/
def value : Constant → Float
  | e => 2.718281828459045
  | pi => 3.141592653589793
  | phi => 1.618033988749895
  | sqrt2 => 1.4142135623730951
  | sqrtE => 1.6487212707001282
  | sqrtPi => 1.772453850905516
  | sqrtPhi => 1.272019649514069

theorem mem_all (c : Constant) : c ∈ all := by
  cases c <;> decide

theorem ofName?_name (c : Constant) : ofName? c.name = some c := by
  cases c <;> decide

theorem name_of_ofName?_eq_some {text : String} {c : Constant} (h : ofName? text = some c) :
    c.name = text := by
  have := List.find?_some h
  simpa using this

/-- A name is found just if it is in the table. -/
theorem ofName?_eq_some_iff {text : String} {c : Constant} :
    ofName? text = some c ↔ c.name = text := by
  refine ⟨name_of_ofName?_eq_some, ?_⟩
  intro h
  rw [← h, ofName?_name]

theorem ofName?_eq_none_iff {text : String} :
    ofName? text = none ↔ ∀ c : Constant, c.name ≠ text := by
  simp only [Option.eq_none_iff_forall_ne_some, ne_eq, ofName?_eq_some_iff]

/-- A name is in the table once at most. -/
theorem filter_name_all (text : String) :
    all.filter (·.name = text) = (ofName? text).toList := by
  cases h : ofName? text with
  | none =>
      refine List.filter_eq_nil_iff.mpr ?_
      intro c _
      simpa using ofName?_eq_none_iff.mp h c
  | some c =>
      obtain rfl := name_of_ofName?_eq_some h
      cases c <;> decide

end Constant

end Formula
