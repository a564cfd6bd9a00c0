/-!
# Functions of one argument

The functions a formula may call. A name is a function only where an argument follows it; standing
alone it is a variable's.
-/

namespace Formula

/-- A function of one argument. -/
inductive Function where
  | ln
  | abs
  | cos
  | sin
  | tan
  | acos
  | asin
  | atan
  | sqrt
  | cbrt
  | ceil
  | floor
  deriving DecidableEq, Repr

namespace Function

/-- Every function, in the order of declaration. -/
def all : List Function :=
  [ln, abs, cos, sin, tan, acos, asin, atan, sqrt, cbrt, ceil, floor]

/-- The name a formula calls the function by. -/
def name : Function → String
  | ln => "ln"
  | abs => "abs"
  | cos => "cos"
  | sin => "sin"
  | tan => "tan"
  | acos => "acos"
  | asin => "asin"
  | atan => "atan"
  | sqrt => "sqrt"
  | cbrt => "cbrt"
  | ceil => "ceil"
  | floor => "floor"

/-- The function with the given name; upper and lower case differ. -/
def ofName? (name : String) : Option Function := all.find? (·.name == name)

/-- The function's value; outside its domain it is a NaN. -/
def apply (f : Function) (x : Float) : Float :=
  match f with
  | ln => x.log
  | abs => x.abs
  | cos => x.cos
  | sin => x.sin
  | tan => x.tan
  | acos => x.acos
  | asin => x.asin
  | atan => x.atan
  | sqrt => x.sqrt
  | cbrt => x.cbrt
  | ceil => x.ceil
  | floor => x.floor

theorem mem_all (f : Function) : f ∈ all := by
  cases f <;> decide

theorem ofName?_name (f : Function) : ofName? f.name = some f := by
  cases f <;> decide

theorem name_of_ofName?_eq_some {text : String} {f : Function} (h : ofName? text = some f) :
    f.name = text := by
  have := List.find?_some h
  simpa using this

/-- A name is found just if it is in the table. -/
theorem ofName?_eq_some_iff {text : String} {f : Function} :
    ofName? text = some f ↔ f.name = text := by
  refine ⟨name_of_ofName?_eq_some, ?_⟩
  intro h
  rw [← h, ofName?_name]

theorem ofName?_eq_none_iff {text : String} :
    ofName? text = none ↔ ∀ f : Function, f.name ≠ text := by
  simp only [Option.eq_none_iff_forall_ne_some, ne_eq, ofName?_eq_some_iff]

/-- A name is in the table once at most. -/
theorem filter_name_all (text : String) :
    all.filter (·.name = text) = (ofName? text).toList := by
  cases h : ofName? text with
  | none =>
      refine List.filter_eq_nil_iff.mpr ?_
      intro f _
      simpa using ofName?_eq_none_iff.mp h f
  | some f =>
      obtain rfl := name_of_ofName?_eq_some h
      cases f <;> decide

end Function

end Formula
