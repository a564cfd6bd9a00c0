/-!
# Stacks

A last-in, first-out store, kept as the list of its elements with the top in front. It holds the
operators that wait for an operand while a formula is put in order, and the operands themselves
while a program runs.
-/

namespace Formula

/-- The elements of a stack, the top one first. -/
abbrev Stack (α : Type) := List α

namespace Stack

variable {α : Type}

/-- Puts an element on top. -/
def push (s : Stack α) (a : α) : Stack α := a :: s

/-- The top element and the stack below it. -/
def pop? : Stack α → Option (α × Stack α)
  | [] => none
  | a :: s => some (a, s)

/-- The top element. -/
def peek? (s : Stack α) : Option α := s.head?

/-- The stack emptied onto the end of a list, the top element first. -/
def drainOnto (s : Stack α) (out : List α) : List α := out ++ s

/-- A stack with nothing left on it. -/
def clear (_ : Stack α) : Stack α := []

/-- The elements above the first that fails the test, top first, and the stack from there down. -/
def popWhile (p : α → Bool) (s : Stack α) : List α × Stack α := (s.takeWhile p, s.dropWhile p)

/-- The elements above the first that passes the test, top first, and the stack below that one. -/
def popThrough (p : α → Bool) (s : Stack α) : List α × Stack α :=
  (s.takeWhile (!p ·), (s.dropWhile (!p ·)).tail)

variable (p : α → Bool)

/-- **A loop over the top element**: as long as there is one that passes the test, it is popped. -/
theorem popWhile_eq_loop (s : Stack α) :
    s.popWhile p =
      match s.peek?.any p, s.pop? with
      | true, some (top, below) => (top :: (below.popWhile p).1, (below.popWhile p).2)
      | _, _ => ([], s) := by
  cases s with
  | nil => rfl
  | cons a s => cases h : p a <;> simp [popWhile, peek?, pop?, h]

/-- **A loop over what is popped**, down to the first that passes the test. -/
theorem popThrough_eq_loop (s : Stack α) :
    s.popThrough p =
      match s.pop? with
      | none => ([], s)
      | some (top, below) =>
        if p top then ([], below) else (top :: (below.popThrough p).1, (below.popThrough p).2) := by
  cases s with
  | nil => rfl
  | cons a s => cases h : p a <;> simp [popThrough, pop?, h]

theorem popWhile_append (s : Stack α) : (s.popWhile p).1 ++ (s.popWhile p).2 = s :=
  List.takeWhile_append_dropWhile

end Stack

end Formula
