/-!
# UTF-8

A formula arrives as bytes. This file says what a byte sequence starts with, how far it can be
read as text, and how it is shown when it cannot be read to its end.

Decoding is strict: overlong forms, surrogates and code points above U+10FFFF are malformed. No
character takes more than four bytes, so `head` looks at four and no further.
-/

namespace Formula.Utf8

/-- What a byte sequence starts with. -/
inductive Head where
  /-- A whole character. -/
  | char (c : Char)
  /-- Bytes that begin no character. -/
  | malformed
  /-- Nothing. -/
  | done
  deriving DecidableEq, Repr

/-- How many bytes decide what comes first. -/
def window : Nat := 4

/-- What `bytes` starts with, read off its first four bytes. -/
def head (bytes : List UInt8) : Head :=
  match bytes.take window with
  | [] => .done
  | near =>
    match near.toByteArray.utf8DecodeChar? 0 with
    | some c => .char c
    | none => .malformed

theorem head_nil : head [] = .done := rfl

theorem ne_nil_of_head_eq_char {bytes : List UInt8} {c : Char} (h : head bytes = .char c) :
    bytes ≠ [] := by
  rintro rfl
  simp [head_nil] at h

/-- Dropping a positive number of bytes from a sequence that holds some shortens it. -/
theorem length_drop_lt {bytes : List UInt8} {n : Nat} (h : bytes ≠ []) (hn : 0 < n) :
    (bytes.drop n).length < bytes.length := by
  have := List.length_pos_iff.mpr h
  rw [List.length_drop]
  omega

/-- The characters of the longest well-formed start of `bytes`, and the bytes behind it. -/
def readable (bytes : List UInt8) : List Char × List UInt8 :=
  match _h : head bytes with
  | .char c =>
    let more := readable (bytes.drop c.utf8Size)
    (c :: more.1, more.2)
  | _ => ([], bytes)
termination_by bytes.length
decreasing_by exact length_drop_lt (ne_nil_of_head_eq_char _h) c.utf8Size_pos

/-- Whether `b` can stand behind the first byte of a character. -/
def isContinuation (b : UInt8) : Bool := 0x80 ≤ b && b ≤ 0xBF

/--
How many bytes follow a first byte, and the range of the first of them. The range is narrower
than a continuation byte's where the wider one would admit overlong forms, surrogates or code
points that are too large.
-/
def followers (first : UInt8) : Option (Nat × UInt8 × UInt8) :=
  if 0xC2 ≤ first && first ≤ 0xDF then some (1, 0x80, 0xBF)
  else if first == 0xE0 then some (2, 0xA0, 0xBF)
  else if first == 0xED then some (2, 0x80, 0x9F)
  else if 0xE1 ≤ first && first ≤ 0xEF then some (2, 0x80, 0xBF)
  else if first == 0xF0 then some (3, 0x90, 0xBF)
  else if 0xF1 ≤ first && first ≤ 0xF3 then some (3, 0x80, 0xBF)
  else if first == 0xF4 then some (3, 0x80, 0x8F)
  else none

/--
The length of the malformed part that `first :: rest` starts with: the longest start that some
character's encoding shares, and one byte at least.
-/
def malformedLength (first : UInt8) (rest : List UInt8) : Nat :=
  match followers first, rest with
  | some (count, low, high), second :: more =>
    if low ≤ second && second ≤ high then
      2 + ((more.take (count - 1)).takeWhile isContinuation).length
    else 1
  | _, _ => 1

theorem malformedLength_pos (first : UInt8) (rest : List UInt8) :
    0 < malformedLength first rest := by
  unfold malformedLength
  split
  · split <;> omega
  · omega

/-- The bytes as text, with one replacement character for each malformed part. -/
def lossy (bytes : List UInt8) : List Char :=
  match bytes, head bytes with
  | [], _ => []
  | first :: rest, .char c => c :: lossy ((first :: rest).drop c.utf8Size)
  | first :: rest, _ => '\ufffd' :: lossy ((first :: rest).drop (malformedLength first rest))
termination_by bytes.length
decreasing_by
  · exact length_drop_lt (by simp) c.utf8Size_pos
  · exact length_drop_lt (by simp) (malformedLength_pos first rest)

end Formula.Utf8
