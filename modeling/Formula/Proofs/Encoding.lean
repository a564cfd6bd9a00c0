import Formula.Source

/-!
# Bytes and characters

What is read of a formula are characters, and its bytes are theirs: reading and encoding undo each
other. Bytes are the encoding of what can be read of them, followed by what cannot be read
(`encode_readable`), and an encoding is read to its end, whatever follows it
(`readable_encode_append`).

So a formula that is readable to its end may be spoken of as text, and two of them may be put one
behind the other.
-/

namespace Formula

namespace Utf8

/-- The bytes of some characters. -/
def encode (cs : List Char) : List UInt8 := cs.flatMap String.utf8EncodeChar

@[simp] theorem encode_nil : encode [] = [] := rfl

@[simp] theorem encode_cons (c : Char) (cs : List Char) :
    encode (c :: cs) = String.utf8EncodeChar c ++ encode cs := rfl

@[simp] theorem encode_append (cs ds : List Char) : encode (cs ++ ds) = encode cs ++ encode ds :=
  List.flatMap_append

/-- The bytes of a text are those of its characters. -/
theorem encode_toList (text : String) : encode text.toList = text.toByteArray.data.toList := by
  rw [← String.utf8Encode_toList, List.utf8Encode, List.data_toByteArray, encode]

/-! ## One character -/

/-- No character is longer than the window. -/
theorem length_utf8EncodeChar_le (c : Char) : (String.utf8EncodeChar c).length ≤ window := by
  rw [String.length_utf8EncodeChar]
  exact c.utf8Size_le_four

/-- **A character is read off its own bytes**, whatever follows them. -/
theorem head_utf8EncodeChar_append (c : Char) (rest : List UInt8) :
    head (String.utf8EncodeChar c ++ rest) = .char c := by
  have hnear : (String.utf8EncodeChar c ++ rest).take window =
      String.utf8EncodeChar c ++ rest.take (window - (String.utf8EncodeChar c).length) := by
    rw [List.take_append, List.take_of_length_le (length_utf8EncodeChar_le c)]
  unfold head
  rw [hnear]
  split
  · rename_i hnil
    exact absurd (List.append_eq_nil_iff.mp hnil).1 String.utf8EncodeChar_ne_nil
  · rw [List.toByteArray_append, ByteArray.utf8DecodeChar?_utf8EncodeChar_append]

/-- Bytes that start with a character start with its encoding. -/
theorem eq_append_of_head_eq_char {bytes : List UInt8} {c : Char} (h : head bytes = .char c) :
    bytes = String.utf8EncodeChar c ++ bytes.drop c.utf8Size := by
  have hstart : String.utf8EncodeChar c <+: bytes.take window := by
    unfold head at h
    split at h
    · exact absurd h (by simp)
    · split at h
      · rename_i hdecode
        cases h
        obtain ⟨l, hl⟩ := ByteArray.exists_of_utf8DecodeChar?_eq_some hdecode
        have hlists := congrArg (fun b => b.data.toList) hl
        exact ⟨l.data.toList, by simpa using hlists.symm⟩
      · exact absurd h (by simp)
  -- what the window starts with, the bytes start with
  obtain ⟨rest, hrest⟩ := hstart.trans (List.take_prefix window bytes)
  have hdrop : bytes.drop c.utf8Size = rest := by
    rw [← hrest, ← String.length_utf8EncodeChar, List.drop_left]
  rw [hdrop, hrest]

/-! ## Whole texts -/

theorem readable_of_head_eq_char {bytes : List UInt8} {c : Char} (h : head bytes = .char c) :
    readable bytes =
      (c :: (readable (bytes.drop c.utf8Size)).1, (readable (bytes.drop c.utf8Size)).2) := by
  rw [readable]
  split
  · rename_i d hd
    cases h.symm.trans hd
    rfl
  · rename_i hnot
    exact absurd h (hnot c)

/-- **Bytes are the encoding of what can be read of them, and what cannot.** -/
theorem encode_readable (bytes : List UInt8) :
    encode (readable bytes).1 ++ (readable bytes).2 = bytes := by
  fun_induction readable bytes with
  | case1 bytes c hhead more ih =>
      rw [encode_cons, List.append_assoc, ih]
      exact (eq_append_of_head_eq_char hhead).symm
  | case2 => rfl

/-- **An encoding is read to its end**, whatever follows it. -/
theorem readable_encode_append (cs : List Char) (rest : List UInt8) :
    readable (encode cs ++ rest) = (cs ++ (readable rest).1, (readable rest).2) := by
  induction cs with
  | nil => rfl
  | cons c cs ih =>
      have hhead := head_utf8EncodeChar_append c (encode cs ++ rest)
      have hdrop : (String.utf8EncodeChar c ++ (encode cs ++ rest)).drop c.utf8Size =
          encode cs ++ rest := by
        rw [← String.length_utf8EncodeChar, List.drop_left]
      rw [encode_cons, List.append_assoc, readable_of_head_eq_char hhead, hdrop, ih]
      rfl

end Utf8

namespace Source

/-- Encoded text is readable to its end. -/
theorem ofBytes_encode (cs : List Char) : ofBytes (Utf8.encode cs) = ⟨cs, false⟩ := by
  have hread := Utf8.readable_encode_append cs []
  have hnil : Utf8.readable [] = ([], []) := by
    rw [Utf8.readable]
    rfl
  rw [List.append_nil, hnil, List.append_nil] at hread
  rw [ofBytes, hread]
  rfl

/-- **A source that is readable to its end is the encoding of its characters.** -/
theorem encode_chars {bytes : List UInt8} (h : (ofBytes bytes).broken = false) :
    Utf8.encode (ofBytes bytes).chars = bytes := by
  have hread := Utf8.encode_readable bytes
  have hnil : (Utf8.readable bytes).2 = [] := by simpa [ofBytes] using h
  rwa [hnil, List.append_nil] at hread

end Source

end Formula
