import Mathlib.Logic.Function.Iterate
import Formula.Proofs.Malformed

/-!
# The window

What bytes start with is told by four of them. Said of all the bytes, it is the character whose
encoding they start with (`Starts`); and no two encodings start the same bytes, so whatever the
window cuts in half behind the first character makes no difference.

* `head_eq_iff_starts`: four bytes tell as much as all of them;
* `head_of_longestValid`: and so does the valid part of the four;
* `head_eq_char_iff_of_laid`: a number laid out as in an encoding is read only if it is a
  character's, and laid out over as few bytes as can be;
* `head_take_append`: part of an encoding is not read as anything;
* `visits_source`: going from character to character visits the longest start that is text.
-/

namespace Formula

namespace Utf8

/-! ## What all the bytes tell -/

/-- What the bytes start with, told by all of them. -/
inductive Starts (bytes : List UInt8) : Head → Prop where
  /-- The encoding of a character, -/
  | char {c : Char} : String.utf8EncodeChar c <+: bytes → Starts bytes (.char c)
  /-- something that is none, -/
  | malformed : bytes ≠ [] → (∀ c, ¬String.utf8EncodeChar c <+: bytes) → Starts bytes .malformed
  /-- or nothing. -/
  | done : bytes = [] → Starts bytes .done

theorem head_eq_char_iff {bytes : List UInt8} {c : Char} :
    head bytes = .char c ↔ String.utf8EncodeChar c <+: bytes := by
  refine ⟨fun h => ⟨_, (eq_append_of_head_eq_char h).symm⟩, ?_⟩
  rintro ⟨rest, rfl⟩
  exact head_utf8EncodeChar_append c rest

theorem head_eq_done_iff {bytes : List UInt8} : head bytes = .done ↔ bytes = [] := by
  refine ⟨?_, fun h => h ▸ head_nil⟩
  intro h
  unfold head at h
  split at h
  · rename_i hnear
    simpa [window] using hnear
  · split at h <;> exact absurd h (by simp)

theorem head_eq_malformed_iff {bytes : List UInt8} :
    head bytes = .malformed ↔ bytes ≠ [] ∧ ∀ c, ¬String.utf8EncodeChar c <+: bytes := by
  rw [ne_eq, ← head_eq_done_iff]
  simp only [← head_eq_char_iff]
  cases head bytes <;> simp

/-- **Four bytes tell what all of them tell.** -/
theorem head_eq_iff_starts {bytes : List UInt8} {found : Head} :
    head bytes = found ↔ Starts bytes found := by
  cases found with
  | char c =>
      refine ⟨fun h => .char (head_eq_char_iff.mp h), ?_⟩
      intro h
      cases h with
      | char hc => exact head_eq_char_iff.mpr hc
  | malformed =>
      refine ⟨fun h => .malformed (head_eq_malformed_iff.mp h).1 (head_eq_malformed_iff.mp h).2, ?_⟩
      intro h
      cases h with
      | malformed hne hnone => exact head_eq_malformed_iff.mpr ⟨hne, hnone⟩
  | done =>
      refine ⟨fun h => .done (head_eq_done_iff.mp h), ?_⟩
      intro h
      cases h with
      | done hnil => exact head_eq_done_iff.mpr hnil

/-- The longest start that is text does not go on by a character. -/
theorem not_encode_append_of_longestValid {bytes : List UInt8} {cs : List Char}
    (h : LongestValid bytes (encode cs)) (c : Char) : ¬encode (cs ++ [c]) <+: bytes := by
  intro hstart
  have hle := h.longest _ hstart ⟨_, rfl⟩
  have hpos := c.utf8Size_pos
  rw [encode_append, List.length_append, encode_cons, encode_nil, List.append_nil,
    String.length_utf8EncodeChar] at hle
  omega

/-- **The window may be read as a text of its own**: what comes first in the part of it that is
valid comes first in the bytes, and there is no such part only if they start with no character. -/
theorem head_of_longestValid {bytes : List UInt8} {cs : List Char}
    (h : LongestValid (bytes.take window) (encode cs)) :
    head bytes = if bytes = [] then .done else cs.head?.elim .malformed .char := by
  split
  · rename_i hnil
    exact head_eq_done_iff.mpr hnil
  · rename_i hne
    cases cs with
    | nil =>
        refine head_eq_malformed_iff.mpr ⟨hne, ?_⟩
        intro c hc
        -- a character in front would have been valid within the window
        apply not_encode_append_of_longestValid h c
        rw [List.nil_append, encode_cons, encode_nil, List.append_nil]
        exact List.prefix_take_iff.mpr ⟨hc, length_utf8EncodeChar_le c⟩
    | cons c cs =>
        refine head_eq_char_iff.mpr (List.IsPrefix.trans ?_ (List.take_prefix window bytes))
        exact (List.prefix_append _ _).trans h.isStart

/-- The window ends within the second character, and the first is read. -/
example : head [0x61, 0xF0, 0x9F, 0x98, 0x80] = .char 'a' := by decide

/-! ## The shape of an encoding -/

/-- How many bytes are enough for a number. -/
def leastWidth (n : Nat) : Nat :=
  if n ≤ 0x7F then 1 else if n ≤ 0x7FF then 2 else if n ≤ 0xFFFF then 3 else 4

theorem utf8Size_eq (c : Char) : c.utf8Size = leastWidth c.toNat := rfl

/-- What a byte behind the first carries of a number. -/
def trail (n : Nat) : UInt8 := .ofNat (n % 0x40 + 0x80)

/-- The number is laid out over so many bytes as in an encoding, were fewer enough or not. -/
inductive Laid : (width n : Nat) → List UInt8 → Prop where
  | one {n : Nat} : n < 0x80 → Laid 1 n [.ofNat n]
  | two {n : Nat} : n < 0x800 → Laid 2 n [.ofNat (n / 0x40 + 0xC0), trail n]
  | three {n : Nat} : n < 0x10000 →
      Laid 3 n [.ofNat (n / 0x1000 + 0xE0), trail (n / 0x40), trail n]
  | four {n : Nat} : n < 0x200000 →
      Laid 4 n [.ofNat (n / 0x40000 + 0xF0), trail (n / 0x1000), trail (n / 0x40), trail n]

/-- How many bytes a first byte announces. -/
def announced (lead : UInt8) : Nat :=
  if lead.toNat < 0x80 then 1
  else if lead.toNat < 0xE0 then 2
  else if lead.toNat < 0xF0 then 3
  else 4

theorem toNat_trail (n : Nat) : (trail n).toNat = n % 0x40 + 0x80 := by
  rw [trail, UInt8.toNat_ofNat']
  omega

theorem isContinuation_iff {b : UInt8} :
    isContinuation b = true ↔ 0x80 ≤ b.toNat ∧ b.toNat ≤ 0xBF := by
  simp only [isContinuation, Bool.and_eq_true, decide_eq_true_eq, UInt8.le_iff_toNat_le,
    UInt8.reduceToNat]

theorem isContinuation_trail (n : Nat) : isContinuation (trail n) = true := by
  rw [isContinuation_iff, toNat_trail]
  omega

namespace Laid

variable {width n m : Nat} {laid : List UInt8}

/-- The first byte announces how many there are, and the others only follow. -/
theorem eq_cons (h : Laid width n laid) :
    ∃ lead followers, laid = lead :: followers ∧ announced lead = width ∧
      followers.length + 1 = width ∧ ∀ b ∈ followers, isContinuation b = true := by
  cases h with
  | one hn | two hn | three hn | four hn =>
      refine ⟨_, _, rfl, ?_, rfl, by simp [isContinuation_trail]⟩
      unfold announced
      rw [UInt8.toNat_ofNat']
      grind

/-- What is laid out over the same bytes is the same number. -/
theorem injective (hn : Laid width n laid) (hm : Laid width m laid) : n = m := by
  generalize hlaid : laid = bytes at hm
  cases hn with
  | one hn | two hn | three hn | four hn =>
      cases hm with
      | _ hm =>
          have hvalues := congrArg (List.map UInt8.toNat) hlaid
          simp only [List.map_cons, List.map_nil, UInt8.toNat_ofNat', toNat_trail,
            List.cons.injEq, and_true] at hvalues
          omega

/-- A character's encoding is its number, laid out over as many bytes as it takes. -/
theorem of_char (c : Char) : Laid c.utf8Size c.toNat (String.utf8EncodeChar c) := by
  have hbound : c.toNat < 0x110000 := by
    have hvalid := c.valid
    simp only [UInt32.isValidChar, Nat.isValidChar, Char.toNat_val] at hvalid
    omega
  simp only [utf8Size_eq, leastWidth, String.utf8EncodeChar, Char.toNat_val]
  generalize c.toNat = n at hbound
  split
  · exact .one (by omega)
  · split
    · rw [show n / 64 % 32 = n / 64 from Nat.mod_eq_of_lt (by omega)]
      exact .two (by omega)
    · split
      · rw [show n / 4096 % 16 = n / 4096 from Nat.mod_eq_of_lt (by omega)]
        exact .three (by omega)
      · rw [show n / 262144 % 8 = n / 262144 from Nat.mod_eq_of_lt (by omega)]
        exact .four (by omega)

/-- A number is laid out over so many bytes in one way only. -/
theorem unique {other : List UInt8} (h : Laid width n laid) (hother : Laid width n other) :
    laid = other := by
  cases h <;> cases hother <;> rfl

/-- No bytes start with two numbers that are laid out. -/
theorem eq_of_common_start {bytes other : List UInt8} {width' : Nat} (h : Laid width n laid)
    (hlaid : laid <+: bytes) (hother : Laid width' m other) (hstart : other <+: bytes) :
    width = width' ∧ n = m := by
  obtain ⟨lead, followers, hcons, hwidth, hlength, _⟩ := h.eq_cons
  obtain ⟨lead', followers', hcons', hwidth', hlength', _⟩ := hother.eq_cons
  have hlead : lead = lead' := by
    obtain ⟨rest, rfl⟩ := hlaid
    obtain ⟨rest', hrest⟩ := hstart
    rw [hcons, hcons'] at hrest
    exact (List.cons.inj hrest).1.symm
  have hsame : width = width' := by rw [← hwidth, ← hwidth', hlead]
  subst hsame
  have hlengths : laid.length = other.length := by
    rw [hcons, hcons', List.length_cons, List.length_cons, hlength, hlength']
  have hequal : laid = other :=
    (List.prefix_of_prefix_length_le hlaid hstart hlengths.le).eq_of_length hlengths
  exact ⟨rfl, injective h (hequal ▸ hother)⟩

end Laid

/--
**Only numbers of characters are read, and only if they are laid out over as few bytes as can be.**
Overlong forms, surrogates and numbers that are too large are laid out as well.
-/
theorem head_eq_char_iff_of_laid {bytes laid : List UInt8} {width n : Nat} {c : Char}
    (h : Laid width n laid) (hstart : laid <+: bytes) :
    head bytes = .char c ↔ c.utf8Size = width ∧ c.toNat = n := by
  rw [head_eq_char_iff]
  refine ⟨fun hc => (Laid.of_char c).eq_of_common_start hc h hstart, ?_⟩
  rintro ⟨rfl, rfl⟩
  rwa [(Laid.of_char c).unique h]

/-- **Part of an encoding is no character**, and bytes that could not complete it do not help. -/
theorem head_take_append {c : Char} {k : Nat} {rest : List UInt8} (hpos : 0 < k)
    (hk : k < c.utf8Size) (hrest : ∀ b ∈ rest.head?, isContinuation b = false) :
    head ((String.utf8EncodeChar c).take k ++ rest) = .malformed := by
  obtain ⟨lead, followers, hcons, hwidth, hlength, _⟩ := (Laid.of_char c).eq_cons
  obtain ⟨j, rfl⟩ := Nat.exists_eq_add_one_of_ne_zero hpos.ne'
  rw [hcons, List.take_succ_cons, List.cons_append]
  refine head_eq_malformed_iff.mpr ⟨by simp, ?_⟩
  intro d hd
  obtain ⟨lead', followers', hcons', hwidth', hlength', hcontinue⟩ := (Laid.of_char d).eq_cons
  rw [hcons'] at hd
  obtain ⟨rfl, more, hmore⟩ := List.cons_prefix_cons.mp hd
  -- the first byte asks for a follower in the place where the rest begins
  have hplace : j < followers'.length := by omega
  have hnext : rest.head? = some followers'[j] := by
    have hlookup := congrArg (fun l => l[j]?) hmore
    simpa [List.getElem?_append, hplace, List.length_take, show j ≤ followers.length by omega,
      List.head?_eq_getElem?] using hlookup.symm
  have hcontinues := hcontinue _ (List.getElem_mem hplace)
  rw [hrest _ hnext] at hcontinues
  exact absurd hcontinues (by simp)

/-! ## From character to character -/

/-- The place behind the character that is in this place, or the same place if there is none. -/
def advance (bytes : List UInt8) (i : Nat) : Nat :=
  match head (bytes.drop i) with
  | .char c => i + c.utf8Size
  | _ => i

/-- Going through the bytes from character to character. -/
structure Visits (bytes : List UInt8) (cs : List Char) (last : Head) : Prop where
  /-- No step leads into the middle of a character, -/
  boundary : ∀ k, (advance bytes)^[k] 0 = (encode (cs.take k)).length
  /-- and where it leads there is the next one, or what ends them. -/
  found : ∀ k, head (bytes.drop ((advance bytes)^[k] 0)) = cs[k]?.elim last .char

theorem head_encode_append (cs : List Char) (rest : List UInt8) :
    head (encode cs ++ rest) = cs.head?.elim (head rest) .char := by
  cases cs with
  | nil => rfl
  | cons c cs =>
      rw [encode_cons, List.append_assoc]
      exact head_utf8EncodeChar_append c _

/-- What there is behind some of the characters. -/
theorem head_drop_encode (cs : List Char) (rest : List UInt8) (k : Nat) :
    head ((encode cs ++ rest).drop (encode (cs.take k)).length) =
      cs[k]?.elim (head rest) .char := by
  have hsplit : encode cs ++ rest = encode (cs.take k) ++ (encode (cs.drop k) ++ rest) := by
    rw [← List.append_assoc, ← encode_append, List.take_append_drop]
  rw [hsplit, List.drop_left, head_encode_append, List.head?_drop]

/-- **Every character is visited**, and nothing behind the last one. -/
theorem visits_of_append (cs : List Char) {rest : List UInt8} (hrest : ∀ c, head rest ≠ .char c) :
    Visits (encode cs ++ rest) cs (head rest) := by
  have hboundary : ∀ k, (advance (encode cs ++ rest))^[k] 0 = (encode (cs.take k)).length := by
    intro k
    induction k with
    | zero => simp
    | succ k ih =>
        rw [Function.iterate_succ_apply', ih, advance, head_drop_encode, List.take_add_one]
        cases cs[k]? with
        | some c => simp
        | none =>
            cases hhead : head rest with
            | char c => exact absurd hhead (hrest c)
            | malformed | done => simp
  refine ⟨hboundary, ?_⟩
  intro k
  rw [hboundary, head_drop_encode]

theorem visits_encode (cs : List Char) : Visits (encode cs) cs .done := by
  have hopen : ∀ c, head [] ≠ .char c := fun c => by simp [head_nil]
  have hvisits := visits_of_append cs hopen
  rwa [List.append_nil, head_nil] at hvisits

/-- What cannot be read starts with no character. -/
theorem head_readable_ne_char (bytes : List UInt8) (c : Char) :
    head (readable bytes).2 ≠ .char c := by
  intro hc
  obtain ⟨more, hmore⟩ := head_eq_char_iff.mp hc
  -- one more character would have been part of the longest start
  apply not_encode_append_of_longestValid (longestValid_readable bytes) c
  refine ⟨more, ?_⟩
  rw [encode_append, encode_cons, encode_nil, List.append_nil, List.append_assoc, hmore,
    encode_readable]

/-- The characters of a source are the ones that are visited. -/
theorem visits_source (bytes : List UInt8) :
    Visits bytes (Source.ofBytes bytes).chars
      (if (Source.ofBytes bytes).broken then .malformed else .done) := by
  have hopen := head_readable_ne_char bytes
  have hvisits := visits_of_append (readable bytes).1 hopen
  rw [encode_readable] at hvisits
  have hbroken : (Source.ofBytes bytes).broken = !(readable bytes).2.isEmpty := rfl
  have hlast : (if (Source.ofBytes bytes).broken then .malformed else .done) =
      head (readable bytes).2 := by
    rw [hbroken]
    cases hhead : head (readable bytes).2 with
    | char c => exact absurd hhead (hopen c)
    | done => rw [head_eq_done_iff.mp hhead]; rfl
    | malformed => simp [(head_eq_malformed_iff.mp hhead).1]
  rw [hlast]
  exact hvisits

/--
**Four bytes are enough.** In every place of every byte sequence they tell what all the bytes
behind it tell: the character whose encoding these start with, wherever the window cuts the next
one; that they start with none, as where what is laid out is overlong, a surrogate or not complete;
or that there are none. So going from character to character visits those of the longest start that
is text, and no place within one; if the bytes are an encoding, these are the characters it is of.
-/
theorem window_is_enough (bytes : List UInt8) :
    (∀ offset,
      (∀ found, head (bytes.drop offset) = found ↔ Starts (bytes.drop offset) found) ∧
      (∀ cs, LongestValid ((bytes.drop offset).take window) (encode cs) →
        head (bytes.drop offset) =
          if bytes.drop offset = [] then .done else cs.head?.elim .malformed .char) ∧
      (∀ width n laid, Laid width n laid → laid <+: bytes.drop offset →
        ∀ c, head (bytes.drop offset) = .char c ↔ c.utf8Size = width ∧ c.toNat = n) ∧
      ∀ c k rest, 0 < k → k < c.utf8Size → (∀ b ∈ rest.head?, isContinuation b = false) →
        bytes.drop offset = (String.utf8EncodeChar c).take k ++ rest →
        head (bytes.drop offset) = .malformed) ∧
    LongestValid bytes (encode (Source.ofBytes bytes).chars) ∧
    Visits bytes (Source.ofBytes bytes).chars
      (if (Source.ofBytes bytes).broken then .malformed else .done) ∧
    ∀ cs, bytes = encode cs → Visits bytes cs .done := by
  refine ⟨?_, longestValid_readable bytes, visits_source bytes, ?_⟩
  · intro offset
    refine ⟨fun _ => head_eq_iff_starts, fun _ h => head_of_longestValid h,
      fun _ _ _ h hstart _ => head_eq_char_iff_of_laid h hstart, ?_⟩
    intro c k rest hpos hk hrest hbytes
    rw [hbytes]
    exact head_take_append hpos hk hrest
  · rintro cs rfl
    exact visits_encode cs

end Utf8

end Formula
