import Mathlib.Data.List.Basic
import Formula.Journal
import Formula.Proofs.Compiling
import Formula.Proofs.Window

/-!
# What compiling tells

What is told of a formula is its text and how far it has come. Text that is malformed is shown as
well: a character as itself, and one replacement character for each malformed part, which is the
longest that begins some character, or else one byte (`lossy_eq_iff_shown`). So an encoding is shown
as what it is of, and of any bytes their longest readable start.

How far a formula has come is what compiling it makes of it: the sequence that is told is the one
that is read, and the program or the names that are told are those of its outcome
(`journal_tells_outcome`).
-/

namespace Formula

namespace Utf8

/-! ## What can follow a first byte -/

/-- The first byte asks for `count` others, and the second is in the range that it leaves it. -/
def Admits (first second : UInt8) (count : Nat) : Prop :=
  ∃ low high, followers first = some (count, low, high) ∧ low ≤ second ∧ second ≤ high

theorem admits_iff {first second : UInt8} {count : Nat} :
    Admits first second count ↔
      0x80 ≤ second.toNat ∧ second.toNat ≤ 0xBF ∧
      (count = 1 ∧ 0xC2 ≤ first.toNat ∧ first.toNat ≤ 0xDF ∨
        count = 2 ∧ 0xE0 ≤ first.toNat ∧ first.toNat ≤ 0xEF ∧
          (first.toNat = 0xE0 → 0xA0 ≤ second.toNat) ∧
          (first.toNat = 0xED → second.toNat ≤ 0x9F) ∨
        count = 3 ∧ 0xF0 ≤ first.toNat ∧ first.toNat ≤ 0xF4 ∧
          (first.toNat = 0xF0 → 0x90 ≤ second.toNat) ∧
          (first.toNat = 0xF4 → second.toNat ≤ 0x8F)) := by
  have hrow : ∀ (k : Nat) (low high : UInt8),
      (∃ low' high', some (k, low, high) = some (count, low', high') ∧ low' ≤ second ∧
        second ≤ high') ↔ k = count ∧ low.toNat ≤ second.toNat ∧ second.toNat ≤ high.toNat := by
    intro k low high
    simp only [Option.some.injEq, Prod.mk.injEq, UInt8.le_iff_toNat_le]
    refine ⟨?_, fun ⟨hk, h⟩ => ⟨low, high, ⟨hk, rfl, rfl⟩, h⟩⟩
    rintro ⟨_, _, ⟨hk, rfl, rfl⟩, h⟩
    exact ⟨hk, h⟩
  simp only [Admits, followers, Bool.and_eq_true, decide_eq_true_eq, beq_iff_eq,
    UInt8.le_iff_toNat_le, ← UInt8.toNat_inj, UInt8.reduceToNat]
  -- one row of the table at a time
  split_ifs <;> simp only [← UInt8.le_iff_toNat_le, hrow, UInt8.reduceToNat, false_and,
    exists_false, false_iff] <;> omega

/-! ## Encodings byte by byte -/

/-- **The ranges leave out what is no character's encoding**: numbers that are none, and numbers for
which fewer bytes are enough. -/
theorem Laid.admits_iff {width n : Nat} {first second : UInt8} {more : List UInt8}
    (h : Laid width n (first :: second :: more)) :
    Admits first second (more.length + 1) ↔ n.isValidChar ∧ leastWidth n = width := by
  rw [Utf8.admits_iff, leastWidth, Nat.isValidChar]
  cases h with
  | two hn | three hn | four hn =>
      simp only [toNat_trail, UInt8.toNat_ofNat', List.length_cons, List.length_nil, true_and]
      split_ifs <;> omega

/-- Bytes that follow a first one as it asks for lay out a number. -/
theorem exists_laid {first second : UInt8} {more : List UInt8}
    (h : Admits first second (more.length + 1)) (hmore : ∀ b ∈ more, isContinuation b = true) :
    ∃ n, Laid (more.length + 2) n (first :: second :: more) := by
  have hlead : ∀ {b : UInt8} {n : Nat}, b.toNat = n → UInt8.ofNat n = b := by
    rintro b _ rfl
    exact UInt8.ofNat_toNat
  have htrail : ∀ {b : UInt8} {n : Nat}, b.toNat = n % 0x40 + 0x80 → trail n = b := hlead
  obtain ⟨hlow, hhigh, ⟨hcount, hfirst⟩ | ⟨hcount, hfirst⟩ | ⟨hcount, hfirst⟩⟩ := admits_iff.mp h
  · obtain rfl : more = [] := List.length_eq_zero_iff.mp (by omega)
    generalize hn : (first.toNat - 0xC0) * 0x40 + (second.toNat - 0x80) = n
    have hlaid := Laid.two (n := n) (by omega)
    rw [hlead (b := first) (by omega), htrail (b := second) (by omega)] at hlaid
    exact ⟨n, hlaid⟩
  · obtain ⟨third, rfl⟩ : ∃ third, more = [third] := List.length_eq_one_iff.mp (by omega)
    have hthird := isContinuation_iff.mp (hmore third (by simp))
    generalize hn : (first.toNat - 0xE0) * 0x1000 + (second.toNat - 0x80) * 0x40 +
      (third.toNat - 0x80) = n
    have hlaid := Laid.three (n := n) (by omega)
    rw [hlead (b := first) (by omega), htrail (b := second) (by omega),
      htrail (b := third) (by omega)] at hlaid
    exact ⟨n, hlaid⟩
  · obtain ⟨third, fourth, rfl⟩ : ∃ third fourth, more = [third, fourth] :=
      List.length_eq_two.mp (by omega)
    have hthird := isContinuation_iff.mp (hmore third (by simp))
    have hfourth := isContinuation_iff.mp (hmore fourth (by simp))
    generalize hn : (first.toNat - 0xF0) * 0x40000 + (second.toNat - 0x80) * 0x1000 +
      (third.toNat - 0x80) * 0x40 + (fourth.toNat - 0x80) = n
    have hlaid := Laid.four (n := n) (by omega)
    rw [hlead (b := first) (by omega), htrail (b := second) (by omega),
      htrail (b := third) (by omega), htrail (b := fourth) (by omega)] at hlaid
    exact ⟨n, hlaid⟩

/-- **Bytes are the encoding of a character just if they follow one another as they may.** -/
theorem exists_encode_iff {first second : UInt8} {more : List UInt8} :
    (∃ c, String.utf8EncodeChar c = first :: second :: more) ↔
      Admits first second (more.length + 1) ∧ ∀ b ∈ more, isContinuation b = true := by
  refine ⟨?_, ?_⟩
  · rintro ⟨c, hc⟩
    have hlaid := hc ▸ Laid.of_char c
    refine ⟨hlaid.admits_iff.mpr ⟨c.valid, (utf8Size_eq c).symm⟩, ?_⟩
    obtain ⟨lead, behind, hcons, _, _, hcontinues⟩ := hlaid.eq_cons
    obtain ⟨rfl, rfl⟩ := List.cons.inj hcons
    exact fun b hb => hcontinues b (List.mem_cons_of_mem _ hb)
  · rintro ⟨hadmits, hmore⟩
    obtain ⟨n, hlaid⟩ := exists_laid hadmits hmore
    obtain ⟨hvalid, hwidth⟩ := hlaid.admits_iff.mp hadmits
    let c : Char := Char.ofNatAux n hvalid
    refine ⟨c, (Laid.of_char c).unique ?_⟩
    rw [utf8Size_eq]
    exact hwidth ▸ hlaid

/-! ## Malformed parts -/

/-- The bytes begin some character, or are one. -/
def IsPart (bytes : List UInt8) : Prop := ∃ c, bytes <+: String.utf8EncodeChar c

theorem isPart_cons_cons_iff {first second : UInt8} {more : List UInt8} :
    IsPart (first :: second :: more) ↔
      (∃ count, Admits first second count ∧ more.length < count) ∧
        ∀ b ∈ more, isContinuation b = true := by
  refine ⟨?_, ?_⟩
  · rintro ⟨c, tail, htail⟩
    have hencode : String.utf8EncodeChar c = first :: second :: (more ++ tail) := htail.symm
    obtain ⟨hadmits, hcontinues⟩ := exists_encode_iff.mp ⟨c, hencode⟩
    refine ⟨⟨_, hadmits, ?_⟩, fun b hb => hcontinues b (List.mem_append_left _ hb)⟩
    rw [List.length_append]
    omega
  · rintro ⟨⟨count, hadmits, hlength⟩, hcontinues⟩
    -- the least continuation bytes complete it
    let missing := List.replicate (count - 1 - more.length) (0x80 : UInt8)
    have hcount : (more ++ missing).length + 1 = count := by
      rw [List.length_append, List.length_replicate]
      omega
    have hmissing : ∀ b ∈ more ++ missing, isContinuation b = true := by
      refine List.forall_mem_append.mpr ⟨hcontinues, ?_⟩
      intro b hb
      rw [List.eq_of_mem_replicate hb]
      rfl
    obtain ⟨c, hc⟩ := exists_encode_iff.mpr ⟨hcount ▸ hadmits, hmissing⟩
    exact ⟨c, missing, hc.symm⟩

/-- The part that bytes start with: of those that begin a character the longest, and one byte at
least. -/
structure StartsWithPart (bytes part : List UInt8) : Prop where
  isStart : part <+: bytes
  ne_nil : part ≠ []
  isPart : part.length = 1 ∨ IsPart part
  longest : ∀ other, other <+: bytes → IsPart other → other.length ≤ part.length

theorem StartsWithPart.length_le {bytes part other : List UInt8} (h : StartsWithPart bytes part)
    (h' : StartsWithPart bytes other) : other.length ≤ part.length := by
  rcases h'.isPart with hone | hpart
  · rw [hone]
    exact List.length_pos_iff.mpr h.ne_nil
  · exact h.longest other h'.isStart hpart

/-- There is one such part. -/
theorem StartsWithPart.unique {bytes part other : List UInt8} (h : StartsWithPart bytes part)
    (h' : StartsWithPart bytes other) : other = part := by
  have hlength := Nat.le_antisymm (h.length_le h') (h'.length_le h)
  exact (List.prefix_of_prefix_length_le h'.isStart h.isStart hlength.le).eq_of_length hlength

/-- If the first two bytes do not go together, the first is a part of its own. -/
theorem startsWithPart_one {first : UInt8} {rest : List UInt8}
    (h : ∀ second ∈ rest.head?, ∀ count, ¬Admits first second count) :
    StartsWithPart (first :: rest) [first] where
  isStart := List.prefix_append [first] rest
  ne_nil := List.cons_ne_nil first []
  isPart := Or.inl rfl
  longest := by
    intro other hother hpart
    rcases other with _ | ⟨a, _ | ⟨b, others⟩⟩
    case nil | cons.nil => simp
    case cons.cons =>
      obtain ⟨rfl, tail, rfl⟩ := List.cons_prefix_cons.mp hother
      obtain ⟨⟨count, hadmits, _⟩, _⟩ := isPart_cons_cons_iff.mp hpart
      exact absurd hadmits (h b rfl count)

theorem admits_count_unique {first second : UInt8} {count other : Nat}
    (h : Admits first second count) (h' : Admits first second other) : count = other := by
  obtain ⟨low, high, hfollowers, _⟩ := h
  obtain ⟨low', high', hfollowers', _⟩ := h'
  rw [hfollowers] at hfollowers'
  cases hfollowers'
  rfl

/-- If they do, as many continuation bytes belong to the part as there are, up to the number that is
asked for. -/
theorem startsWithPart_more {first second : UInt8} {more : List UInt8} {count : Nat}
    (h : Admits first second count) :
    StartsWithPart (first :: second :: more)
      (first :: second :: (more.take (count - 1)).takeWhile isContinuation) where
  isStart := by
    refine List.cons_prefix_cons.mpr ⟨rfl, List.cons_prefix_cons.mpr ⟨rfl, ?_⟩⟩
    exact (List.takeWhile_prefix _).trans (List.take_prefix _ _)
  ne_nil := List.cons_ne_nil _ _
  isPart := by
    have hpos : 0 < count := by
      rw [admits_iff] at h
      omega
    have hlength := (List.takeWhile_prefix (l := more.take (count - 1)) isContinuation).length_le
    rw [List.length_take] at hlength
    refine Or.inr (isPart_cons_cons_iff.mpr ⟨⟨count, h, by omega⟩, ?_⟩)
    exact fun b hb => List.mem_takeWhile_imp hb
  longest := by
    intro other hother hpart
    rcases other with _ | ⟨a, _ | ⟨b, others⟩⟩
    case nil | cons.nil => simp
    case cons.cons =>
      obtain ⟨rfl, hrest⟩ := List.cons_prefix_cons.mp hother
      obtain ⟨rfl, hstart⟩ := List.cons_prefix_cons.mp hrest
      obtain ⟨⟨asked, hasked, hlength⟩, hcontinues⟩ := isPart_cons_cons_iff.mp hpart
      obtain rfl := admits_count_unique h hasked
      obtain ⟨tail, htail⟩ := List.prefix_take_iff.mpr ⟨hstart, Nat.le_sub_one_of_lt hlength⟩
      rw [← htail, List.takeWhile_append_of_pos hcontinues]
      simp

/-- **What is taken for malformed is the part that the bytes start with.** -/
theorem exists_startsWithPart (first : UInt8) (rest : List UInt8) :
    ∃ part, StartsWithPart (first :: rest) part ∧ part.length = malformedLength first rest := by
  unfold malformedLength
  split
  next count low high second more hfollowers =>
    split
    next hrange =>
      rw [Bool.and_eq_true, decide_eq_true_eq, decide_eq_true_eq] at hrange
      refine ⟨_, startsWithPart_more ⟨low, high, hfollowers, hrange⟩, ?_⟩
      rw [List.length_cons, List.length_cons]
      omega
    next hrange =>
      refine ⟨[first], startsWithPart_one ?_, rfl⟩
      rintro _ ⟨⟩ _ ⟨_, _, hother, hadmits⟩
      cases hfollowers.symm.trans hother
      exact hrange (by simpa using hadmits)
  next hnone =>
    refine ⟨[first], startsWithPart_one ?_, rfl⟩
    rintro second hsecond count ⟨low, high, hfollowers, _⟩
    obtain ⟨more, rfl⟩ := List.head?_eq_some_iff.mp hsecond
    exact hnone count low high second more hfollowers rfl

/-! ## The text that is shown -/

/-- What bytes are shown as. -/
inductive Shown : List UInt8 → List Char → Prop
  | done : Shown [] []
  /-- A character as itself, -/
  | char (c : Char) {more : List UInt8} {cs : List Char} : Shown more cs →
      Shown (String.utf8EncodeChar c ++ more) (c :: cs)
  /-- and the part that malformed bytes start with as one replacement character. -/
  | malformed {part more : List UInt8} {cs : List Char} : head (part ++ more) = .malformed →
      StartsWithPart (part ++ more) part → Shown more cs → Shown (part ++ more) ('\ufffd' :: cs)

theorem lossy_nil : lossy [] = [] := by rw [lossy]

theorem lossy_of_char {bytes : List UInt8} {c : Char} (h : head bytes = .char c) :
    lossy bytes = c :: lossy (bytes.drop c.utf8Size) := by
  cases bytes with
  | nil => exact absurd rfl (ne_nil_of_head_eq_char h)
  | cons first rest =>
      rw [lossy]
      exact h

theorem lossy_of_malformed {part more : List UInt8} (h : head (part ++ more) = .malformed)
    (hpart : StartsWithPart (part ++ more) part) :
    lossy (part ++ more) = '\ufffd' :: lossy more := by
  obtain ⟨first, behind, rfl⟩ := List.exists_cons_of_ne_nil hpart.ne_nil
  obtain ⟨other, hother, hlength⟩ := exists_startsWithPart first (behind ++ more)
  obtain rfl := hpart.unique hother
  rw [List.cons_append] at h
  rw [List.cons_append, lossy.eq_def]
  simp only [h]
  rw [← hlength]
  exact congrArg (fun bytes => '\ufffd' :: lossy bytes) List.drop_left

theorem lossy_encode_append (cs : List Char) (more : List UInt8) :
    lossy (encode cs ++ more) = cs ++ lossy more := by
  induction cs with
  | nil => rfl
  | cons c cs ih =>
      have hhead := head_utf8EncodeChar_append c (encode cs ++ more)
      rw [encode_cons, List.append_assoc, lossy_of_char hhead, ← String.length_utf8EncodeChar,
        List.drop_left, ih, List.cons_append]

/-- **An encoding is shown as the text that it is of.** -/
theorem lossy_encode (cs : List Char) : lossy (encode cs) = cs := by
  have hshown := lossy_encode_append cs []
  rwa [List.append_nil, lossy_nil, List.append_nil] at hshown

/-- The longest start that is text is shown as it is. -/
theorem lossy_eq_readable_append (bytes : List UInt8) :
    lossy bytes = (readable bytes).1 ++ lossy (readable bytes).2 := by
  conv_lhs => rw [← encode_readable bytes]
  exact lossy_encode_append _ _

theorem Shown.lossy_eq {bytes : List UInt8} {cs : List Char} (h : Shown bytes cs) :
    lossy bytes = cs := by
  induction h with
  | done => exact lossy_nil
  | @char c more cs _ ih =>
      have hshown := lossy_encode_append [c] more
      rw [encode_cons, encode_nil, List.append_nil, ih] at hshown
      exact hshown
  | malformed hhead hpart _ ih => rw [lossy_of_malformed hhead hpart, ih]

theorem shown_lossy (bytes : List UInt8) : Shown bytes (lossy bytes) := by
  induction hlength : bytes.length using Nat.strongRecOn generalizing bytes with
  | ind length ih =>
      cases hhead : head bytes with
      | done =>
          rw [head_eq_done_iff.mp hhead, lossy_nil]
          exact .done
      | char c =>
          have hrest := length_drop_lt (ne_nil_of_head_eq_char hhead) c.utf8Size_pos
          rw [lossy_of_char hhead]
          conv => arg 1; rw [eq_append_of_head_eq_char hhead]
          exact .char c (ih _ (hlength ▸ hrest) _ rfl)
      | malformed =>
          obtain ⟨first, rest, rfl⟩ := List.exists_cons_of_ne_nil (head_eq_malformed_iff.mp hhead).1
          obtain ⟨part, hpart, _⟩ := exists_startsWithPart first rest
          obtain ⟨more, hmore⟩ := hpart.isStart
          rw [← hmore] at hhead hpart hlength ⊢
          have hrest : more.length < (part ++ more).length := by
            have := List.length_pos_iff.mpr hpart.ne_nil
            rw [List.length_append]
            omega
          rw [lossy_of_malformed hhead hpart]
          exact .malformed hhead hpart (ih _ (hlength ▸ hrest) _ rfl)

/-- **Bytes are shown character by character, and malformed part by malformed part.** -/
theorem lossy_eq_iff_shown {bytes : List UInt8} {cs : List Char} :
    lossy bytes = cs ↔ Shown bytes cs := by
  refine ⟨?_, Shown.lossy_eq⟩
  rintro rfl
  exact shown_lossy bytes

end Utf8

/-! ## How far a formula has come -/

section Journal

variable {formula : List UInt8} {declared : List String}

theorem journal_of_read {tokens : List Token} (h : parse (.ofBytes formula) = .ok tokens) :
    journal formula declared =
      [.compiling formula, .parsed tokens, resolution declared tokens] := by
  rw [journal, h]

/-- Of a formula that cannot be read, the text is told and nothing else. -/
theorem journal_of_malformed {e : SyntaxError}
    (h : compile formula declared = .error (.malformed e)) :
    journal formula declared = [.compiling formula] := by
  rw [journal, compile_eq_malformed_iff.mp h]

/-- Of one that names what is not declared, those names are told behind its sequence. -/
theorem journal_of_unbound {names : List String}
    (h : compile formula declared = .error (.unbound names)) :
    ∃ tokens, parse (.ofBytes formula) = .ok tokens ∧
      journal formula declared = [.compiling formula, .parsed tokens, .unbound names] := by
  obtain ⟨tokens, hparse, hresolve⟩ := compile_eq_unbound_iff.mp h
  refine ⟨tokens, hparse, ?_⟩
  rw [journal_of_read hparse, resolution, hresolve]

/-- Of one that is compiled, its program is. -/
theorem journal_of_compiled {e : Compiled} (h : compile formula declared = .ok e) :
    ∃ tokens, parse (.ofBytes formula) = .ok tokens ∧
      journal formula declared = [.compiling formula, .parsed tokens, .resolved e.program] := by
  obtain ⟨tokens, hparse, hresolve, _⟩ := compile_eq_ok_iff.mp h
  refine ⟨tokens, hparse, ?_⟩
  rw [journal_of_read hparse, resolution, hresolve]

/-- **What is told is the outcome**: a program just if there is one, and names just if they are
unbound. -/
theorem journal_tells_outcome :
    (∀ program, .resolved program ∈ journal formula declared ↔
      ∃ e, compile formula declared = .ok e ∧ e.program = program) ∧
    ∀ names, .unbound names ∈ journal formula declared ↔
      compile formula declared = .error (.unbound names) := by
  cases h : compile formula declared with
  | error error =>
      cases error with
      | malformed e =>
          rw [journal_of_malformed h]
          simp
      | unbound names =>
          obtain ⟨tokens, _, hjournal⟩ := journal_of_unbound h
          rw [hjournal]
          simp [eq_comm]
  | ok e =>
      obtain ⟨tokens, _, hjournal⟩ := journal_of_compiled h
      rw [hjournal]
      simp [eq_comm]

/-- Text that is well-formed is told as it is. -/
theorem message_compiling_encode (cs : List Char) :
    (Event.compiling (Utf8.encode cs)).message = "Compiling formula: " ++ String.ofList cs :=
  congrArg (fun shown => "Compiling formula: " ++ String.ofList shown) (Utf8.lossy_encode cs)

end Journal

end Formula
