import Formula.Proofs.Compiling
import Formula.Proofs.Tiling
import Formula.Proofs.Viability

/-!
# Malformed bytes

Behind the first malformed byte nothing is ever read, so a formula that is not text is dealt with by
the longest start of it that is. A scanner goes through that start as it would through the start
alone, and the two part only where the start ends. What is wrong in front of that place is found by
both; and at the place itself the one meets malformed bytes and the other the end of the input.

Where the bytes are blamed is told by the start alone (`Blamed`): they belong to the lexeme, or the
character that is none, which they stand right behind; with blanks in between there is only a column
to give, that of the last lexeme.

* `falters_of_broken`: one step of both scanners side by side, with a case for each way to part;
* `run_of_broken`: a whole run of both, by induction over it.
-/

namespace Formula

/-! ## The longest start that is text -/

namespace Utf8

/-- The bytes are the encoding of some characters. -/
def Valid (bytes : List UInt8) : Prop := ∃ cs, encode cs = bytes

/-- The longest start of the bytes that is the encoding of some characters. -/
structure LongestValid (bytes start : List UInt8) : Prop where
  isStart : start <+: bytes
  valid : Valid start
  longest : ∀ other, other <+: bytes → Valid other → other.length ≤ start.length

theorem longestValid_readable (bytes : List UInt8) :
    LongestValid bytes (encode (readable bytes).1) := by
  refine ⟨⟨_, encode_readable bytes⟩, ⟨_, rfl⟩, ?_⟩
  intro other hstart hvalid
  obtain ⟨cs, rfl⟩ := hvalid
  obtain ⟨rest, rfl⟩ := hstart
  rw [readable_encode_append, encode_append, List.length_append]
  exact Nat.le_add_right _ _

/-- **What can be read of some bytes is their longest start that is text.** -/
theorem longestValid_iff {bytes start : List UInt8} :
    LongestValid bytes start ↔ start = encode (readable bytes).1 := by
  have hreadable := longestValid_readable bytes
  refine ⟨?_, ?_⟩
  · intro h
    have hle := hreadable.longest start h.isStart h.valid
    have hge := h.longest _ hreadable.isStart hreadable.valid
    have hstart := List.prefix_of_prefix_length_le h.isStart hreadable.isStart hle
    exact hstart.eq_of_length (Nat.le_antisymm hle hge)
  · rintro rfl
    exact hreadable

end Utf8

/-- Bytes are broken unless they are text to their end. -/
theorem Source.broken_eq_false_iff {bytes : List UInt8} :
    (ofBytes bytes).broken = false ↔ bytes = Utf8.encode (Utf8.readable bytes).1 := by
  refine ⟨fun h => (encode_chars h).symm, ?_⟩
  intro h
  rw [h, ofBytes_encode]

/-! ## Where malformed bytes are blamed -/

/--
Where bytes behind the characters are blamed if they are malformed, told by a scan of the characters
alone. `place` gives the position behind some of the characters, and `column` stands in for that of
the last lexeme where there is none.
-/
inductive Blamed (place : List Char → Position) (column : Nat) (chars : List Char) (s : Scan) :
    Position → Prop where
  /-- The characters end in a lexeme, which is blamed where it starts, -/
  | lexeme {before : List Char} {ls : List Located} {l : Located} :
      s = ⟨ls ++ [l, ⟨.endOfInput, place chars⟩], none⟩ →
      chars = before ++ l.lexeme.text.toList → l.position = place before →
      Blamed place column chars s l.position
  /-- or in one that begins no lexeme, which is rejected and blamed as well; -/
  | rejected {before : List Char} {c : Char} :
      s.failure = some ⟨.strayCharacter c, place before⟩ → chars = before ++ [c] →
      Blamed place column chars s (place before)
  /-- behind blanks there is no line to tell, only the column of the last lexeme; -/
  | blanks {before blanks : List Char} {ls : List Located} {l : Located} :
      s = ⟨ls ++ [l, ⟨.endOfInput, place chars⟩], none⟩ →
      chars = before ++ blanks → Blank blanks → blanks ≠ [] →
      Blamed place column chars s ⟨0, l.position.column⟩
  /-- and with nothing but blanks there is no lexeme either. -/
  | nothing : Blank chars → Blamed place column chars s ⟨0, column⟩

namespace Scanner

/-- The scanner as it would be if nothing malformed followed. -/
def mended (s : Scanner) : Scanner := { s with broken := false }

theorem takes_mended {s t : Scanner} {l : Located} (h : Takes s l t) :
    Takes s.mended l t.mended := by
  cases h with
  | finish _ hblank => exact .finish rfl hblank
  | lexeme hrest hblanks hc hcut _ =>
      exact .lexeme hrest hblanks hc hcut (by simp [breaksBehind, mended])

theorem run_mended_of_takes {s t : Scanner} {l : Located} (h : Takes s l t)
    (hl : l.lexeme ≠ .endOfInput) :
    s.mended.run = ⟨l :: t.mended.run.lexemes, t.mended.run.failure⟩ := by
  rw [run_of_takes (takes_mended h), if_neg hl]

/-! ## One step, with malformed bytes ahead and without -/

/-- What a scanner with malformed bytes ahead does, beside what it does without them. -/
inductive Falters (s : Scanner) : Prop where
  /-- Something else is wrong first. -/
  | elsewhere {e : SyntaxError} :
      s.next = .error e → s.mended.next = .error e → e.cause ≠ .malformedText → Falters s
  /-- There is a lexeme, and more behind it. -/
  | lexeme {l : Located} {t : Scanner} : Takes s l t → t.broken = true → t.rest ≠ [] → Falters s
  /-- There is a lexeme, and the bytes right behind it. -/
  | behindLexeme {l : Located} {t : Scanner} :
      s.next = .error ⟨.malformedText, l.position⟩ → Takes s.mended l t →
      l.lexeme ≠ .endOfInput → t.rest = [] → Falters s
  /-- There is a character that begins no lexeme, and the bytes right behind it. -/
  | behindRejected {blanks : List Char} {c : Char} :
      s.next = .error ⟨.malformedText, s.position.after blanks⟩ →
      s.mended.next = .error ⟨.strayCharacter c, s.position.after blanks⟩ →
      s.rest = blanks ++ [c] → Falters s
  /-- There are blanks at most, and the bytes behind them. -/
  | behindBlanks :
      s.next = .error ⟨.malformedText, ⟨0, s.lastColumn⟩⟩ → Blank s.rest → Falters s

/-- **A scanner with malformed bytes ahead parts from its twin only where the text ends.** -/
theorem falters_of_broken {s : Scanner} (hb : s.broken = true) : Falters s := by
  have hsplit : s.rest = s.rest.takeWhile Text.isBlank ++ s.skipBlanks.rest :=
    List.takeWhile_append_dropWhile.symm
  have hblanks : Blank (s.rest.takeWhile Text.isBlank) := blank_takeWhile s.rest
  cases hcons : s.skipBlanks.rest with
  | nil =>
      have hnext : s.next = .error ⟨.malformedText, ⟨0, s.lastColumn⟩⟩ := by
        unfold next takeLexeme
        rw [hcons]
        exact if_pos hb
      rw [hcons, List.append_nil] at hsplit
      exact .behindBlanks hnext (hsplit ▸ hblanks)
  | cons c cs =>
      have hc : Text.isBlank c = false := by
        have hhead := List.head?_dropWhile_not Text.isBlank s.rest
        rw [show s.rest.dropWhile Text.isBlank = c :: cs from hcons] at hhead
        exact hhead
      rw [hcons] at hsplit
      generalize s.rest.takeWhile Text.isBlank = blanks at hsplit hblanks
      have hnext := next_of_rest hsplit hblanks hc
      have htwin := @next_of_rest s.mended blanks cs c hsplit hblanks hc
      have hwhole : ∀ rest, s.mended.breaksBehind rest = false := fun rest => Bool.and_false _
      cases hcut : cutAt c cs with
      | bareExponent =>
          rw [hcut] at hnext htwin
          exact .elsewhere hnext htwin (by simp)
      | stray rest =>
          rw [hcut] at hnext htwin
          simp only [hwhole] at htwin
          obtain rfl := eq_of_cutAt_eq_stray hcut
          cases rest with
          | nil => exact .behindRejected (hnext.trans (if_pos hb)) htwin hsplit
          | cons d ds =>
              have hopen : ¬s.breaksBehind (d :: ds) = true := by simp [breaksBehind]
              exact .elsewhere (hnext.trans (if_neg hopen)) htwin (by simp)
      | lexeme l rest =>
          rw [hcut] at hnext
          cases rest with
          | nil =>
              have htakes : Takes s.mended _ _ := .lexeme hsplit hblanks hc hcut (hwhole [])
              have herror : s.next = .error ⟨.malformedText, s.position.after blanks⟩ :=
                hnext.trans (if_pos hb)
              exact .behindLexeme herror htakes (ne_endOfInput_of_cutAt hcut) rfl
          | cons d ds =>
              have hopen : s.breaksBehind (d :: ds) = false := rfl
              exact .lexeme (.lexeme hsplit hblanks hc hcut hopen) hb (by simp)

/-- Past a lexeme that is taken there is more to read, and the bytes are still ahead. -/
theorem Falters.more {s t : Scanner} {l : Located} (h : Falters s) (hnext : s.next = .ok (l, t)) :
    t.broken = true ∧ t.rest ≠ [] := by
  cases h with
  | lexeme htakes hbroken hmore =>
      cases hnext.symm.trans (next_eq_ok_iff.mpr htakes)
      exact ⟨hbroken, hmore⟩
  | elsewhere herror | behindLexeme herror | behindRejected herror | behindBlanks herror =>
      exact absurd (hnext.symm.trans herror) (by simp)

/-! ## A whole run -/

/-- A lexeme that ends the text is blamed for what follows. -/
theorem blamed_of_last {s t : Scanner} {l : Located} (h : Takes s.mended l t)
    (hl : l.lexeme ≠ .endOfInput) (hnil : t.rest = []) :
    Blamed s.position.after s.lastColumn s.rest s.mended.run l.position := by
  obtain ⟨blanks, hrest, hposition, hbehind, _, hbroken⟩ := split_of_takes h hl
  have hends : s.rest = blanks ++ l.lexeme.text.toList := by
    rw [hnil, List.append_nil] at hrest
    exact hrest
  have hrun : s.mended.run = ⟨[] ++ [l, ⟨.endOfInput, s.position.after s.rest⟩], none⟩ := by
    have hend : t.run = ⟨[⟨.endOfInput, t.position⟩], none⟩ := by
      rw [run_of_blank hbroken (hnil ▸ blank_nil), hnil, Position.after_nil]
    rw [run_of_takes h, if_neg hl, hend, hbehind, hends]
    rfl
  exact .lexeme hrun hends hposition

/-- What is blamed behind a lexeme is blamed with it in front. -/
theorem blamed_of_takes {s t : Scanner} {l : Located} (h : Takes s l t)
    (hl : l.lexeme ≠ .endOfInput) (hmore : t.rest ≠ []) {p : Position}
    (hblamed : Blamed t.position.after t.lastColumn t.rest t.mended.run p) :
    Blamed s.position.after s.lastColumn s.rest s.mended.run p := by
  have hrun := run_mended_of_takes h hl
  obtain ⟨blanks, hrest, _, hbehind, hcolumn, _⟩ := split_of_takes h hl
  -- what is taken is in front of all that is left, in the text and in the positions
  generalize blanks ++ l.lexeme.text.toList = taken at hrest hbehind
  have hplace : ∀ ds, t.position.after ds = s.position.after (taken ++ ds) := by
    intro ds
    rw [hbehind, Position.after_append]
  have hfront : ∀ {ls : List Located} {m : Located},
      t.mended.run = ⟨ls ++ [m, ⟨.endOfInput, t.position.after t.rest⟩], none⟩ →
      s.mended.run = ⟨l :: ls ++ [m, ⟨.endOfInput, s.position.after s.rest⟩], none⟩ := by
    intro ls m hscan
    rw [hrun, hscan, hplace, ← hrest, List.cons_append]
  cases hblamed with
  | @lexeme before ls m hscan hends hposition =>
      have hall : s.rest = taken ++ before ++ m.lexeme.text.toList := by
        rw [hrest, hends, List.append_assoc]
      exact .lexeme (hfront hscan) hall (hposition.trans (hplace before))
  | @rejected before c hfailure hends =>
      have hall : s.rest = taken ++ before ++ [c] := by rw [hrest, hends, List.append_assoc]
      have hmended : s.mended.run.failure = t.mended.run.failure := by rw [hrun]
      rw [hplace] at hfailure ⊢
      exact .rejected (hmended.trans hfailure) hall
  | @blanks before blanks ls m hscan hends hblanks hne =>
      have hall : s.rest = taken ++ before ++ blanks := by rw [hrest, hends, List.append_assoc]
      exact .blanks (hfront hscan) hall hblanks hne
  | nothing hblank =>
      -- the lexeme is the last one now, and the blanks are behind it
      have hscan : t.mended.run = ⟨[⟨.endOfInput, t.position.after t.rest⟩], none⟩ :=
        run_of_blank rfl hblank
      have hmended : s.mended.run = ⟨[] ++ [l, ⟨.endOfInput, s.position.after s.rest⟩], none⟩ := by
        rw [hrun, hscan, hplace, ← hrest, List.nil_append]
      exact hcolumn ▸ .blanks hmended hrest hblank hmore

/--
**A scan with malformed bytes ahead fails**, and for the same reason as without them unless it is
for them.
-/
theorem run_of_broken {s : Scanner} (hb : s.broken = true) :
    ∃ e, s.run.failure = some e ∧
      (e.cause ≠ .malformedText ∧ s.mended.run = s.run ∨
        e.cause = .malformedText ∧ s.run.lexemes <+: s.mended.run.lexemes ∧
          Blamed s.position.after s.lastColumn s.rest s.mended.run e.position) := by
  fun_induction Scanner.run s with
  | case1 s e hnext =>
      refine ⟨e, rfl, ?_⟩
      cases falters_of_broken hb with
      | elsewhere herror htwin hcause =>
          cases hnext.symm.trans herror
          exact Or.inl ⟨hcause, run_of_error htwin⟩
      | lexeme htakes =>
          rw [next_eq_ok_iff.mpr htakes] at hnext
          exact absurd hnext (by simp)
      | behindLexeme herror htakes hl hnil =>
          cases hnext.symm.trans herror
          exact Or.inr ⟨rfl, List.nil_prefix, blamed_of_last htakes hl hnil⟩
      | behindRejected herror htwin hends =>
          cases hnext.symm.trans herror
          refine Or.inr ⟨rfl, List.nil_prefix, .rejected ?_ hends⟩
          rw [run_of_error htwin]
      | behindBlanks herror hblank =>
          cases hnext.symm.trans herror
          exact Or.inr ⟨rfl, List.nil_prefix, .nothing hblank⟩
  | case2 s l t hnext hend =>
      cases next_eq_ok_iff.mp hnext with
      | finish hbroken => exact absurd hb (by simp [hbroken])
      | lexeme _ _ _ hcut => exact absurd hend (ne_endOfInput_of_cutAt hcut)
  | case3 s l t hnext hne more ih =>
      have htakes := next_eq_ok_iff.mp hnext
      have hrun := run_mended_of_takes htakes hne
      obtain ⟨hbroken, hmore⟩ := (falters_of_broken hb).more hnext
      obtain ⟨e, hfailure, hcases⟩ := ih hbroken
      refine ⟨e, hfailure, ?_⟩
      rcases hcases with ⟨hcause, hsame⟩ | ⟨hcause, hprefix, hblamed⟩
      · refine Or.inl ⟨hcause, ?_⟩
        rw [hrun, hsame]
      · refine Or.inr ⟨hcause, ?_, blamed_of_takes htakes hne hmore hblamed⟩
        rw [hrun]
        exact List.cons_prefix_cons.mpr ⟨rfl, hprefix⟩

end Scanner

/-! ## Reading and compiling -/

/-- What is refused is refused whatever comes behind it. -/
theorem Reader.feedAll_append_eq_error {ls : List Located} {e : SyntaxError}
    (more : List Located) : ∀ {r : Reader}, r.feedAll ls = .error e →
      r.feedAll (ls ++ more) = .error e := by
  induction ls with
  | nil =>
      intro r h
      exact absurd h (by simp [feedAll])
  | cons l ls ih =>
      intro r h
      rw [List.cons_append, feedAll]
      rw [feedAll] at h
      cases hfeed : r.feed l.lexeme with
      | error cause => rwa [hfeed] at h
      | ok read =>
          obtain ⟨ts, next⟩ := read
          rw [hfeed] at h
          dsimp only at h ⊢
          cases hmore : next.feedAll ls with
          | ok rest =>
              rw [hmore] at h
              exact absurd h (by simp [Except.map])
          | error e' =>
              rw [hmore] at h
              cases h
              rw [ih hmore]
              rfl

/-- Only a scan speaks of malformed bytes. -/
theorem Scan.failure_of_tokens {s : Scan} {e : SyntaxError} (h : s.tokens = .error e)
    (hcause : e.cause = .malformedText) : s.failure = some e := by
  rcases Scan.tokens_eq_error_iff.mp h with hfeed | ⟨_, hfailure⟩
  · rcases cause_of_feedAll_eq_error hfeed with hgrammar | hdepth
    · rw [hcause] at hgrammar
      exact False.elim hgrammar
    · rw [hcause] at hdepth
      exact absurd hdepth (by simp)
  · exact hfailure

/-- **With malformed bytes ahead no sequence is read**, and what is refused for another reason is
refused without them too. -/
theorem Scanner.tokens_of_broken {s : Scanner} (hb : s.broken = true) :
    ∃ e, s.run.tokens = .error e ∧
      (e.cause = .malformedText ∨ s.mended.run.tokens = .error e) := by
  obtain ⟨e, hfailure, hcases⟩ := run_of_broken hb
  cases hfeed : Reader.start.feedAll s.run.lexemes with
  | ok read =>
      have herror : s.run.tokens = .error e :=
        Scan.tokens_eq_error_iff.mpr (Or.inr ⟨⟨read, hfeed⟩, hfailure⟩)
      refine ⟨e, herror, ?_⟩
      rcases hcases with ⟨_, hsame⟩ | ⟨hcause, _⟩
      · exact Or.inr (hsame ▸ herror)
      · exact Or.inl hcause
  | error e' =>
      have herror : s.run.tokens = .error e' := Scan.tokens_eq_error_iff.mpr (Or.inl hfeed)
      refine ⟨e', herror, Or.inr ?_⟩
      rcases hcases with ⟨_, hsame⟩ | ⟨_, ⟨more, hmore⟩, _⟩
      · exact hsame ▸ herror
      · apply Scan.tokens_eq_error_iff.mpr
        rw [← hmore]
        exact Or.inl (Reader.feedAll_append_eq_error more hfeed)

/-- The error is reported by the scan, by the reader, or on compiling. -/
def Reported (bytes : List UInt8) (e : SyntaxError) : Prop :=
  (scan (.ofBytes bytes)).failure = some e ∨ parse (.ofBytes bytes) = .error e ∨
    ∃ declared, compile bytes declared = .error (.malformed e)

theorem failure_of_reported {bytes : List UInt8} {e : SyntaxError} (h : Reported bytes e)
    (hcause : e.cause = .malformedText) : (scan (.ofBytes bytes)).failure = some e := by
  rcases h with hscan | hparse | ⟨declared, hcompile⟩
  · exact hscan
  · exact Scan.failure_of_tokens hparse hcause
  · exact Scan.failure_of_tokens (compile_eq_malformed_iff.mp hcompile) hcause

/-- A scanner with text alone ahead finds nothing malformed. -/
theorem Scanner.cause_of_next {s : Scanner} (hb : s.broken = false) {e : SyntaxError}
    (h : s.next = .error e) : e.cause ≠ .malformedText := by
  have hopen : s.skipBlanks.broken = false := hb
  have hbehind : ∀ rest, s.skipBlanks.breaksBehind rest = false := by
    intro rest
    rw [breaksBehind, hopen, Bool.and_false]
  unfold next takeLexeme at h
  split at h
  · rw [hopen] at h
    exact absurd h (by simp)
  · split at h
    · cases h
      simp
    · rw [hbehind] at h
      cases h
      simp
    · rw [hbehind] at h
      exact absurd h (by simp)

theorem Scanner.cause_of_run {s : Scanner} (hb : s.broken = false) {e : SyntaxError}
    (h : s.run.failure = some e) : e.cause ≠ .malformedText := by
  fun_induction Scanner.run s with
  | case1 s e' hnext =>
      cases h
      exact cause_of_next hb hnext
  | case2 s l t hnext hend => exact absurd h (by simp)
  | case3 s l t hnext hne more ih =>
      obtain ⟨_, _, _, _, _, hbroken⟩ := split_of_takes (next_eq_ok_iff.mp hnext) hne
      exact ih (hbroken.trans hb) h

/-- What a scan blames malformed bytes on is told by the characters in front of them. -/
theorem blamed_of_scan {chars : List Char} {e : SyntaxError}
    (h : (scan ⟨chars, true⟩).failure = some e) (hcause : e.cause = .malformedText) :
    Blamed Position.behind 0 chars (scan ⟨chars, false⟩) e.position := by
  by_cases hnil : chars = []
  · have hrun : scan ⟨[], true⟩ = ⟨[], some ⟨.malformedText, ⟨0, 0⟩⟩⟩ := Scanner.run_of_error rfl
    rw [hnil, hrun] at h
    cases h
    exact .nothing (hnil ▸ blank_nil)
  · have hstart : (Scanner.ofSource ⟨chars, true⟩).position = .start := by
      simp [Scanner.ofSource, hnil]
    obtain ⟨e', hfailure, hcases⟩ :=
      Scanner.run_of_broken (s := Scanner.ofSource ⟨chars, true⟩) rfl
    cases hfailure.symm.trans h
    rcases hcases with ⟨hother, _⟩ | ⟨_, _, hblamed⟩
    · exact absurd hcause hother
    · rw [hstart, Position.after_start] at hblamed
      exact hblamed

/--
**Malformed bytes.** Of every byte sequence there is one longest start that is text. If that is
all of it, nothing reports malformed bytes. If it is not, the lexemes never come to the end of the
input, and no formula compiles: either the bytes are reported, or the same error as for the start
alone. And wherever the bytes are reported, the start tells what is blamed.
-/
theorem malformed_bytes_blamed (bytes : List UInt8) :
    ∃ start, (∀ other, Utf8.LongestValid bytes other ↔ other = start) ∧
      (bytes = start → ∀ e, Reported bytes e → e.cause ≠ .malformedText) ∧
      (bytes ≠ start →
        (∀ l ∈ (scan (.ofBytes bytes)).lexemes, l.lexeme ≠ .endOfInput) ∧
        ∃ e, (∀ declared, compile bytes declared = .error (.malformed e)) ∧
          (e.cause = .malformedText ∨
            ∀ declared, compile start declared = .error (.malformed e))) ∧
      ∃ chars, Utf8.encode chars = start ∧
        ∀ e, Reported bytes e → e.cause = .malformedText →
          Blamed Position.behind 0 chars (scan (.ofBytes start)) e.position := by
  have hsource : Source.ofBytes (Utf8.encode (Utf8.readable bytes).1) =
      ⟨(Utf8.readable bytes).1, false⟩ := Source.ofBytes_encode _
  refine ⟨Utf8.encode (Utf8.readable bytes).1, fun _ => Utf8.longestValid_iff, ?_, ?_, _, rfl, ?_⟩
  · intro hwhole e he hcause
    have hbroken := Source.broken_eq_false_iff.mpr hwhole
    exact Scanner.cause_of_run hbroken (failure_of_reported he hcause) hcause
  · intro hpart
    have hbroken : (Source.ofBytes bytes).broken = true := by
      rw [← Bool.not_eq_false, Source.broken_eq_false_iff]
      exact hpart
    refine ⟨?_, ?_⟩
    · obtain ⟨e, hfailure, _⟩ :=
        Scanner.run_of_broken (s := Scanner.ofSource (.ofBytes bytes)) hbroken
      exact Scanner.ne_endOfInput_of_failure hfailure
    · obtain ⟨e, herror, hcases⟩ :=
        Scanner.tokens_of_broken (s := Scanner.ofSource (.ofBytes bytes)) hbroken
      refine ⟨e, fun declared => compile_eq_malformed_iff.mpr herror, hcases.imp_right ?_⟩
      intro hmended declared
      rw [compile_eq_malformed_iff, hsource]
      exact hmended
  · intro e he hcause
    have hfailure := failure_of_reported he hcause
    rw [hsource]
    cases hbroken : (Source.ofBytes bytes).broken with
    | false => exact absurd hcause (Scanner.cause_of_run hbroken hfailure)
    | true =>
        have hbytes : Source.ofBytes bytes = ⟨(Utf8.readable bytes).1, true⟩ := by
          rw [← hbroken]
          rfl
        rw [hbytes] at hfailure
        exact blamed_of_scan hfailure hcause

/-- Behind a blank there is no line to blame, and behind a lexeme there is. -/
example : compile [97, 32, 250] ["a"] = .error (.malformed ⟨.malformedText, ⟨0, 1⟩⟩) ∧
    compile [45, 73, 250] ["I"] = .error (.malformed ⟨.malformedText, ⟨1, 2⟩⟩) := by
  decide +kernel

end Formula
