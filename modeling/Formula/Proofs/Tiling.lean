import Formula.Proofs.Encoding
import Formula.Proofs.Lexing

/-!
# Lexemes tile the source

A scan that comes to its end has taken the source apart and lost nothing: blanks, a lexeme's text,
blanks, the next lexeme's text, and so on, are the source again. Where a lexeme stands is told by
what is in front of it, and a scanner that only ever counts forward says the same
(`Position.after_behind`), so the positions are true and increase.

Three parts, each an induction over the scan: the tiles cover the text, their positions are those of
the characters in front of them, and no position comes twice.
-/

namespace Formula

namespace Position

/-- The position of a place, by the characters in front of it: one more than the line feeds among
them, and one more than the characters behind the last of these. -/
def behind (before : List Char) : Position :=
  ⟨1 + before.count '\n', 1 + (before.reverse.takeWhile (· ≠ '\n')).length⟩

/-- The position comes first, by lines and then by columns. -/
def Before (p q : Position) : Prop := p.line < q.line ∨ p.line = q.line ∧ p.column < q.column

theorem behind_ne_nowhere (before : List Char) : behind before ≠ nowhere := by
  intro h
  have hline := congrArg Position.line h
  simp [behind, nowhere] at hline

theorem advance_behind (before : List Char) (c : Char) :
    (behind before).advance c = behind (before ++ [c]) := by
  by_cases hc : c = '\n'
  · simp [advance, behind, hc]
    omega
  · simp [advance, behind, hc]
    omega

/-- **Counting on from a place counts what is in front.** -/
theorem after_behind (before cs : List Char) :
    (behind before).after cs = behind (before ++ cs) := by
  induction cs generalizing before with
  | nil => rw [after_nil, List.append_nil]
  | cons c cs ih =>
      rw [after_cons, advance_behind, ih, List.append_assoc, List.singleton_append]

theorem after_start : start.after = behind := funext fun cs => after_behind [] cs

theorem Before.trans {p q r : Position} (h : p.Before q) (h' : q.Before r) : p.Before r := by
  unfold Before at *
  omega

theorem before_advance (p : Position) (c : Char) : p.Before (p.advance c) := by
  unfold advance
  split
  · exact Or.inl (Nat.lt_succ_self _)
  · exact Or.inr ⟨rfl, Nat.lt_succ_self _⟩

/-- Characters lead on. -/
theorem before_after {cs : List Char} (h : cs ≠ []) (p : Position) : p.Before (p.after cs) := by
  induction cs generalizing p with
  | nil => exact absurd rfl h
  | cons c cs ih =>
      by_cases hcs : cs = []
      · rw [hcs]
        exact before_advance p c
      · exact (before_advance p c).trans (ih hcs _)

theorem after_cases (p : Position) (cs : List Char) : p.after cs = p ∨ p.Before (p.after cs) := by
  by_cases hcs : cs = []
  · exact Or.inl (hcs ▸ rfl)
  · exact Or.inr (before_after hcs p)

end Position

/-- A lexeme with the blanks in front of it. -/
structure Tile where
  blanks : List Char
  located : Located

/-- The characters that a tile covers. -/
def Tile.chars (t : Tile) : List Char := t.blanks ++ t.located.lexeme.text.toList

/-- The lexemes take the characters apart, with `place` giving the position behind some of them. -/
structure Tiling (place : List Char → Position) (chars : List Char) (lexemes : List Located)
    (tiles : List Tile) (tail : List Char) : Prop where
  /-- Tile by tile, and then the tail, they are all the characters. -/
  covers : chars = tiles.flatMap Tile.chars ++ tail
  /-- Nothing but blanks is in front of a lexeme, -/
  blanks : ∀ tile ∈ tiles, Blank tile.blanks
  /-- or behind the last one. -/
  tail : Blank tail
  /-- No lexeme is without a text. -/
  text : ∀ tile ∈ tiles, tile.located.lexeme.text ≠ ""
  /-- The end of the input comes behind them all. -/
  lexemes : lexemes = tiles.map Tile.located ++ [⟨.endOfInput, place chars⟩]
  /-- Each position is that of the lexeme's first character. -/
  positions : ∀ before tile after, tiles = before ++ tile :: after →
    tile.located.position = place (before.flatMap Tile.chars ++ tile.blanks)

theorem text_ne_of_cutAt {c : Char} {cs rest : List Char} {l : Lexeme}
    (h : cutAt c cs = .lexeme l rest) : l.text ≠ "" := by
  intro hempty
  obtain ⟨more, htext, _⟩ := exists_of_cutAt h
  rw [hempty] at htext
  exact absurd htext (by simp)

namespace Scanner

/-- A lexeme takes its blanks and its text off what is left. -/
theorem rest_eq_of_cutAt {s : Scanner} {blanks cs rest : List Char} {c : Char} {l : Lexeme}
    (hrest : s.rest = blanks ++ c :: cs) (hcut : cutAt c cs = .lexeme l rest) :
    s.rest = blanks ++ l.text.toList ++ rest := by
  obtain ⟨more, htext, hmore⟩ := exists_of_cutAt hcut
  rw [hrest, htext, ← hmore, List.append_assoc, List.cons_append]

/-- A lexeme is taken off the text with the blanks in front of it, and counted with them. -/
theorem split_of_takes {s t : Scanner} {l : Located} (h : Takes s l t)
    (hl : l.lexeme ≠ .endOfInput) :
    ∃ blanks, s.rest = blanks ++ l.lexeme.text.toList ++ t.rest ∧
      l.position = s.position.after blanks ∧
      t.position = s.position.after (blanks ++ l.lexeme.text.toList) ∧
      t.lastColumn = l.position.column ∧ t.broken = s.broken := by
  cases h with
  | finish => exact absurd rfl hl
  | @lexeme blanks cs rest c l hs _ _ hcut _ =>
      exact ⟨blanks, rest_eq_of_cutAt hs hcut, rfl, (Position.after_append ..).symm, rfl, rfl⟩

/-- **What a scanner lists tiles what it reads**, with positions counted from its own. -/
theorem exists_tiling {s : Scanner} (h : s.run.failure = none) :
    ∃ tiles tail, Tiling s.position.after s.rest s.run.lexemes tiles tail := by
  fun_induction Scanner.run s with
  | case1 s e hnext => exact absurd h (by simp)
  | case2 s l t hnext hend =>
      cases next_eq_ok_iff.mp hnext with
      | finish _ hblank =>
          refine ⟨[], s.rest, rfl, by simp, hblank, by simp, rfl, ?_⟩
          intro before tile after hsplit
          exact absurd hsplit (by simp)
      | lexeme _ _ _ hcut => exact absurd hend (ne_endOfInput_of_cutAt hcut)
  | case3 s l t hnext hne more ih =>
      cases next_eq_ok_iff.mp hnext with
      | finish => exact absurd rfl hne
      | @lexeme blanks cs rest c l hrest hblanks hc hcut _ =>
          obtain ⟨tiles, tail, htiling⟩ := ih h
          have hall := rest_eq_of_cutAt hrest hcut
          refine ⟨⟨blanks, ⟨l, s.position.after blanks⟩⟩ :: tiles, tail, ?_, ?_, htiling.tail, ?_,
            ?_, ?_⟩
          · rw [hall, List.flatMap_cons, List.append_assoc _ _ tail, ← htiling.covers]
            rfl
          · exact List.forall_mem_cons.mpr ⟨hblanks, htiling.blanks⟩
          · exact List.forall_mem_cons.mpr ⟨text_ne_of_cutAt hcut, htiling.text⟩
          · -- the end is as far from here as its distance behind the lexeme says
            rw [hall, Position.after_append, Position.after_append]
            exact congrArg (_ :: ·) htiling.lexemes
          · intro before tile after hsplit
            cases before with
            | nil =>
                obtain ⟨rfl, _⟩ := List.cons.inj hsplit
                rfl
            | cons first before =>
                obtain ⟨rfl, htiles⟩ := List.cons.inj hsplit
                rw [htiling.positions before tile after htiles]
                simp only [List.flatMap_cons, Tile.chars, Position.after_append]

theorem before_of_takes {s t : Scanner} {l : Located} (h : Takes s l t)
    (hl : l.lexeme ≠ .endOfInput) : l.position.Before t.position := by
  cases h with
  | finish => exact absurd rfl hl
  | lexeme _ _ _ hcut =>
      apply Position.before_after
      intro hnil
      exact text_ne_of_cutAt hcut (String.toList_eq_nil_iff.mp hnil)

theorem position_of_takes {s t : Scanner} {l : Located} (h : Takes s l t) :
    l.position = s.position ∨ s.position.Before l.position := by
  cases h with
  | finish => exact Position.after_cases s.position s.rest
  | lexeme => exact Position.after_cases s.position _

/-- No lexeme is listed that stands in front of the scanner. -/
theorem position_of_mem_run {s : Scanner} :
    ∀ l ∈ s.run.lexemes, l.position = s.position ∨ s.position.Before l.position := by
  fun_induction Scanner.run s with
  | case1 s e hnext => simp
  | case2 s l t hnext hend =>
      intro m hm
      rw [List.mem_singleton.mp hm]
      exact position_of_takes (next_eq_ok_iff.mp hnext)
  | case3 s l t hnext hne more =>
      rename_i ih
      have htakes := next_eq_ok_iff.mp hnext
      intro m hm
      rcases List.mem_cons.mp hm with rfl | hmore
      · exact position_of_takes htakes
      · have hfirst : s.position.Before t.position := by
          rcases position_of_takes htakes with heq | hbefore
          · exact heq ▸ before_of_takes htakes hne
          · exact hbefore.trans (before_of_takes htakes hne)
        rcases ih m hmore with heq | hbefore
        · exact Or.inr (heq ▸ hfirst)
        · exact Or.inr (hfirst.trans hbefore)

/-- **Positions increase.** -/
theorem pairwise_run {s : Scanner} :
    s.run.lexemes.Pairwise fun l m => l.position.Before m.position := by
  fun_induction Scanner.run s with
  | case1 s e hnext => exact .nil
  | case2 s l t hnext hend => exact List.pairwise_singleton _ _
  | case3 s l t hnext hne more ih =>
      have hbefore := before_of_takes (next_eq_ok_iff.mp hnext) hne
      refine List.pairwise_cons.mpr ⟨?_, ih⟩
      intro m hm
      rcases position_of_mem_run m hm with heq | hm
      · exact heq ▸ hbefore
      · exact hbefore.trans hm

/-- What comes to its end has been read to its end. -/
theorem not_broken_of_run {s : Scanner} (h : s.run.failure = none) : s.broken = false := by
  obtain ⟨ls, last, hlexemes, _, hlast⟩ := exists_end_of_run h
  have hends : s.run.Ends (ls.map Located.lexeme) := by
    refine ⟨h, ?_⟩
    rw [hlexemes, List.map_append, List.map_singleton, hlast]
  exact (lexes_of_ends hends).1

end Scanner

theorem Tiling.exists_place {place : List Char → Position} {chars tail : List Char}
    {lexemes : List Located} {tiles : List Tile} (h : Tiling place chars lexemes tiles tail) :
    ∀ l ∈ lexemes, ∃ before, l.position = place before := by
  intro l hl
  rw [h.lexemes] at hl
  rcases List.mem_append.mp hl with hmem | hlast
  · obtain ⟨tile, htile, rfl⟩ := List.mem_map.mp hmem
    obtain ⟨before, after, hsplit⟩ := List.append_of_mem htile
    exact ⟨_, h.positions before tile after hsplit⟩
  · exact ⟨chars, congrArg Located.position (List.mem_singleton.mp hlast)⟩

/--
**A scan that comes to its end tiles the source**, and its positions are those of the characters in
front of each lexeme. Of the empty source alone the end has no position. Positions increase.
-/
theorem scan_tiles {bytes : List UInt8} (h : (scan (.ofBytes bytes)).failure = none) :
    (bytes ≠ [] → ∃ chars tiles tail, bytes = Utf8.encode chars ∧
      Tiling Position.behind chars (scan (.ofBytes bytes)).lexemes tiles tail) ∧
    (bytes = [] → (scan (.ofBytes bytes)).lexemes = [⟨.endOfInput, .nowhere⟩]) ∧
    (∀ l ∈ (scan (.ofBytes bytes)).lexemes, l.position = .nowhere ↔ bytes = []) ∧
    (scan (.ofBytes bytes)).lexemes.Pairwise fun l m => l.position.Before m.position := by
  have hbytes : Utf8.encode (Source.ofBytes bytes).chars = bytes :=
    Source.encode_chars (Scanner.not_broken_of_run h)
  have hempty : bytes = [] → (scan (.ofBytes bytes)).lexemes = [⟨.endOfInput, .nowhere⟩] := by
    rintro rfl
    have hsource : Source.ofBytes [] = ⟨[], false⟩ := Source.ofBytes_encode []
    have hfinish : Scanner.Takes (.ofSource ⟨[], false⟩) _ _ := .finish rfl blank_nil
    rw [hsource, scan, Scanner.run_of_takes hfinish, if_pos rfl]
    rfl
  have hsome : bytes ≠ [] → ∃ tiles tail, Tiling Position.behind (Source.ofBytes bytes).chars
      (scan (.ofBytes bytes)).lexemes tiles tail := by
    intro hne
    have hchars : (Source.ofBytes bytes).chars ≠ [] := by
      intro hnil
      rw [hnil] at hbytes
      exact hne hbytes.symm
    have hstart : (Scanner.ofSource (.ofBytes bytes)).position = .start := by
      simp [Scanner.ofSource, hchars]
    rw [← Position.after_start, ← hstart]
    exact Scanner.exists_tiling h
  refine ⟨?_, hempty, ?_, Scanner.pairwise_run⟩
  · intro hne
    obtain ⟨tiles, tail, htiling⟩ := hsome hne
    exact ⟨_, tiles, tail, hbytes.symm, htiling⟩
  · intro l hl
    by_cases hnil : bytes = []
    · rw [hempty hnil] at hl
      simp [List.mem_singleton.mp hl, hnil]
    · obtain ⟨tiles, tail, htiling⟩ := hsome hnil
      obtain ⟨before, hbefore⟩ := htiling.exists_place l hl
      simp [hbefore, hnil, Position.behind_ne_nowhere]

/-- `x1` and `2.5e3` on two lines, with an `é` between them. -/
theorem scan_two_lines_tiled :
    (scan (.ofBytes [120, 49, 43, 10, 195, 169, 47, 50, 46, 53, 101, 51, 32])).failure = none ∧
      ∃ chars tiles tail,
        [120, 49, 43, 10, 195, 169, 47, 50, 46, 53, 101, 51, 32] = Utf8.encode chars ∧
        Tiling Position.behind chars
          (scan (.ofBytes [120, 49, 43, 10, 195, 169, 47, 50, 46, 53, 101, 51, 32])).lexemes
          tiles tail := by
  have h : (scan (.ofBytes [120, 49, 43, 10, 195, 169, 47, 50, 46, 53, 101, 51, 32])).failure =
      none := by decide +kernel
  exact ⟨h, (scan_tiles h).1 (by simp)⟩

end Formula
