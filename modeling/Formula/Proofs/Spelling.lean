import Mathlib.Control.Monad.Basic
import Formula.Proofs.Encoding
import Formula.Proofs.Lexing
import Formula.Proofs.Numeral

/-!
# Writing a formula back

An infix sequence that can be read can be written, and what is written reads as the sequence. Each
token is written as one lexeme, and the space behind it lets no other run into it, so the text is
made of the lexemes of the tokens (`lexes_spellTokens`). A phrase of tokens is then a phrase of
their lexemes, which stand for the tokens again (`derives_of_phrase`).

`Spellable` is what this takes of a sequence, and all that is read has it: besides being a phrase,
its numbers are plain and its variables have names that nothing else answers to.
-/

namespace Formula

namespace Token

/-- The lexeme that the token is written as. -/
def lexeme : Token → Lexeme
  | .constant c => .name c.name
  | .leftParen => .leftParen
  | .rightParen => .rightParen
  | .function f => .name f.name
  | .operator op => .operator op
  | .negate => .operator .subtract
  | .number value => .numeral (Shortest.text value)
  | .var name _ => .name name

/-- There is a text that stands for the token: a number is finite and has no sign, and a variable is
a name that is no constant's and has no slot yet. -/
def Readable : Token → Prop
  | .number value => Binary64.Plain value
  | .var name slot => slot = none ∧ IsName name ∧ ∀ c : Constant, c.name ≠ name
  | _ => True

/-- Every function stands directly in front of a parenthesis. -/
def Applied : List Token → Prop
  | [] => True
  | t :: ts => (∀ f, t = .function f → ts.head? = some .leftParen) ∧ Applied ts

end Token

/-- An infix sequence that a formula can say. -/
structure Spellable (tokens : List Token) : Prop where
  /-- The tokens follow the grammar, with no more units open than are allowed. -/
  phrase : Phrase .expression nestingLimit tokens
  applied : Token.Applied tokens
  readable : ∀ t ∈ tokens, t.Readable

/-! ## The text of a sequence -/

theorem lexes_numeral {text : String} {d : Decimal} (h : Numeral text.toList d) :
    Lexes text.toList [.numeral text] := by
  cases htext : text.toList with
  | nil => exact absurd htext h.ne_nil
  | cons c cs =>
      have hcut := cutAt_of_numeral (htext ▸ h)
      rw [← htext, String.ofList_toList] at hcut
      exact .single hcut

theorem lexes_spelling {t : Token} (h : t.Readable) : Lexes t.spelling.toList [t.lexeme] := by
  cases t with
  | constant c => exact .name c.isName_name
  | function f => exact .name f.isName_name
  | leftParen | rightParen | negate => exact .single rfl
  | operator op =>
      have htext : (Token.operator op).spelling.toList = [op.symbol] :=
        String.toList_singleton op.symbol
      rw [htext]
      exact .operator op (.finish blank_nil)
  | number value =>
      obtain ⟨d, hnumeral, _⟩ := exists_numeral_text h
      exact lexes_numeral hnumeral
  | var name slot => exact .name h.2.1

theorem toList_spellTokens_singleton (t : Token) :
    (spellTokens [t]).toList = t.spelling.toList := by
  simp [spellTokens]

theorem toList_spellTokens_cons_cons (t u : Token) (ts : List Token) :
    (spellTokens (t :: u :: ts)).toList =
      t.spelling.toList ++ ' ' :: (spellTokens (u :: ts)).toList := by
  simp [spellTokens]

/-- **A sequence is written as the lexemes of its tokens.** -/
theorem lexes_spellTokens {tokens : List Token} (h : ∀ t ∈ tokens, t.Readable) :
    Lexes (spellTokens tokens).toList (tokens.map Token.lexeme) := by
  induction tokens with
  | nil => exact .finish blank_nil
  | cons t ts ih =>
      obtain ⟨ht, hts⟩ := List.forall_mem_cons.mp h
      cases ts with
      | nil =>
          rw [toList_spellTokens_singleton]
          exact lexes_spelling ht
      | cons u ts =>
          have hspace : Blank [' '] := by simp [Blank, Text.isBlank]
          rw [toList_spellTokens_cons_cons]
          exact (lexes_spelling ht).append Cut.stops_space ((ih hts).blanks hspace)

/-! ## The phrase that its lexemes are -/

theorem derives_of_operand {t : Token} (ht : t.isOperand) (h : t.Readable) (n : Nat) :
    Derives .unit (n + 1) [t.lexeme] ∧ tokensOf true [t.lexeme] = [t] := by
  cases t with
  | constant c =>
      have hname := Token.ofName_name c
      exact ⟨.name c.name, (tokensOf_bare (by simp) true c.name).trans (congrArg ([·]) hname)⟩
  | number value =>
      have hvalue := literal?_text h
      rw [Token.lexeme, Lexeme.numeral]
      split
      · exact ⟨.decimal ⟨value, literal?_eq_some_iff.mp hvalue⟩, tokensOf_decimal hvalue true []⟩
      · exact ⟨.integer ⟨value, literal?_eq_some_iff.mp hvalue⟩, tokensOf_integer hvalue true []⟩
  | var name slot =>
      obtain ⟨rfl, _, hfree⟩ := h
      have hname := Token.ofName_of_free hfree
      exact ⟨.name name, (tokensOf_bare (by simp) true name).trans (congrArg ([·]) hname)⟩
  | leftParen | rightParen | function | operator | negate =>
      exact absurd ht (by simp [Token.isOperand])

/-- **The lexemes of a phrase are a phrase, and stand for it.** -/
theorem derives_of_phrase {category : Category} {n : Nat} {ts : List Token}
    (h : Phrase category n ts) (hts : ∀ t ∈ ts, t.Readable) :
    Derives category n (ts.map Token.lexeme) ∧ tokensOf true (ts.map Token.lexeme) = ts := by
  induction h with
  | @operand n t ht => exact derives_of_operand ht (hts t List.mem_cons_self) n
  | @group n ts _ ih =>
      obtain ⟨hderives, htokens⟩ := ih fun t ht => hts t (by simp [ht])
      simp only [List.map_cons, List.map_append, List.map_nil, Token.lexeme]
      refine ⟨.group hderives, ?_⟩
      rw [List.cons_append, tokensOf_leftParen, tokensOf_append hderives (by simp),
        tokensOf_rightParen, htokens]
      rfl
  | @negation n ts _ ih =>
      obtain ⟨hderives, htokens⟩ := ih fun t ht => hts t (by simp [ht])
      simp only [List.map_cons, Token.lexeme]
      refine ⟨.negation hderives, ?_⟩
      rw [tokensOf_negation, htokens]
  | @call n f ts _ ih =>
      obtain ⟨hderives, htokens⟩ := ih fun t ht => hts t (by simp [ht])
      have hf := Function.ofName?_name f
      simp only [List.map_cons, List.map_append, List.map_nil, Token.lexeme]
      refine ⟨.call ⟨f, rfl⟩ hderives, ?_⟩
      rw [List.cons_append, List.cons_append, tokensOf_call hf,
        tokensOf_append hderives (by simp), tokensOf_rightParen, htokens]
      rfl
  | single _ ih =>
      obtain ⟨hderives, htokens⟩ := ih hts
      exact ⟨.single hderives, htokens⟩
  | @chain n op ts rest _ _ ih₁ ih₂ =>
      obtain ⟨hderives₁, htokens₁⟩ := ih₁ fun t ht => hts t (by simp [ht])
      obtain ⟨hderives₂, htokens₂⟩ := ih₂ fun t ht => hts t (by simp [ht])
      simp only [List.map_append, List.map_cons, Token.lexeme]
      refine ⟨.chain hderives₁ hderives₂, ?_⟩
      rw [tokensOf_append hderives₁ (by simp), tokensOf_operator, htokens₁, htokens₂]

/-- What can be said is read back as it is. -/
theorem parse_of_spellable {tokens : List Token} (h : Spellable tokens) :
    parse (.ofBytes (spellTokens tokens).toUTF8.data.toList) = .ok tokens := by
  obtain ⟨hderives, htokens⟩ := derives_of_phrase h.phrase h.readable
  have hlexes := lexes_spellTokens h.readable
  have hbytes : (spellTokens tokens).toUTF8.data.toList = Utf8.encode (spellTokens tokens).toList :=
    (Utf8.encode_toList _).symm
  rw [hbytes, parse, scan, Source.ofBytes_encode, Scanner.tokens_run_eq_ok_iff]
  exact ⟨_, Scanner.ends_run_iff.mpr ⟨rfl, hlexes⟩, hderives, htokens.symm⟩

/-! ## What is read can be said -/

theorem applied_append {ts us : List Token} (hts : Token.Applied ts) (hus : Token.Applied us) :
    Token.Applied (ts ++ us) := by
  induction ts with
  | nil => exact hus
  | cons t ts ih =>
      obtain ⟨hfirst, hmore⟩ := hts
      refine ⟨?_, ih hmore⟩
      intro f hf
      exact List.head?_append.trans (by rw [hfirst f hf]; rfl)

theorem applied_singleton {t : Token} (ht : ∀ f, t ≠ .function f) : Token.Applied [t] :=
  ⟨fun f hf => absurd hf (ht f), trivial⟩

theorem applied_of_phrase {category : Category} {n : Nat} {ts : List Token}
    (h : Phrase category n ts) : Token.Applied ts := by
  have hopen : Token.Applied [.leftParen] := applied_singleton (by simp)
  have hclose : Token.Applied [.rightParen] := applied_singleton (by simp)
  induction h with
  | @operand n t ht =>
      refine applied_singleton ?_
      rintro f rfl
      exact absurd ht (by simp [Token.isOperand])
  | group _ ih => exact applied_append (applied_append hopen ih) hclose
  | negation _ ih => exact applied_append (applied_singleton (by simp)) ih
  | call f _ ih => exact ⟨fun _ _ => rfl, applied_append (applied_append hopen ih) hclose⟩
  | single _ ih => exact ih
  | chain op _ _ ih₁ ih₂ =>
      exact applied_append ih₁ (applied_append (applied_singleton (by simp)) ih₂)

/-- A bare name is a constant, or else a variable that no constant is named like. -/
theorem readable_ofName {name : String} (h : IsName name) : (Token.ofName name).Readable := by
  unfold Token.ofName
  split
  · trivial
  · rename_i hnone
    exact ⟨rfl, h, Constant.ofName?_eq_none_iff.mp hnone⟩

/-- What a literal denotes is plain. -/
theorem plain_of_literal? {text : String} {x : Float} (h : Reader.literal? text = some x) :
    Binary64.Plain x := by
  obtain ⟨d, _, hd⟩ := Option.bind_eq_some_iff.mp h
  exact (Decimal.toFloat?_eq_some_iff.mp hd).1

/-- **Whatever is cut stands for tokens that can be read.** -/
theorem readable_of_cutAt {c : Char} {cs rest : List Char} {l : Lexeme}
    (hcut : cutAt c cs = .lexeme l rest) {fresh : Bool} {behind : Option Lexeme} :
    ∀ t ∈ l.tokenAt fresh behind, t.Readable := by
  intro t ht
  cases l with
  | integer text | decimal text =>
      simp only [Lexeme.tokenAt, Lexeme.token, Option.mem_toList,
        Option.map_eq_some_iff] at ht
      obtain ⟨x, hx, rfl⟩ := ht
      exact plain_of_literal? hx
  | name text =>
      simp only [Lexeme.tokenAt] at ht
      split at ht
      · obtain ⟨f, _, rfl⟩ := List.mem_map.mp ht
        trivial
      · rw [bareName_eq, List.mem_singleton] at ht
        exact ht ▸ readable_ofName (isName_of_cutAt hcut)
  | operator op =>
      cases op with
      | subtract =>
          obtain rfl := List.mem_singleton.mp ht
          cases fresh <;> trivial
      | add | multiply | divide | power =>
          obtain rfl := List.mem_singleton.mp ht
          trivial
  | leftParen | rightParen =>
      obtain rfl := List.mem_singleton.mp ht
      trivial
  | endOfInput => exact absurd rfl (ne_endOfInput_of_cutAt hcut)

theorem readable_of_lexes {cs : List Char} {ls : List Lexeme} (h : Lexes cs ls) :
    ∀ {fresh : Bool}, ∀ t ∈ tokensOf fresh ls, t.Readable := by
  induction h with
  | finish =>
      intro fresh t ht
      exact absurd ht (by simp)
  | lexeme _ _ hcut _ ih =>
      intro fresh t ht
      rw [tokensOf] at ht
      rcases List.mem_append.mp ht with hfirst | hmore
      · exact readable_of_cutAt hcut t hfirst
      · exact ih t hmore

theorem spellable_of_parse {source : Source} {tokens : List Token}
    (h : parse source = .ok tokens) : Spellable tokens := by
  have hphrase := phrase_of_parse h
  obtain ⟨ls, hends, _, rfl⟩ := Scanner.tokens_run_eq_ok_iff.mp h
  exact ⟨hphrase, applied_of_phrase hphrase, readable_of_lexes (Scanner.ends_run_iff.mp hends).2⟩

/--
**Reading and writing undo each other.** A sequence that can be said is what its text is read as,
and all that is ever read can be said.
-/
theorem spelling_round_trip :
    (∀ tokens, Spellable tokens →
      parse (.ofBytes (spellTokens tokens).toUTF8.data.toList) = .ok tokens) ∧
    ∀ formula tokens, parse (.ofBytes formula) = .ok tokens →
      Spellable tokens ∧ parse (.ofBytes (spellTokens tokens).toUTF8.data.toList) = .ok tokens := by
  refine ⟨fun tokens h => parse_of_spellable h, ?_⟩
  intro formula tokens h
  have hspellable := spellable_of_parse h
  exact ⟨hspellable, parse_of_spellable hspellable⟩

/-- `-sqrt(x)*.5e-1`, written back as `- sqrt ( x ) * 0.05`. -/
theorem spelling_of_negated_root :
    Spellable [.negate, .function .sqrt, .leftParen, .var "x" none, .rightParen,
      .operator .multiply, .number 0.05] ∧
    parse (.ofBytes "- sqrt ( x ) * 0.05".toUTF8.data.toList) =
      .ok [.negate, .function .sqrt, .leftParen, .var "x" none, .rightParen,
        .operator .multiply, .number 0.05] := by
  have hparse :
      parse (.ofBytes [45, 115, 113, 114, 116, 40, 120, 41, 42, 46, 53, 101, 45, 49]) =
        .ok [.negate, .function .sqrt, .leftParen, .var "x" none, .rightParen,
          .operator .multiply, .number 0.05] := by
    decide +kernel
  have htext : spellTokens [.negate, .function .sqrt, .leftParen, .var "x" none, .rightParen,
      .operator .multiply, .number 0.05] = "- sqrt ( x ) * 0.05" := by
    decide +kernel
  obtain ⟨hspellable, _⟩ := spelling_round_trip.2 _ _ hparse
  have hread := spelling_round_trip.1 _ hspellable
  rw [htext] at hread
  exact ⟨hspellable, hread⟩

end Formula
