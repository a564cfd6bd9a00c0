import Formula.Proofs.Conservation
import Formula.Proofs.Substitution
import Formula.Proofs.Tiling
import Formula.Proofs.Unbound

/-!
# The variables of a compiled formula

A compiled formula lists the names that it reads. The list is made from its program, in which tokens
have changed places, and yet it has the order in which the names are written. That is so because the
only tokens with names are operands, and operands do not overtake one another
(`readNames_resolved`).

The order is said by places: a name is listed before another just when the first token that reads it
comes before the first that reads the other. For a formula the places can be pointed at in the text,
as one token is read from one lexeme and positions increase from lexeme to lexeme.
-/

namespace Formula

/-! ## Distinct names -/

/-- The place of the first token that reads the name. -/
def firstRead (tokens : List Token) (name : String) : Nat :=
  tokens.findIdx (·.varName? = some name)

theorem distinctNames_cons (name : String) (names : List String) :
    distinctNames (name :: names) = name :: (distinctNames names).filter (· ∉ [name]) :=
  foldl_distinct names [name]

theorem mem_distinctNames {name : String} {names : List String} :
    name ∈ distinctNames names ↔ name ∈ names := by
  induction names with
  | nil => exact Iff.rfl
  | cons first others ih =>
      rw [distinctNames_cons, List.mem_cons, List.mem_filter, ih]
      by_cases hname : name = first <;> simp [hname]

theorem nodup_distinctNames (names : List String) : (distinctNames names).Nodup := by
  induction names with
  | nil => exact .nil
  | cons first others ih =>
      rw [distinctNames_cons]
      refine List.nodup_cons.mpr ⟨?_, ih.filter _⟩
      intro hmem
      exact absurd (List.mem_filter.mp hmem).2 (by simp)

theorem firstRead_cons_of_eq {token : Token} {name : String} (h : token.varName? = some name)
    (ts : List Token) : firstRead (token :: ts) name = 0 := by
  simp [firstRead, List.findIdx_cons, h]

theorem firstRead_cons_of_ne {token : Token} {name : String} (h : token.varName? ≠ some name)
    (ts : List Token) : firstRead (token :: ts) name = firstRead ts name + 1 := by
  simp [firstRead, List.findIdx_cons, h]

/-- **Distinct names come in the order of the tokens that first read them.** -/
theorem pairwise_distinctNames (ts : List Token) :
    (distinctNames (readNames ts)).Pairwise fun a b => firstRead ts a < firstRead ts b := by
  induction ts with
  | nil => exact .nil
  | cons token ts ih =>
      rw [readNames_cons]
      cases hname : token.varName? with
      | none =>
          refine ih.imp ?_
          intro a b hlt
          rw [firstRead_cons_of_ne (by simp [hname]), firstRead_cons_of_ne (by simp [hname])]
          omega
      | some name =>
          -- the name itself comes first, and all others one place later than in the rest
          have hlater : ∀ other ∈ (distinctNames (readNames ts)).filter (· ∉ [name]),
              firstRead (token :: ts) other = firstRead ts other + 1 := by
            intro other hother
            have hne : other ≠ name := by simpa using (List.mem_filter.mp hother).2
            apply firstRead_cons_of_ne
            rw [hname]
            exact fun heq => hne (Option.some.inj heq).symm
          rw [Option.toList_some, List.singleton_append, distinctNames_cons]
          refine List.pairwise_cons.mpr ⟨?_, ?_⟩
          · intro other hother
            rw [firstRead_cons_of_eq hname, hlater other hother]
            omega
          · refine (ih.filter _).imp_of_mem ?_
            intro a b ha hb hlt
            rw [hlater a ha, hlater b hb]
            omega

/-- The first token that reads a name is there, if there is any, and is the first. -/
theorem firstRead_spec {tokens : List Token} {name : String} (h : name ∈ readNames tokens) :
    (∃ slot, tokens[firstRead tokens name]? = some (.var name slot)) ∧
      ∀ i slot, tokens[i]? = some (.var name slot) → firstRead tokens name ≤ i := by
  obtain ⟨slot, hslot⟩ := mem_readNames.mp h
  have hlt : firstRead tokens name < tokens.length :=
    List.findIdx_lt_length.mpr ⟨_, hslot, by simp [Token.varName?]⟩
  refine ⟨?_, ?_⟩
  · have hfound : tokens[firstRead tokens name].varName? = some name :=
      of_decide_eq_true (List.findIdx_getElem (w := hlt))
    obtain ⟨found, hvar⟩ := exists_var_of_varName? hfound
    exact ⟨found, by rw [List.getElem?_eq_getElem hlt, hvar]⟩
  · intro i other hi
    by_contra hbefore
    obtain ⟨hbound, hvar⟩ := List.getElem?_eq_some_iff.mp hi
    have hnot := List.not_of_lt_findIdx (Nat.lt_of_not_le hbefore)
    rw [hvar] at hnot
    exact absurd hnot (by simp [Token.varName?])

/-! ## Names of a resolved program -/

theorem readNames_operands (ts : List Token) : readNames (operands ts) = readNames ts := by
  induction ts with
  | nil => rfl
  | cons token ts ih =>
      rw [← List.singleton_append, operands_append, readNames_append, readNames_append, ih]
      cases token <;> rfl

/-- **A program reads the names of its sequence in the same order.** -/
theorem readNames_resolved {declared : List String} {tokens : List Token} {program : Program}
    (h : Program.resolve declared tokens = .ok program) : readNames program = readNames tokens := by
  rw [← readNames_operands program, ← readNames_operands tokens, ← Program.readNames_slotless,
    operands_resolved h, Program.readNames_slotless]

/-- What resolving a sequence says of its variables: how they are bound in the program, and in which
order their names are listed. -/
structure BindsNames (declared : List String) (tokens : List Token) (program : Program)
    (names : List String) : Prop where
  /-- Every variable has the last position of its name, whatever it had before. -/
  slots : ∀ name slot, .var name slot ∈ program → ∃ i, slot = some i ∧ LastAt declared name i
  /-- No name is listed twice. -/
  nodup : names.Nodup
  /-- The names listed are those that the program reads, -/
  reads : ∀ name, name ∈ names ↔ ∃ slot, .var name slot ∈ program
  /-- which are those that the sequence reads, -/
  written : ∀ name, name ∈ names ↔ ∃ slot, .var name slot ∈ tokens
  /-- in the order in which it first reads them. -/
  order : names.Pairwise fun a b => firstRead tokens a < firstRead tokens b

theorem bindsNames_of_resolve {declared : List String} {tokens : List Token} {program : Program}
    (h : Program.resolve declared tokens = .ok program) :
    BindsNames declared tokens program program.names := by
  have hreads := readNames_resolved h
  obtain ⟨hdeclared, _⟩ := Program.resolve_eq_ok_iff.mp h
  have hnames : ∀ name, name ∈ program.names ↔ name ∈ readNames program :=
    fun name => mem_distinctNames
  refine ⟨?_, nodup_distinctNames _, ?_, ?_, ?_⟩
  · intro name slot hmem
    have hread : name ∈ readNames tokens := hreads ▸ mem_readNames.mpr ⟨slot, hmem⟩
    obtain ⟨i, hi⟩ := exists_slotOf? (hdeclared name hread)
    exact ⟨i, (Program.slot_of_mem_resolved h hmem).trans hi, slotOf?_eq_some_iff.mp hi⟩
  · intro name
    rw [hnames, mem_readNames]
  · intro name
    rw [hnames, hreads, mem_readNames]
  · show (distinctNames (readNames program)).Pairwise _
    rw [hreads]
    exact pairwise_distinctNames tokens

/-! ## Names in the text -/

/-- A variable of the name is written at the position: the name stands there, nothing calls it, and
it is not a constant's. -/
def Scan.VariableAt (s : Scan) (name : String) (p : Position) : Prop :=
  ∃ i, s.lexemes[i]? = some ⟨.name name, p⟩ ∧
    s.lexemes[i + 1]?.map Located.lexeme ≠ some .leftParen ∧ ∀ c : Constant, c.name ≠ name

/-- The variable's first place in the text. -/
def Scan.FirstVariableAt (s : Scan) (name : String) (p : Position) : Prop :=
  s.VariableAt name p ∧ ∀ q, s.VariableAt name q → q = p ∨ p.Before q

theorem length_tokenAt_le (l : Lexeme) (fresh : Bool) (behind : Option Lexeme) :
    (l.tokenAt fresh behind).length ≤ 1 := by
  have hone : ∀ {α : Type} (o : Option α), o.toList.length ≤ 1 := by
    intro α o
    cases o <;> simp
  cases l with
  | operator op => cases op <;> exact Nat.le_refl 1
  | name text =>
      simp only [Lexeme.tokenAt, Function.filter_name_all, bareName_eq]
      split
      · rw [List.length_map]
        exact hone _
      · exact Nat.le_refl 1
  | integer | decimal => exact hone (Option.map Token.number _)
  | leftParen | rightParen => exact Nat.le_refl 1
  | endOfInput => exact Nat.zero_le 1

theorem length_tokensOf_le (ls : List Lexeme) :
    ∀ fresh, (tokensOf fresh ls).length ≤ ls.length := by
  induction ls with
  | nil => intro fresh; exact Nat.le_refl 0
  | cons l ls ih =>
      intro fresh
      have hfirst := length_tokenAt_le l fresh ls.head?
      have hrest := ih l.opensUnit
      rw [tokensOf, List.length_append, List.length_cons]
      omega

/-- A lexeme stands for a variable just when it is a bare name, and not a constant's. -/
theorem tokenAt_eq_var_iff (l : Lexeme) (fresh : Bool) (behind : Option Lexeme) (name : String) :
    (∃ slot, l.tokenAt fresh behind = [.var name slot]) ↔
      l = .name name ∧ behind ≠ some .leftParen ∧ ∀ c : Constant, c.name ≠ name := by
  cases l with
  | name text =>
      simp only [Lexeme.tokenAt, Function.filter_name_all, bareName_eq, Token.ofName]
      by_cases hcall : behind = some .leftParen
      · cases Function.ofName? text <;> simp [hcall]
      · cases hconstant : Constant.ofName? text with
        | some c =>
            refine ⟨fun h => absurd h (by simp [hcall]), ?_⟩
            rintro ⟨heq, _, hfree⟩
            cases heq
            exact absurd (Constant.name_of_ofName?_eq_some hconstant) (hfree c)
        | none =>
            refine ⟨?_, ?_⟩
            · rintro ⟨slot, heq⟩
              rw [if_neg hcall] at heq
              cases heq
              exact ⟨rfl, hcall, Constant.ofName?_eq_none_iff.mp hconstant⟩
            · rintro ⟨heq, _, _⟩
              cases heq
              exact ⟨none, if_neg hcall⟩
  | operator op => cases op <;> cases fresh <;> simp [Lexeme.tokenAt, Lexeme.token]
  | integer text | decimal text =>
      simp only [Lexeme.tokenAt, Lexeme.token]
      cases (Decimal.ofChars? text.toList).bind Decimal.toFloat? <;> simp
  | leftParen | rightParen | endOfInput => simp [Lexeme.tokenAt, Lexeme.token]

/-- **The variables among the tokens of a formula are its bare names**, place by place. -/
theorem getElem?_tokensOf {name : String} {ls : List Lexeme} :
    ∀ {fresh : Bool} (i : Nat), (tokensOf fresh ls).length = ls.length →
      ((∃ slot, (tokensOf fresh ls)[i]? = some (.var name slot)) ↔
        ls[i]? = some (.name name) ∧ ls[i + 1]? ≠ some .leftParen ∧
          ∀ c : Constant, c.name ≠ name) := by
  induction ls with
  | nil => simp
  | cons l ls ih =>
      intro fresh i hlength
      have hfirst := length_tokenAt_le l fresh ls.head?
      have hrest := length_tokensOf_le ls l.opensUnit
      rw [tokensOf, List.length_append, List.length_cons] at hlength
      -- no lexeme has more than one token, so none has fewer
      obtain ⟨token, htoken⟩ : ∃ token, l.tokenAt fresh ls.head? = [token] :=
        List.length_eq_one_iff.mp (by omega)
      rw [tokensOf, htoken, List.singleton_append]
      cases i with
      | zero =>
          have hvar := tokenAt_eq_var_iff l fresh ls.head? name
          rw [htoken] at hvar
          simpa [List.head?_eq_getElem?] using hvar
      | succ i =>
          rw [List.getElem?_cons_succ, List.getElem?_cons_succ, List.getElem?_cons_succ]
          exact ih i (by omega)

/-- The places of a variable in the text are those of the tokens that read it. -/
theorem Scan.variableAt_iff {s : Scan} {ls : List Lexeme} (h : s.Ends ls)
    (hlength : (tokensOf true ls).length = ls.length) {name : String} {p : Position} :
    s.VariableAt name p ↔ ∃ i : Nat, (∃ slot, (tokensOf true ls)[i]? = some (Token.var name slot)) ∧
      s.lexemes[i]?.map Located.position = some p := by
  have hlexemes : ∀ (i : Nat) (l : Lexeme), l ≠ .endOfInput →
      (s.lexemes[i]?.map Located.lexeme = some l ↔ ls[i]? = some l) := by
    intro i l hl
    rw [← List.getElem?_map, h.2, List.getElem?_append]
    split
    · exact Iff.rfl
    · rename_i hi
      rw [List.getElem?_eq_none (by omega : ls.length ≤ i), List.getElem?_singleton]
      split <;> simp [Ne.symm hl]
  unfold VariableAt
  refine exists_congr fun i => ?_
  have hbehind : s.lexemes[i + 1]?.map Located.lexeme ≠ some .leftParen ↔
      ls[i + 1]? ≠ some .leftParen := not_congr (hlexemes (i + 1) .leftParen (by simp))
  rw [getElem?_tokensOf i hlength, ← hlexemes i _ (by simp), hbehind]
  cases s.lexemes[i]? with
  | none => simp
  | some l =>
      obtain ⟨lexeme, position⟩ := l
      simp only [Option.map_some, Option.some.injEq, Located.mk.injEq]
      exact and_right_comm

theorem Scanner.before_of_lt {s : Scanner} {i j : Nat} (h : i < j) {p q : Position}
    (hi : s.run.lexemes[i]?.map Located.position = some p)
    (hj : s.run.lexemes[j]?.map Located.position = some q) : p.Before q := by
  obtain ⟨l, hl, rfl⟩ := Option.map_eq_some_iff.mp hi
  obtain ⟨m, hm, rfl⟩ := Option.map_eq_some_iff.mp hj
  obtain ⟨hilt, rfl⟩ := List.getElem?_eq_some_iff.mp hl
  obtain ⟨hjlt, rfl⟩ := List.getElem?_eq_some_iff.mp hm
  exact List.pairwise_iff_getElem.mp pairwise_run i j hilt hjlt h

/-- **The first token that reads a name is at the variable's first place in the text.** -/
theorem exists_firstVariableAt {source : Source} {tokens : List Token}
    (h : parse source = .ok tokens) {name : String} (hname : name ∈ readNames tokens) :
    ∃ p, (scan source).FirstVariableAt name p ∧
      (scan source).lexemes[firstRead tokens name]?.map Located.position = some p := by
  obtain ⟨ls, hends, hderives, rfl⟩ := Scanner.tokens_run_eq_ok_iff.mp h
  change (scan source).Ends ls at hends
  have hlength := (phrase_of_derives hderives).2
  obtain ⟨⟨slot, hslot⟩, hfirst⟩ := firstRead_spec hname
  have hlt : firstRead (tokensOf true ls) name < (scan source).lexemes.length := by
    have htokens := (List.getElem?_eq_some_iff.mp hslot).1
    have hlexemes : (scan source).lexemes.length = ls.length + 1 := by
      have hall := congrArg List.length hends.2
      rwa [List.length_map, List.length_append] at hall
    omega
  obtain ⟨l, hl⟩ : ∃ l, (scan source).lexemes[firstRead (tokensOf true ls) name]? = some l :=
    ⟨_, List.getElem?_eq_getElem hlt⟩
  have hposition : (scan source).lexemes[firstRead (tokensOf true ls) name]?.map Located.position =
      some l.position := by rw [hl, Option.map_some]
  refine ⟨l.position, ⟨?_, ?_⟩, hposition⟩
  · exact (Scan.variableAt_iff hends hlength).mpr ⟨_, ⟨slot, hslot⟩, hposition⟩
  · intro q hq
    obtain ⟨i, ⟨other, hother⟩, hi⟩ := (Scan.variableAt_iff hends hlength).mp hq
    rcases Nat.eq_or_lt_of_le (hfirst i other hother) with heq | hbefore
    · rw [← heq, hposition] at hi
      exact Or.inl (Option.some.inj hi).symm
    · exact Or.inr (Scanner.before_of_lt hbefore hposition hi)

/-- **Names are listed as they come up in the text.** -/
theorem pairwise_firstVariableAt {formula : List UInt8} {declared : List String} {e : Compiled}
    (h : compile formula declared = .ok e) :
    e.names.Pairwise fun a b => ∃ p q, (scan (.ofBytes formula)).FirstVariableAt a p ∧
      (scan (.ofBytes formula)).FirstVariableAt b q ∧ p.Before q := by
  obtain ⟨tokens, hparse, hresolve, hnames, _⟩ := compile_eq_ok_iff.mp h
  have hbinds := bindsNames_of_resolve hresolve
  rw [← hnames] at hbinds
  refine hbinds.order.imp_of_mem ?_
  intro a b ha hb hlt
  obtain ⟨p, hp, hplace⟩ :=
    exists_firstVariableAt hparse (mem_readNames.mpr ((hbinds.written a).mp ha))
  obtain ⟨q, hq, hother⟩ :=
    exists_firstVariableAt hparse (mem_readNames.mpr ((hbinds.written b).mp hb))
  exact ⟨p, q, hp, hq, Scanner.before_of_lt hlt hplace hother⟩

/--
**Variables are bound to the last position of their name, and listed in the order of the text.**
That is so in every sequence that resolves, grammatical or not and whatever slots it came with, and
so in every formula that compiles: the names listed are those read, once each, in the order in which
the sequence first reads them, which is the order of the places where they are first written.
-/
theorem variables_bound_and_listed :
    (∀ (declared : List String) (tokens : List Token) (program : Program),
      Program.resolve declared tokens = .ok program →
      BindsNames declared tokens program program.names) ∧
    (∀ (formula : List UInt8) (declared : List String) (e : Compiled),
      compile formula declared = .ok e →
      (∃ tokens, parse (.ofBytes formula) = .ok tokens ∧
        BindsNames declared tokens e.program e.names) ∧
      e.names.Pairwise fun a b => ∃ p q, (scan (.ofBytes formula)).FirstVariableAt a p ∧
        (scan (.ofBytes formula)).FirstVariableAt b q ∧ p.Before q) := by
  refine ⟨fun declared tokens program => bindsNames_of_resolve, ?_⟩
  intro formula declared e h
  refine ⟨?_, pairwise_firstVariableAt h⟩
  obtain ⟨tokens, hparse, hresolve, hnames, _⟩ := compile_eq_ok_iff.mp h
  exact ⟨tokens, hparse, hnames ▸ bindsNames_of_resolve hresolve⟩

/-- `b-a*b`, with `b` declared twice: it is read first and bound to its second position. -/
theorem variables_of_difference :
    compile [98, 45, 97, 42, 98] ["b", "a", "b"] =
      .ok ⟨[.var "b" (some 2), .var "a" (some 1), .var "b" (some 2), .operator .multiply,
        .operator .subtract], ["b", "a"], 3⟩ ∧
    ∃ p q, (scan (.ofBytes [98, 45, 97, 42, 98])).FirstVariableAt "b" p ∧
      (scan (.ofBytes [98, 45, 97, 42, 98])).FirstVariableAt "a" q ∧ p.Before q := by
  have h : compile [98, 45, 97, 42, 98] ["b", "a", "b"] =
      .ok ⟨[.var "b" (some 2), .var "a" (some 1), .var "b" (some 2), .operator .multiply,
        .operator .subtract], ["b", "a"], 3⟩ := by decide +kernel
  obtain ⟨_, horder⟩ := variables_bound_and_listed.2 _ _ _ h
  exact ⟨h, List.rel_of_pairwise_cons horder List.mem_cons_self⟩

end Formula
