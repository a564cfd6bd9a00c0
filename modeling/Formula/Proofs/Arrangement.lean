import Formula.Proofs.Denotation

/-!
# A sequence is put in order as its tree is listed

The stack of pending tokens is where a tree is still open. What keeps the two in step is said by two
conditions on the surroundings of a phrase, one on each side:

* **quiet**: nothing that is pending in front of it gives way to an operator inside it, so the
  phrase is put in order by itself;
* **ended**: what comes behind it makes everything that the phrase leaves pending give way, so
  nothing of it stays.

Both are relative to a level, and the level of a sequence is the precedence of its loosest operator.
Between the two, a phrase turns into the listing of its tree and leaves the stack as it was
(`arranges_of_denotes`). Pending tokens of every kind are covered: parentheses by `quiet`, minus
signs and functions by `ended`.
-/

namespace Formula

namespace Program

/-- What comes next makes a pending token go out. -/
def Releases (rest : List Token) (token : Token) : Prop :=
  match rest with
  | [] | .rightParen :: _ => True
  | .operator op :: _ => givesWay op token = true
  | _ => False

/-- The tokens that a phrase of the level may leave pending at its end. -/
def Leaves (level : Level) : Token → Prop
  | .negate | .function _ => True
  | .operator op => level.floor ≤ op.precedence
  | _ => False

/-- Nothing pending gives way to an operator of a phrase of the level. -/
def Quiet (level : Level) (pending : Stack Token) : Prop :=
  ∀ op : Operator, level.floor ≤ op.precedence →
    ∀ token, pending.head? = some token → givesWay op token = false

/-- What comes next lets nothing of a phrase of the level stay. -/
def Ended (level : Level) (rest : List Token) : Prop :=
  ∀ token, Leaves level token → Releases rest token

theorem Quiet.mono {inner outer : Level} {pending : Stack Token} (h : Quiet outer pending)
    (hle : outer.floor ≤ inner.floor) : Quiet inner pending :=
  fun op hop => h op (Nat.le_trans hle hop)

theorem Ended.mono {inner outer : Level} {rest : List Token} (h : Ended outer rest)
    (hle : outer.floor ≤ inner.floor) : Ended inner rest := by
  intro token hleaves
  apply h token
  cases token with
  | operator op => exact Nat.le_trans hle hleaves
  | negate | function => trivial
  | constant | leftParen | rightParen | number | var => exact hleaves

theorem quiet_unit (pending : Stack Token) : Quiet .unit pending :=
  fun op hop => absurd hop op.not_floor_unit_le

theorem quiet_nil (level : Level) : Quiet level [] :=
  fun _ _ _ htoken => absurd htoken (by simp)

theorem quiet_leftParen (level : Level) (pending : Stack Token) :
    Quiet level (.leftParen :: pending) := by
  intro op _ token htoken
  cases htoken
  rfl

theorem ended_nil (level : Level) : Ended level [] := fun _ _ => trivial

theorem ended_rightParen (level : Level) (rest : List Token) :
    Ended level (.rightParen :: rest) := fun _ _ => trivial

/-- An operator ends a phrase whose own operators all give way to it. -/
theorem ended_operator {level : Level} {op : Operator}
    (h : ∀ inner : Operator, level.floor ≤ inner.precedence →
      givesWay op (.operator inner) = true) (rest : List Token) :
    Ended level (.operator op :: rest) := by
  intro token hleaves
  cases token with
  | operator inner => exact h inner hleaves
  | negate | function => rfl
  | constant | leftParen | rightParen | number | var => exact False.elim hleaves

/-- A pending operator is quiet in front of a phrase to whose operators it does not give way. -/
theorem quiet_operator {level : Level} {op : Operator}
    (h : ∀ inner : Operator, level.floor ≤ inner.precedence →
      givesWay inner (.operator op) = false) (pending : Stack Token) :
    Quiet level (.operator op :: pending) := by
  intro inner hinner token htoken
  cases htoken
  exact h inner hinner

/-- An operator that groups from the left makes all that bind as tightly give way. -/
theorem givesWay_of_le {op inner : Operator} (hleft : op.groupsRight = false)
    (hle : op.precedence ≤ inner.precedence) : givesWay op (.operator inner) = true := by
  simp only [givesWay, hleft, Bool.not_false, Bool.and_true, Bool.or_eq_true, decide_eq_true_eq,
    beq_iff_eq]
  omega

/-- A pending operator stays in front of one that binds tighter. -/
theorem not_givesWay_of_lt {op inner : Operator} (hlt : op.precedence < inner.precedence) :
    givesWay inner (.operator op) = false := by
  have hnot : ¬inner.precedence < op.precedence := by omega
  have hne : ¬op.precedence = inner.precedence := by omega
  simp [givesWay, hnot, hne]

/-! ## One token at a time -/

/-- A token that is released goes out before anything else happens. -/
theorem arrange_cons_of_releases {token : Token} (htoken : token ≠ .leftParen)
    (pending : Stack Token) {rest : List Token} (h : Releases rest token) :
    arrange (token :: pending) rest = token :: arrange pending rest := by
  cases rest with
  | nil => rfl
  | cons next rest =>
      cases next with
      | rightParen => simp [arrange, place, Stack.popThrough, htoken]
      | operator op =>
          have hgives : givesWay op token = true := h
          simp [arrange, place, Stack.popWhile, hgives]
      | constant | leftParen | function | negate | number | var => exact False.elim h

/-- A quiet stack takes an operator without giving anything out. -/
theorem arrange_operator_of_quiet {level : Level} {pending : Stack Token}
    (h : Quiet level pending) {op : Operator} (hop : level.floor ≤ op.precedence)
    (rest : List Token) :
    arrange pending (.operator op :: rest) = arrange (.operator op :: pending) rest := by
  cases pending with
  | nil => rfl
  | cons token pending =>
      have hstays : givesWay op token = false := h op hop token rfl
      simp [arrange, place, Stack.popWhile, Stack.push, hstays]

/-! ## A phrase at a time -/

/-- Between a quiet stack and an end, the tokens turn into the listing of the tree. -/
def Arranges (declared : List String) (level : Level) (ts : List Token) (t : Tree) : Prop :=
  ∀ (pending : Stack Token) (rest : List Token), Quiet level pending → Ended level rest →
    arrange pending (ts.map (Token.bind declared) ++ rest) =
      t.listing declared ++ arrange pending rest

theorem arranges_mono {declared : List String} {inner outer : Level} {ts : List Token} {t : Tree}
    (h : Arranges declared inner ts t) (hle : outer.floor ≤ inner.floor) :
    Arranges declared outer ts t :=
  fun pending rest hquiet hended => h pending rest (hquiet.mono hle) (hended.mono hle)

/-- A parenthesis shuts its phrase off from the stack and from what comes behind, whatever they
are. -/
theorem arrange_group {declared : List String} {ts : List Token} {t : Tree}
    (h : Arranges declared .sum ts t) (pending : Stack Token) (rest : List Token) :
    arrange pending
        ((Token.leftParen :: ts ++ [Token.rightParen]).map (Token.bind declared) ++ rest) =
      t.listing declared ++ arrange pending rest := by
  have hinner := h (.leftParen :: pending) (.rightParen :: rest) (quiet_leftParen _ _)
    (ended_rightParen _ _)
  have hclose : arrange (.leftParen :: pending) (.rightParen :: rest) = arrange pending rest := by
    simp [arrange, place, Stack.popThrough]
  rw [hclose] at hinner
  rw [← hinner]
  simp [arrange, place, Stack.push, Token.bind]

theorem arranges_group {declared : List String} {ts : List Token} {t : Tree}
    (h : Arranges declared .sum ts t) :
    Arranges declared .unit (.leftParen :: ts ++ [.rightParen]) t :=
  fun pending rest _ _ => arrange_group h pending rest

/-- A minus sign or a function goes out as soon as its unit is complete. -/
theorem arranges_unary {declared : List String} {token : Token} {ts : List Token} {t u : Tree}
    (htoken : token = .negate ∨ ∃ f, token = .function f)
    (hlisting : u.listing declared = t.listing declared ++ [token])
    (h : Arranges declared .unit ts t) : Arranges declared .unit (token :: ts) u := by
  intro pending rest _ hended
  -- a unit has no operator in the open, so nothing drives the token out before its end
  have hpush : arrange pending ((token :: ts).map (Token.bind declared) ++ rest) =
      arrange (token :: pending) (ts.map (Token.bind declared) ++ rest) := by
    rcases htoken with rfl | ⟨f, rfl⟩ <;> rfl
  have hparen : token ≠ .leftParen := by rcases htoken with rfl | ⟨f, rfl⟩ <;> simp
  have hreleased : Releases rest token := by
    apply hended
    rcases htoken with rfl | ⟨f, rfl⟩ <;> trivial
  calc arrange pending ((token :: ts).map (Token.bind declared) ++ rest)
      = arrange (token :: pending) (ts.map (Token.bind declared) ++ rest) := hpush
    _ = t.listing declared ++ arrange (token :: pending) rest := h _ _ (quiet_unit _) hended
    _ = t.listing declared ++ token :: arrange pending rest := by
        rw [arrange_cons_of_releases hparen pending hreleased]
    _ = u.listing declared ++ arrange pending rest := by
        rw [hlisting, List.append_assoc, List.singleton_append]

/--
**An operator goes out behind both its operands**, if it makes those on its left give way, and none
on its right makes it give way.
-/
theorem arranges_binary {declared : List String} {outer left right : Level} {op : Operator}
    {ls rs : List Token} {l r : Tree} (hl : Arranges declared left ls l)
    (hr : Arranges declared right rs r) (hleft : outer.floor ≤ left.floor)
    (hright : outer.floor ≤ right.floor) (hop : outer.floor ≤ op.precedence)
    (hends : ∀ inner : Operator, left.floor ≤ inner.precedence →
      givesWay op (.operator inner) = true)
    (hstays : ∀ inner : Operator, right.floor ≤ inner.precedence →
      givesWay inner (.operator op) = false) :
    Arranges declared outer (ls ++ .operator op :: rs) (.binary op l r) := by
  intro pending rest hquiet hended
  -- left operand, operator, right operand, and then the operator goes out
  have hreleased : Releases rest (.operator op) := hended (.operator op) hop
  calc arrange pending ((ls ++ .operator op :: rs).map (Token.bind declared) ++ rest)
      = arrange pending (ls.map (Token.bind declared) ++
          .operator op :: (rs.map (Token.bind declared) ++ rest)) := by simp [Token.bind]
    _ = l.listing declared ++
          arrange pending (.operator op :: (rs.map (Token.bind declared) ++ rest)) :=
        hl _ _ (hquiet.mono hleft) (ended_operator hends _)
    _ = l.listing declared ++
          arrange (.operator op :: pending) (rs.map (Token.bind declared) ++ rest) := by
        rw [arrange_operator_of_quiet hquiet hop]
    _ = l.listing declared ++ (r.listing declared ++ arrange (.operator op :: pending) rest) := by
        rw [hr _ _ (quiet_operator hstays pending) (hended.mono hright)]
    _ = l.listing declared ++ (r.listing declared ++ .operator op :: arrange pending rest) := by
        rw [arrange_cons_of_releases (by simp) pending hreleased]
    _ = (Tree.binary op l r).listing declared ++ arrange pending rest := by
        simp [Tree.listing]

/-- Operators that group from the left take a phrase of their own level on the left. -/
theorem arranges_leftward {declared : List String} {outer inner : Level} {op : Operator}
    {ls rs : List Token} {l r : Tree} (hl : Arranges declared outer ls l)
    (hr : Arranges declared inner rs r) (hlt : outer.floor < inner.floor)
    (hprec : op.precedence = outer.floor) (hleft : op.groupsRight = false) :
    Arranges declared outer (ls ++ .operator op :: rs) (.binary op l r) := by
  refine arranges_binary hl hr (Nat.le_refl _) (Nat.le_of_lt hlt) (Nat.le_of_eq hprec.symm) ?_ ?_
  · intro other hother
    apply givesWay_of_le hleft
    rw [hprec]
    exact hother
  · intro other hother
    apply not_givesWay_of_lt
    rw [hprec]
    exact Nat.lt_of_lt_of_le hlt hother

/-- **A phrase is put in order as its tree is listed.** -/
theorem arranges_of_denotes (declared : List String) {level : Level} {ts : List Token} {t : Tree}
    (h : Denotes level ts t) : Arranges declared level ts t := by
  induction h with
  | constant | number | var => intro pending rest _ _; rfl
  | group _ ih => exact arranges_group ih
  | negate _ ih => exact arranges_unary (Or.inl rfl) rfl ih
  | call _ ih => exact arranges_unary (Or.inr ⟨_, rfl⟩) rfl (arranges_group ih)
  | ofUnit _ ih | ofPower _ ih | ofProduct _ ih => exact arranges_mono ih (Nat.le_succ _)
  | power _ _ ihl ihr =>
      -- `^` does not make a pending `^` give way: its chains group from the right
      refine arranges_binary ihl ihr (Nat.le_succ _) (Nat.le_refl _) (Nat.le_refl _) ?_ ?_
      · intro inner hinner
        exact absurd hinner inner.not_floor_unit_le
      · intro inner hinner
        rw [Operator.eq_power hinner]
        rfl
  | @product op ls rs l r hmul _ _ ihl ihr =>
      have hprec : op.precedence = Level.product.floor := by rcases hmul with rfl | rfl <;> rfl
      have hleft : op.groupsRight = false := by rcases hmul with rfl | rfl <;> rfl
      exact arranges_leftward ihl ihr (Nat.lt_succ_self _) hprec hleft
  | @sum op ls rs l r hadd _ _ ihl ihr =>
      have hprec : op.precedence = Level.sum.floor := by rcases hadd with rfl | rfl <;> rfl
      have hleft : op.groupsRight = false := by rcases hadd with rfl | rfl <;> rfl
      exact arranges_leftward ihl ihr (Nat.lt_succ_self _) hprec hleft

theorem ofInfix_eq_listing (declared : List String) {ts : List Token} {t : Tree}
    (h : Denotes .sum ts t) : ofInfix (ts.map (Token.bind declared)) = t.listing declared := by
  have harranged := arranges_of_denotes declared h [] [] (quiet_nil _) (ended_nil _)
  rw [List.append_nil] at harranged
  exact harranged.trans (List.append_nil _)

end Program

/-! ## One tree, one listing -/

/-- **A sequence denotes one tree at most**: putting it in order would list them both. -/
theorem denotes_unique {ts : List Token} {t u : Tree} (ht : Denotes .sum ts t)
    (hu : Denotes .sum ts u) : t = u := by
  have hlistings : t.listing [] = u.listing [] := by
    rw [← Program.ofInfix_eq_listing [] ht, ← Program.ofInfix_eq_listing [] hu]
  exact Tree.listing_injective hlistings

/-- **A phrase resolves to the listing of the one tree it denotes.** -/
theorem exists_tree_of_phrase {declared : List String} {n : Nat} {ts : List Token}
    (h : Phrase .expression n ts) (hreads : ∀ name ∈ readNames ts, name ∈ declared) :
    ∃ t, (∀ x, Denotes .sum ts x ↔ x = t) ∧
      Program.resolve declared ts = .ok (t.listing declared) := by
  obtain ⟨t, ht⟩ := exists_denotes_of_phrase h
  refine ⟨t, fun x => ⟨fun hx => denotes_unique hx ht, fun hx => hx ▸ ht⟩, ?_⟩
  rw [Program.resolve_eq_ok_iff]
  exact ⟨hreads, (Program.ofInfix_eq_listing declared ht).symm⟩

theorem exists_listing_of_resolve {declared : List String} {n : Nat} {ts : List Token}
    {program : Program} (h : Phrase .expression n ts)
    (hresolve : Program.resolve declared ts = .ok program) :
    ∃ t, Denotes .sum ts t ∧ program = t.listing declared := by
  obtain ⟨t, ht, hlisting⟩ := exists_tree_of_phrase h (Program.resolve_eq_ok_iff.mp hresolve).1
  rw [hresolve] at hlisting
  exact ⟨t, (ht t).mpr rfl, Except.ok.inj hlisting⟩

/--
**Resolving is exact on trees.** Two phrases over declared names resolve to the listings of their
trees, and to one program just when they denote one tree.
-/
theorem resolve_eq_listing {declared : List String} {m n : Nat} {ts us : List Token}
    (hts : Phrase .expression m ts) (hus : Phrase .expression n us)
    (htsReads : ∀ name ∈ readNames ts, name ∈ declared)
    (husReads : ∀ name ∈ readNames us, name ∈ declared) :
    ∃ t u, (∀ x, Denotes .sum ts x ↔ x = t) ∧ (∀ x, Denotes .sum us x ↔ x = u) ∧
      Program.resolve declared ts = .ok (t.listing declared) ∧
      Program.resolve declared us = .ok (u.listing declared) ∧
      (Program.resolve declared ts = Program.resolve declared us ↔ t = u) := by
  obtain ⟨t, ht, htResolve⟩ := exists_tree_of_phrase hts htsReads
  obtain ⟨u, hu, huResolve⟩ := exists_tree_of_phrase hus husReads
  refine ⟨t, u, ht, hu, htResolve, huResolve, ?_⟩
  rw [htResolve, huResolve, Except.ok.injEq]
  exact ⟨Tree.listing_injective, fun h => congrArg _ h⟩

/-- `-x ^ y` and `(-x) ^ y`. -/
theorem resolve_negated_power :
    ∃ t u,
      (∀ x, Denotes .sum [.negate, .var "x" none, .operator .power, .var "y" none] x ↔ x = t) ∧
      (∀ x, Denotes .sum [.leftParen, .negate, .var "x" none, .rightParen, .operator .power,
        .var "y" none] x ↔ x = u) ∧
      Program.resolve ["x", "y"] [.negate, .var "x" none, .operator .power, .var "y" none] =
        .ok (t.listing ["x", "y"]) ∧
      Program.resolve ["x", "y"] [.leftParen, .negate, .var "x" none, .rightParen,
        .operator .power, .var "y" none] = .ok (u.listing ["x", "y"]) ∧
      (Program.resolve ["x", "y"] [.negate, .var "x" none, .operator .power, .var "y" none] =
        Program.resolve ["x", "y"] [.leftParen, .negate, .var "x" none, .rightParen,
          .operator .power, .var "y" none] ↔ t = u) := by
  have hneg : Phrase .unit 2 [.negate, .var "x" none] := .negation (.operand rfl)
  have hgroup : Phrase .unit 3 [.leftParen, .negate, .var "x" none, .rightParen] :=
    .group (.single hneg)
  have hts : Phrase .expression 2 [.negate, .var "x" none, .operator .power, .var "y" none] :=
    .chain .power hneg (.single (.operand rfl))
  have hus : Phrase .expression 3 [.leftParen, .negate, .var "x" none, .rightParen,
      .operator .power, .var "y" none] := .chain .power hgroup (.single (.operand rfl))
  exact resolve_eq_listing hts hus (by simp [Token.varName?]) (by simp [Token.varName?])

end Formula
