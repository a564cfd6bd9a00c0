import Formula.Proofs.Placing
import Formula.Proofs.Valuation

/-!
# Putting in order loses and invents nothing

A sequence need not be a formula to be put in order: parentheses may have no partner, and operators
may stand side by side. Even then every token but the parentheses goes out once. It follows from
the ways in which a token can be placed (`Places`):

* only operators, minus signs, functions and left parentheses ever wait, so a right parenthesis
  never goes out, and no operand overtakes another;
* a left parenthesis goes out at the very end or not at all, so those that do are the ones that
  nothing closes;
* what goes out and what is pending then are together what was pending and the token taken, but for
  a pair of parentheses that has come together.

Each is a lemma about one token, and then one about a sequence behind any pending tokens.
-/

namespace Formula

namespace Token

/-- Whether the token is a parenthesis. -/
def isParen : Token → Bool
  | .leftParen | .rightParen => true
  | _ => false

theorem isParen_slotless (token : Token) : token.slotless.isParen = token.isParen := by
  cases token <;> rfl

theorem isOperand_slotless (token : Token) : token.slotless.isOperand = token.isOperand := by
  cases token <;> rfl

theorem slotless_bind (declared : List String) (token : Token) :
    (token.bind declared).slotless = token.slotless := by
  cases token <;> rfl

end Token

/-- The tokens of a sequence that are no parentheses. -/
def withoutParens (tokens : List Token) : List Token := tokens.filter (!·.isParen)

theorem withoutParens_append (ts us : List Token) :
    withoutParens (ts ++ us) = withoutParens ts ++ withoutParens us := List.filter_append ..

/-- The operands of a sequence, in order. -/
def operands (tokens : List Token) : List Token := tokens.filter Token.isOperand

theorem operands_append (ts us : List Token) :
    operands (ts ++ us) = operands ts ++ operands us := List.filter_append ..

/-! ## Brackets -/

/-- How many parentheses are open behind a token. A right one closes the last that is open, and
nothing if none is. -/
def openBehind (opened : Nat) : Token → Nat
  | .leftParen => opened + 1
  | .rightParen => opened - 1
  | _ => opened

/-- How many left parentheses of a sequence nothing closes. -/
def unclosed (tokens : List Token) : Nat := tokens.foldl openBehind 0

/-- Every parenthesis has its partner. -/
inductive Balanced : List Token → Prop where
  | nil : Balanced []
  | token {t : Token} {ts : List Token} :
      t.isParen = false → Balanced ts → Balanced (t :: ts)
  | group {inner ts : List Token} :
      Balanced inner → Balanced ts → Balanced (.leftParen :: inner ++ .rightParen :: ts)

theorem openBehind_of_not_isParen {token : Token} (h : token.isParen = false) (opened : Nat) :
    openBehind opened token = opened := by
  cases token with
  | leftParen | rightParen => exact absurd h (by simp [Token.isParen])
  | negate | function | operator | var | constant | number => rfl

/-- What is balanced leaves as many open as there were. -/
theorem foldl_openBehind_of_balanced {ts : List Token} (h : Balanced ts) :
    ∀ opened, ts.foldl openBehind opened = opened := by
  induction h with
  | nil => intro opened; rfl
  | token ht _ ih =>
      intro opened
      rw [List.foldl_cons, openBehind_of_not_isParen ht, ih]
  | group _ _ ihInner ih =>
      intro opened
      rw [List.foldl_append, List.foldl_cons, List.foldl_cons, ihInner, ih]
      rfl

namespace Program

/-! ## One token -/

theorem operands_of_waiting {ts : List Token} (h : Waiting ts) : operands ts = [] :=
  List.filter_eq_nil_iff.mpr fun t ht => by simp [Token.not_isOperand_of_waits (h t ht)]

variable {pending left : Stack Token} {token : Token} {out : List Token}

/-- What goes out was pending, or is an operand. -/
theorem mem_or_isOperand_of_places (h : Places pending token out left) :
    ∀ t ∈ out, t ∈ pending ∨ t.isOperand = true := by
  intro t ht
  cases h with
  | operand hoperand =>
      rw [List.mem_singleton.mp ht]
      exact Or.inr hoperand
  | wait => exact absurd ht (by simp)
  | operator hsplit | close hsplit =>
      rw [hsplit]
      exact Or.inl (List.mem_append_left _ ht)
  | drain => exact Or.inl ht

theorem ne_leftParen_of_givesWay {op : Operator} {token : Token} (h : givesWay op token = true) :
    token ≠ .leftParen := by
  intro heq
  rw [heq] at h
  exact absurd h (by simp [givesWay])

/-- No left parenthesis goes out before the end. -/
theorem leftParen_not_mem_of_places (h : Places pending token out left) : .leftParen ∉ out := by
  cases h with
  | operand hoperand =>
      intro hmem
      rw [← List.mem_singleton.mp hmem] at hoperand
      exact absurd hoperand (by simp [Token.isOperand])
  | wait => simp
  | operator _ hgives _ => exact fun hmem => ne_leftParen_of_givesWay (hgives _ hmem) rfl
  | close _ hout => exact hout
  | drain hout => exact hout

/-- The left parentheses pending are those that are open. -/
theorem count_leftParen_of_places (h : Places pending token out left) :
    left.count .leftParen = openBehind (pending.count .leftParen) token := by
  have hout : out.count .leftParen = 0 := List.count_eq_zero.mpr (leftParen_not_mem_of_places h)
  cases h with
  | operand hoperand =>
      cases token with
      | var | constant | number => rfl
      | negate | function | leftParen | rightParen | operator =>
          exact absurd hoperand (by simp [Token.isOperand])
  | wait hwaits hop =>
      cases token with
      | negate | function => exact List.count_cons_of_ne (by simp)
      | leftParen => exact List.count_cons_self
      | operator op => exact absurd rfl (hop op)
      | rightParen | var | constant | number => exact absurd hwaits (by simp [Token.waits])
  | operator hsplit =>
      rw [hsplit, List.count_append, hout, Nat.zero_add, List.count_cons_of_ne (by simp)]
      rfl
  | close hsplit =>
      rw [hsplit, List.count_append, hout, Nat.zero_add, List.count_cons_self]
      rfl
  | drain =>
      rw [hout]
      rfl

/-- Nothing but parentheses is lost, and nothing is made up. -/
theorem perm_of_places (h : Places pending token out left) :
    (withoutParens (out ++ left)).Perm (withoutParens (pending ++ [token])) := by
  cases h with
  | operand => exact List.perm_append_comm.filter _
  | wait => exact (List.perm_append_singleton _ _).symm.filter _
  | operator hsplit =>
      rw [hsplit, List.append_assoc]
      exact ((List.perm_append_singleton _ _).symm.append_left out).filter _
  | close hsplit =>
      rw [hsplit]
      simp [withoutParens, Token.isParen]
  | drain => simp [withoutParens, Token.isParen]

/-- An operand goes out as it comes, and at no other time. -/
theorem operands_of_places (h : Places pending token out left) (hpending : Waiting pending) :
    operands out = operands [token] := by
  cases h with
  | operand => rfl
  | wait hwaits => exact (operands_of_waiting (List.forall_mem_singleton.mpr hwaits)).symm
  | operator hsplit | close hsplit =>
      rw [hsplit] at hpending
      exact operands_of_waiting (List.forall_mem_append.mp hpending).1
  | drain => exact operands_of_waiting hpending

/-! ## A sequence -/

/-- **No right parenthesis goes out**, for none ever waits. -/
theorem rightParen_not_mem_arrange (ts : List Token) :
    ∀ pending : Stack Token, Waiting pending → .rightParen ∉ arrange pending ts := by
  induction ts with
  | nil => intro pending hpending; exact rightParen_not_mem_of_waiting hpending
  | cons token ts ih =>
      intro pending hpending hmem
      have hplaces := places_place pending token
      rcases List.mem_append.mp hmem with hout | hrest
      · rcases mem_or_isOperand_of_places hplaces _ hout with hwaited | hoperand
        · exact rightParen_not_mem_of_waiting hpending hwaited
        · exact absurd hoperand (by simp [Token.isOperand])
      · exact ih _ (waiting_of_places hplaces hpending) hrest

/-- **The left parentheses that go out are those that nothing closes.** -/
theorem count_leftParen_arrange (ts : List Token) :
    ∀ pending : Stack Token,
      (arrange pending ts).count .leftParen =
        ts.foldl openBehind (pending.count .leftParen) := by
  induction ts with
  | nil => intro pending; rfl
  | cons token ts ih =>
      intro pending
      have hplaces := places_place pending token
      have hout := List.count_eq_zero.mpr (leftParen_not_mem_of_places hplaces)
      rw [arrange_cons, List.count_append, hout, Nat.zero_add, ih,
        count_leftParen_of_places hplaces, List.foldl_cons]

/-- **The other tokens that go out are those of the sequence**, in some order. -/
theorem perm_arrange (ts : List Token) :
    ∀ pending : Stack Token,
      (withoutParens (arrange pending ts)).Perm (withoutParens (pending ++ ts)) := by
  induction ts with
  | nil =>
      intro pending
      rw [List.append_nil]
      exact .refl _
  | cons token ts ih =>
      intro pending
      have hplaced := perm_of_places (places_place pending token)
      rw [withoutParens_append] at hplaced
      rw [arrange_cons, withoutParens_append]
      calc withoutParens (place pending token).1 ++
            withoutParens (arrange (place pending token).2 ts)
        List.Perm _ (withoutParens (place pending token).1 ++
            withoutParens ((place pending token).2 ++ ts)) := (ih _).append_left _
        _ = withoutParens (place pending token).1 ++ withoutParens (place pending token).2 ++
            withoutParens ts := by rw [withoutParens_append, List.append_assoc]
        List.Perm _ (withoutParens (pending ++ [token]) ++ withoutParens ts) :=
          hplaced.append_right _
        _ = withoutParens (pending ++ token :: ts) := by
          rw [← withoutParens_append, List.append_assoc, List.singleton_append]

/-- **Operands keep their order.** -/
theorem operands_arrange (ts : List Token) :
    ∀ pending : Stack Token, Waiting pending → operands (arrange pending ts) = operands ts := by
  induction ts with
  | nil => intro pending hpending; exact operands_of_waiting hpending
  | cons token ts ih =>
      intro pending hpending
      have hplaces := places_place pending token
      rw [arrange_cons, operands_append, operands_of_places hplaces hpending,
        ih _ (waiting_of_places hplaces hpending), ← operands_append, List.singleton_append]

end Program

/-! ## What a sequence resolves to -/

theorem map_slotless_bind (declared : List String) (ts : List Token) :
    (ts.map (Token.bind declared)).map Token.slotless = ts.map Token.slotless := by
  rw [List.map_map]
  exact List.map_congr_left fun token _ => token.slotless_bind declared

theorem map_slotless_operands (ts : List Token) :
    (operands ts).map Token.slotless = operands (ts.map Token.slotless) := by
  rw [operands, operands, List.filter_map]
  exact congrArg _ (List.filter_congr fun token _ => token.isOperand_slotless.symm)

theorem map_slotless_withoutParens (ts : List Token) :
    (withoutParens ts).map Token.slotless = withoutParens (ts.map Token.slotless) := by
  rw [withoutParens, withoutParens, List.filter_map]
  exact congrArg _ (List.filter_congr fun token _ => by simp [token.isParen_slotless])

theorem openBehind_bind (declared : List String) (opened : Nat) (token : Token) :
    openBehind opened (token.bind declared) = openBehind opened token := by
  cases token <;> rfl

theorem unclosed_bind (declared : List String) (ts : List Token) :
    unclosed (ts.map (Token.bind declared)) = unclosed ts := by
  simp only [unclosed, List.foldl_map, openBehind_bind]

theorem length_withoutParens (ts : List Token) :
    (withoutParens ts).length = ts.length - ts.countP Token.isParen := by
  have hall := List.length_eq_countP_add_countP Token.isParen (l := ts)
  have hothers : ts.countP (fun t => decide ¬t.isParen = true) = (withoutParens ts).length := by
    rw [List.countP_eq_length_filter, withoutParens]
    exact congrArg List.length (List.filter_congr fun t _ => by simp)
  omega

/-- Without parentheses there are none to leave out. -/
theorem withoutParens_eq_self {ts : List Token} (hleft : .leftParen ∉ ts)
    (hright : .rightParen ∉ ts) : withoutParens ts = ts := by
  refine List.filter_eq_self.mpr ?_
  intro t ht
  cases t with
  | leftParen => exact absurd ht hleft
  | rightParen => exact absurd ht hright
  | negate | function | operator | var | constant | number => rfl

section Resolved

variable {declared : List String} {tokens : List Token} {program : Program}

theorem count_leftParen_resolved (h : Program.resolve declared tokens = .ok program) :
    program.count .leftParen = unclosed tokens := by
  obtain ⟨_, rfl⟩ := Program.resolve_eq_ok_iff.mp h
  rw [← unclosed_bind declared]
  exact Program.count_leftParen_arrange _ []

theorem rightParen_not_mem_resolved (h : Program.resolve declared tokens = .ok program) :
    .rightParen ∉ program := by
  obtain ⟨_, rfl⟩ := Program.resolve_eq_ok_iff.mp h
  exact Program.rightParen_not_mem_arrange _ [] Program.waiting_nil

theorem perm_resolved (h : Program.resolve declared tokens = .ok program) :
    ((withoutParens program).map Token.slotless).Perm
      ((withoutParens tokens).map Token.slotless) := by
  obtain ⟨_, rfl⟩ := Program.resolve_eq_ok_iff.mp h
  rw [map_slotless_withoutParens tokens, ← map_slotless_bind declared tokens,
    ← map_slotless_withoutParens]
  exact (Program.perm_arrange _ []).map _

/-- The operands of a resolved program are those of its sequence, in the same order. -/
theorem operands_resolved (h : Program.resolve declared tokens = .ok program) :
    (operands program).map Token.slotless = (operands tokens).map Token.slotless := by
  obtain ⟨_, rfl⟩ := Program.resolve_eq_ok_iff.mp h
  rw [map_slotless_operands tokens, ← map_slotless_bind declared tokens, ← map_slotless_operands]
  exact congrArg _ (Program.operands_arrange _ [] Program.waiting_nil)

/--
**Resolving loses nothing and invents nothing**, in any sequence that resolves. No right parenthesis
is left, and of the left ones just those that nothing closes. All other tokens are kept, each as
often as it was, but for the slots of variables; and the operands are kept in their order. So a
balanced sequence gets shorter by its parentheses and no more.
-/
theorem resolve_conserves (h : Program.resolve declared tokens = .ok program) :
    .rightParen ∉ program ∧ program.count .leftParen = unclosed tokens ∧
      ((withoutParens program).map Token.slotless).Perm
        ((withoutParens tokens).map Token.slotless) ∧
      (operands program).map Token.slotless = (operands tokens).map Token.slotless ∧
      (Balanced tokens → program.length = tokens.length - tokens.countP Token.isParen) := by
  refine ⟨rightParen_not_mem_resolved h, count_leftParen_resolved h, perm_resolved h,
    operands_resolved h, ?_⟩
  intro hbalanced
  have hleft : .leftParen ∉ program := by
    rw [← List.count_eq_zero, count_leftParen_resolved h]
    exact foldl_openBehind_of_balanced hbalanced 0
  have hlength := (perm_resolved h).length_eq
  rwa [List.length_map, List.length_map, length_withoutParens tokens,
    withoutParens_eq_self hleft (rightParen_not_mem_resolved h)] at hlength

end Resolved

/-- `) x ^ ( y * - (`, in which no parenthesis has a partner. -/
theorem resolve_conserves_unmatched :
    Program.resolve ["x", "y"] [.rightParen, .var "x" (some 7), .operator .power, .leftParen,
        .var "y" none, .operator .multiply, .negate, .leftParen] =
      .ok [.var "x" (some 0), .var "y" (some 1), .leftParen, .negate, .operator .multiply,
        .leftParen, .operator .power] ∧
    ([.var "x" none, .var "y" none, .negate, .operator .multiply, .operator .power] :
        List Token).Perm
      [.var "x" none, .operator .power, .var "y" none, .operator .multiply, .negate] := by
  have h : Program.resolve ["x", "y"] [.rightParen, .var "x" (some 7), .operator .power,
        .leftParen, .var "y" none, .operator .multiply, .negate, .leftParen] =
      .ok [.var "x" (some 0), .var "y" (some 1), .leftParen, .negate, .operator .multiply,
        .leftParen, .operator .power] := by rfl
  obtain ⟨_, _, hperm, _, _⟩ := resolve_conserves h
  exact ⟨h, hperm⟩

end Formula
