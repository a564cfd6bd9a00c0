import Mathlib.Data.List.Chain
import Formula.Proofs.Denotation
import Formula.Proofs.Placing

/-!
# The order of what is pending

An operator that comes is compared with pending tokens from the top down, and the first that does
not give way ends the search. That this is the right place to end is a matter of how the pending
tokens lie on one another (`Rests`): an operator only on a parenthesis, or on an operator that binds
less tightly, or `^` on `^`. So below an operator all give way that it gives way to, down to the
next parenthesis, and no sign and no function is buried under an operator that would have to wait
for it.

It is an invariant of any sequence, with operators side by side and parentheses that have no
partner. One token keeps it (`ordered_of_places`), for a token is put where the search has ended and
what is taken off is taken off the top; a sequence keeps it by induction (`ordered_pendingFrom`).
-/

namespace Formula

namespace Program

/-- What is pending behind a sequence, when `pending` is pending in front of it. -/
def pendingFrom (pending : Stack Token) (tokens : List Token) : Stack Token :=
  tokens.foldl (fun pending token => (place pending token).2) pending

/-- What is pending behind a sequence. -/
def pendingAfter (tokens : List Token) : Stack Token := pendingFrom [] tokens

/-- **A sequence is put in order in two parts**, the second behind what the first leaves pending. -/
theorem exists_arrange_append (ts : List Token) :
    ∀ pending, ∃ out, ∀ us, arrange pending (ts ++ us) =
      out ++ arrange (pendingFrom pending ts) us := by
  induction ts with
  | nil =>
      intro pending
      exact ⟨[], fun _ => rfl⟩
  | cons token ts ih =>
      intro pending
      obtain ⟨out, hout⟩ := ih (place pending token).2
      refine ⟨(place pending token).1 ++ out, ?_⟩
      intro us
      rw [List.cons_append, arrange_cons, hout, List.append_assoc]
      rfl

/-! ## What lies on what -/

/-- The upper token may lie directly on the lower one. Only operators are particular. -/
def Rests (upper lower : Token) : Prop :=
  ∀ op, upper = .operator op →
    lower = .leftParen ∨ ∃ other, lower = .operator other ∧
      (other.precedence < op.precedence ∨ other = .power ∧ op = .power)

/-- The pending tokens are such as wait, and each operator lies where it may. -/
structure Ordered (pending : Stack Token) : Prop where
  waiting : Waiting pending
  rests : pending.IsChain Rests

theorem rests_of_not_operator {upper : Token} (h : ∀ op, upper ≠ .operator op) (lower : Token) :
    Rests upper lower :=
  fun op hop => absurd hop (h op)

/-- **An operator may lie on what does not give way to it.** -/
theorem rests_of_stays {op : Operator} {token : Token} (hwaits : token.waits = true)
    (hstays : givesWay op token = false) : Rests (.operator op) token := by
  intro op' hop
  obtain rfl := Token.operator.inj hop
  cases token with
  | leftParen => exact Or.inl rfl
  | operator other =>
      refine Or.inr ⟨other, rfl, ?_⟩
      simp only [givesWay, Bool.or_eq_false_iff, Bool.and_eq_false_iff, Bool.not_eq_false',
        decide_eq_false_iff_not, beq_eq_false_iff_ne] at hstays
      obtain ⟨hle, hequal⟩ := hstays
      rcases Nat.lt_or_eq_of_le (Nat.not_lt.mp hle) with hlt | heq
      · exact Or.inl hlt
      · -- of equal precedence, only an operator that groups from the right leaves the other
        have hright : op.groupsRight = true := hequal.resolve_left (absurd heq)
        obtain rfl : op = .power := by
          cases op with
          | power => rfl
          | add | subtract | multiply | divide => exact absurd hright (by decide)
        exact Or.inr ⟨Operator.eq_power (Nat.le_of_eq heq.symm), rfl⟩
  | negate | function => exact absurd hstays (by simp [givesWay])
  | rightParen | var | constant | number => exact absurd hwaits (by simp [Token.waits])

theorem ordered_nil : Ordered [] := ⟨waiting_nil, .nil⟩

/-- **One token keeps the order.** -/
theorem ordered_of_places {pending left : Stack Token} {token : Token} {out : List Token}
    (h : Places pending token out left) (hpending : Ordered pending) : Ordered left := by
  refine ⟨waiting_of_places h hpending.waiting, ?_⟩
  have hrests := hpending.rests
  cases h with
  | operand => exact hrests
  | wait _ hop => exact List.isChain_cons.mpr ⟨fun _ _ => rests_of_not_operator hop _, hrests⟩
  | @operator op out rest hsplit _ hstays =>
      have hwaiting := hpending.waiting
      rw [hsplit] at hrests hwaiting
      refine List.isChain_cons.mpr ⟨?_, hrests.right_of_append⟩
      intro lower hlower
      have hmem : lower ∈ out ++ rest := List.mem_append_right _ (List.mem_of_mem_head? hlower)
      exact rests_of_stays (hwaiting lower hmem) (hstays lower hlower)
  | close hsplit =>
      rw [hsplit] at hrests
      exact (List.isChain_cons.mp hrests.right_of_append).2
  | drain => exact .nil

/-- A sequence keeps it. -/
theorem ordered_pendingFrom (ts : List Token) :
    ∀ {pending : Stack Token}, Ordered pending → Ordered (pendingFrom pending ts) := by
  induction ts with
  | nil => exact id
  | cons token ts ih =>
      intro pending hpending
      exact ih (ordered_of_places (places_place pending token) hpending)

/-! ## Operators between two parentheses -/

/-- Below an operator, down to the next parenthesis, there are only operators that bind no
tighter. -/
theorem precedence_le_of_chain {between : List Token} :
    ∀ {upper : Operator}, (.operator upper :: between).IsChain Rests → .leftParen ∉ between →
      ∀ token ∈ between, ∃ lower, token = .operator lower ∧
        lower.precedence ≤ upper.precedence := by
  induction between with
  | nil =>
      intro upper _ _ token htoken
      exact absurd htoken (by simp)
  | cons next between ih =>
      intro upper hchain hparen
      obtain ⟨hnext, hchain⟩ := List.isChain_cons_cons.mp hchain
      have hne : next ≠ .leftParen := fun heq => hparen (heq ▸ List.mem_cons_self)
      have hbetween : .leftParen ∉ between := fun hmem => hparen (List.mem_cons_of_mem _ hmem)
      obtain ⟨other, rfl, hprec⟩ := (hnext upper rfl).resolve_left hne
      have hle : other.precedence ≤ upper.precedence := by
        rcases hprec with hlt | ⟨rfl, rfl⟩
        · exact Nat.le_of_lt hlt
        · exact Nat.le_refl _
      intro token htoken
      rcases List.mem_cons.mp htoken with rfl | htoken
      · exact ⟨other, rfl, hle⟩
      · obtain ⟨lower, hlower, hprec⟩ := ih hchain hbetween token htoken
        exact ⟨lower, hlower, Nat.le_trans hprec hle⟩

/--
**What is pending lies in order**, behind each token of any sequence. Directly below an operator
there is nothing, or a parenthesis, or an operator that binds less tightly, or both are `^`. No
operand and no right parenthesis is pending. And where no parenthesis lies between two operators,
the upper binds at least as tightly as the lower.
-/
theorem pending_lies_in_order (before : List Token) :
    (∃ out, ∀ after, ofInfix (before ++ after) = out ++ arrange (pendingAfter before) after) ∧
    (∀ above op under below, pendingAfter before = above ++ .operator op :: under :: below →
      under = .leftParen ∨ ∃ other, under = .operator other ∧
        (other.precedence < op.precedence ∨ other = .power ∧ op = .power)) ∧
    (∀ token ∈ pendingAfter before, token.isOperand = false ∧ token ≠ .rightParen) ∧
    ∀ above upper between lower below,
      pendingAfter before = above ++ .operator upper :: between ++ .operator lower :: below →
      .leftParen ∉ between → lower.precedence ≤ upper.precedence := by
  have hordered : Ordered (pendingAfter before) := ordered_pendingFrom before ordered_nil
  refine ⟨exists_arrange_append before [], ?_, ?_, ?_⟩
  · intro above op under below hsplit
    have hrests := hordered.rests
    rw [hsplit] at hrests
    exact (List.isChain_cons_cons.mp hrests.right_of_append).1 op rfl
  · intro token htoken
    refine ⟨Token.not_isOperand_of_waits (hordered.waiting token htoken), ?_⟩
    rintro rfl
    exact rightParen_not_mem_of_waiting hordered.waiting htoken
  · intro above upper between lower below hsplit hparen
    have hrests := hordered.rests
    have hregroup : above ++ .operator upper :: between ++ .operator lower :: below =
        above ++ ((.operator upper :: (between ++ [.operator lower])) ++ below) := by
      simp
    rw [hsplit, hregroup] at hrests
    have hchain := hrests.right_of_append.left_of_append
    have hnone : .leftParen ∉ between ++ [Token.operator lower] := by simp [hparen]
    obtain ⟨other, hother, hle⟩ :=
      precedence_le_of_chain hchain hnone (.operator lower) (by simp)
    rw [Token.operator.inj hother]
    exact hle

/-- Behind `a * ( - b + c ^ d ^ -` the first minus sign is gone, and the last one is on top. -/
example : pendingAfter [.var "a" none, .operator .multiply, .leftParen, .negate, .var "b" none,
    .operator .add, .var "c" none, .operator .power, .var "d" none, .operator .power, .negate] =
      [.negate, .operator .power, .operator .power, .operator .add, .leftParen,
        .operator .multiply] := by
  decide

end Program

end Formula
