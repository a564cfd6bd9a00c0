import Mathlib.Data.List.TakeWhile
import Formula.Program

/-!
# What happens to a token

When a sequence is put in order, a token does one of few things, and they are told apart by the kind
of the token and by what is pending. `Places` has a constructor for each. Nothing is asked of the
sequence: parentheses may have no partner, and operators may lack their operands.

What one token leaves true is read off the constructors, and what a sequence leaves true follows by
induction over it, for any pending tokens.
-/

namespace Formula

namespace Token

/-- Whether the token may be pending. -/
def waits : Token → Bool
  | .negate | .function _ | .leftParen | .operator _ => true
  | _ => false

theorem not_isOperand_of_waits {token : Token} (h : token.waits = true) :
    token.isOperand = false := by
  cases token with
  | negate | function | leftParen | operator => rfl
  | rightParen | var | constant | number => exact absurd h (by simp [waits])

end Token

namespace Program

/-- What a token does: the tokens that go out, and those that are pending then. -/
inductive Places (pending : Stack Token) : Token → List Token → Stack Token → Prop where
  /-- An operand goes straight out. -/
  | operand {token : Token} : token.isOperand = true → Places pending token [token] pending
  /-- What stands in front of its operand waits. -/
  | wait {token : Token} :
      token.waits = true → (∀ op, token ≠ .operator op) → Places pending token [] (token :: pending)
  /-- An operator waits too, once all that gives way to it has gone out. -/
  | operator {op : Operator} {out rest : List Token} :
      pending = out ++ rest → (∀ t ∈ out, givesWay op t = true) →
      (∀ t, rest.head? = some t → givesWay op t = false) →
      Places pending (.operator op) out (.operator op :: rest)
  /-- A right parenthesis sends out all that waits behind its partner. -/
  | close {out rest : List Token} :
      pending = out ++ .leftParen :: rest → .leftParen ∉ out → Places pending .rightParen out rest
  /-- Without a partner it sends out everything. -/
  | drain : .leftParen ∉ pending → Places pending .rightParen pending []

theorem places_place (pending : Stack Token) (token : Token) :
    Places pending token (place pending token).1 (place pending token).2 := by
  cases token with
  | var | constant | number => exact .operand rfl
  | negate | function | leftParen => exact .wait rfl (by simp)
  | operator op =>
      refine .operator (Stack.popWhile_append _ pending).symm ?_ ?_
      · intro t ht
        exact List.mem_takeWhile_imp ht
      · intro t ht
        have hstops := List.head?_dropWhile_not (givesWay op) pending
        have hhead : (pending.dropWhile (givesWay op)).head? = some t := ht
        rwa [hhead] at hstops
  | rightParen =>
      have hsplit := List.takeWhile_append_dropWhile (p := fun t => !decide (t = Token.leftParen))
        (l := pending)
      have hout : .leftParen ∉ pending.takeWhile fun t => !decide (t = Token.leftParen) := by
        intro hmem
        exact absurd (List.mem_takeWhile_imp hmem) (by simp)
      show Places pending .rightParen (pending.takeWhile _) (pending.dropWhile _).tail
      cases hdrop : pending.dropWhile fun t => !decide (t = Token.leftParen) with
      | nil =>
          rw [hdrop, List.append_nil] at hsplit
          rw [hsplit] at hout ⊢
          exact .drain hout
      | cons t rest =>
          have hstops := List.head?_dropWhile_not (fun t => !decide (t = Token.leftParen)) pending
          rw [hdrop] at hstops hsplit
          obtain rfl : t = .leftParen := by simpa using hstops
          exact .close hsplit.symm hout

theorem arrange_cons (pending : Stack Token) (token : Token) (ts : List Token) :
    arrange pending (token :: ts) =
      (place pending token).1 ++ arrange (place pending token).2 ts := rfl

variable {pending left : Stack Token} {token other : Token} {out : List Token}

/-- What goes out or is pending then was pending, or is the token taken. -/
theorem mem_of_places (h : Places pending token out left) (hmem : other ∈ out ++ left) :
    other = token ∨ other ∈ pending := by
  cases h with
  | operand | wait => exact List.mem_cons.mp hmem
  | operator hsplit =>
      rw [hsplit, List.mem_append]
      rcases List.mem_append.mp hmem with hout | hleft
      · exact Or.inr (Or.inl hout)
      · exact (List.mem_cons.mp hleft).imp_right Or.inr
  | close hsplit =>
      rw [hsplit, List.mem_append]
      exact Or.inr ((List.mem_append.mp hmem).imp_right (List.mem_cons_of_mem _))
  | drain =>
      rw [List.append_nil] at hmem
      exact Or.inr hmem

/-- Nothing is in a program that was not in its sequence. -/
theorem mem_of_mem_arrange {ts : List Token} :
    ∀ {pending : Stack Token}, other ∈ arrange pending ts → other ∈ pending ∨ other ∈ ts := by
  induction ts with
  | nil =>
      intro pending h
      exact Or.inl h
  | cons token ts ih =>
      intro pending h
      have hplaced : ∀ t ∈ (place pending token).1 ++ (place pending token).2,
          t ∈ pending ∨ t ∈ token :: ts := by
        intro t ht
        rcases mem_of_places (places_place _ _) ht with rfl | hpending
        · exact Or.inr List.mem_cons_self
        · exact Or.inl hpending
      rcases List.mem_append.mp h with hout | hrest
      · exact hplaced _ (List.mem_append_left _ hout)
      · rcases ih hrest with hleft | hts
        · exact hplaced _ (List.mem_append_right _ hleft)
        · exact Or.inr (List.mem_cons_of_mem _ hts)

/-- Nothing is pending but what waits for an operand or a parenthesis. -/
def Waiting (pending : Stack Token) : Prop := ∀ t ∈ pending, t.waits = true

theorem waiting_nil : Waiting [] := by simp [Waiting]

theorem rightParen_not_mem_of_waiting {ts : List Token} (h : Waiting ts) : .rightParen ∉ ts :=
  fun hmem => absurd (h _ hmem) (by simp [Token.waits])

theorem waiting_of_places (h : Places pending token out left) (hpending : Waiting pending) :
    Waiting left := by
  cases h with
  | operand => exact hpending
  | wait hwaits => exact List.forall_mem_cons.mpr ⟨hwaits, hpending⟩
  | operator hsplit =>
      rw [hsplit] at hpending
      exact List.forall_mem_cons.mpr ⟨rfl, (List.forall_mem_append.mp hpending).2⟩
  | close hsplit =>
      rw [hsplit] at hpending
      exact (List.forall_mem_cons.mp (List.forall_mem_append.mp hpending).2).2
  | drain => exact waiting_nil

end Program

end Formula
