import Formula.Tree
import Formula.Proofs.Binding
import Formula.Proofs.Phrase

/-!
# The tree of a formula

Every phrase denotes a tree. The grammar of phrases is flat, a unit and then an operator and more,
while the levels of `Denotes` nest, so what has to be shown is that a unit can be put in front of
any sequence that holds together: `exists_denotes_cons` finds the place for it by the operator
between them.

That a sequence denotes one tree only is not shown here. It falls out of putting sequences in order,
and of `listing_injective`: a listing can be read back, with a stack of trees.
-/

namespace Formula

/-- The least precedence of an operator outside parentheses in a sequence of the level. -/
def Level.floor : Level → Nat
  | .unit => 5
  | .power => 4
  | .product => 3
  | .sum => 2

/-! ## Every phrase has a tree -/

theorem Operator.eq_power {op : Operator} (h : Level.power.floor ≤ op.precedence) :
    op = .power := by
  cases op with
  | power => rfl
  | add | subtract | multiply | divide => exact absurd h (by simp [Level.floor, precedence])

theorem Operator.eq_multiply_or_divide {op : Operator} (h : Level.product.floor ≤ op.precedence)
    (hlt : ¬Level.power.floor ≤ op.precedence) : op = .multiply ∨ op = .divide := by
  cases op with
  | multiply => exact Or.inl rfl
  | divide => exact Or.inr rfl
  | add | subtract => exact absurd h (by simp [Level.floor, precedence])
  | power => exact absurd (Nat.le_refl _) hlt

theorem Operator.eq_add_or_subtract {op : Operator}
    (hlt : ¬Level.product.floor ≤ op.precedence) : op = .add ∨ op = .subtract := by
  cases op with
  | add => exact Or.inl rfl
  | subtract => exact Or.inr rfl
  | multiply | divide | power => exact absurd hlt (by simp [Level.floor, precedence])

theorem Operator.not_floor_unit_le (op : Operator) : ¬Level.unit.floor ≤ op.precedence := by
  cases op <;> decide

theorem Operator.floor_sum_le (op : Operator) : Level.sum.floor ≤ op.precedence := by
  cases op <;> decide

/-- **A unit and an operator go in front of whatever binds no tighter than the operator.** -/
theorem exists_denotes_cons {us : List Token} {u : Tree} (hu : Denotes .unit us u) {op : Operator}
    {level : Level} {ts : List Token} {t : Tree} (h : Denotes level ts t)
    (hop : level.floor ≤ op.precedence) :
    ∃ v, Denotes level (us ++ .operator op :: ts) v := by
  induction h with
  | constant | number | var | group | negate | call => exact absurd hop op.not_floor_unit_le
  | ofUnit h _ =>
      rw [Operator.eq_power hop]
      exact ⟨_, .power hu (.ofUnit h)⟩
  | power hl hr _ _ =>
      rw [Operator.eq_power hop]
      exact ⟨_, .power hu (.power hl hr)⟩
  | ofPower h ih =>
      -- an operator this loose goes in front of the whole power, a tighter one inside it
      by_cases htight : Level.power.floor ≤ op.precedence
      · obtain ⟨v, hv⟩ := ih htight
        exact ⟨v, .ofPower hv⟩
      · have hmul := Operator.eq_multiply_or_divide hop htight
        exact ⟨_, .product hmul (.ofPower (.ofUnit hu)) h⟩
  | product hmul _ hr ihl _ =>
      obtain ⟨v, hv⟩ := ihl hop
      exact ⟨_, by simpa using Denotes.product hmul hv hr⟩
  | ofProduct h ih =>
      by_cases htight : Level.product.floor ≤ op.precedence
      · obtain ⟨v, hv⟩ := ih htight
        exact ⟨v, .ofProduct hv⟩
      · have hadd := Operator.eq_add_or_subtract htight
        exact ⟨_, .sum hadd (.ofProduct (.ofPower (.ofUnit hu))) h⟩
  | sum hadd _ hr ihl _ =>
      obtain ⟨v, hv⟩ := ihl hop
      exact ⟨_, by simpa using Denotes.sum hadd hv hr⟩

/-- The level that each kind of phrase holds together at. -/
def Category.level : Category → Level
  | .unit => .unit
  | .expression => .sum

theorem denotes_sum_of_unit {ts : List Token} {t : Tree} (h : Denotes .unit ts t) :
    Denotes .sum ts t := .ofProduct (.ofPower (.ofUnit h))

/-- **Every phrase denotes a tree.** -/
theorem exists_denotes_of_phrase {category : Category} {n : Nat} {ts : List Token}
    (h : Phrase category n ts) : ∃ t, Denotes category.level ts t := by
  induction h with
  | @operand n t ht =>
      cases t with
      | constant c => exact ⟨_, .constant c⟩
      | number value => exact ⟨_, .number value⟩
      | var name slot => exact ⟨_, .var name slot⟩
      | leftParen | rightParen | function | operator | negate =>
          exact absurd ht (by simp [Token.isOperand])
  | group _ ih =>
      obtain ⟨t, ht⟩ := ih
      exact ⟨t, .group ht⟩
  | negation _ ih =>
      obtain ⟨t, ht⟩ := ih
      exact ⟨_, .negate ht⟩
  | call f _ ih =>
      obtain ⟨t, ht⟩ := ih
      exact ⟨_, .call ht⟩
  | single _ ih =>
      obtain ⟨t, ht⟩ := ih
      exact ⟨t, denotes_sum_of_unit ht⟩
  | chain op _ _ ih₁ ih₂ =>
      obtain ⟨u, hu⟩ := ih₁
      obtain ⟨t, ht⟩ := ih₂
      exact exists_denotes_cons hu ht op.floor_sum_le

/-- A tree reads the names of its sequence, in the order in which they are written. -/
theorem names_eq_readNames {level : Level} {ts : List Token} {t : Tree} (h : Denotes level ts t) :
    t.names = readNames ts := by
  induction h with
  | constant | number | var => rfl
  | group _ ih | negate _ ih | call _ ih => simp [Tree.names, Token.varName?, ih]
  | ofUnit _ ih | ofPower _ ih | ofProduct _ ih => exact ih
  | power _ _ ihl ihr | product _ _ _ ihl ihr | sum _ _ _ ihl ihr =>
      simp [Tree.names, Token.varName?, ihl, ihr]

/-! ## Listings can be read back -/

namespace Tree

/-- Reads a listing back onto a stack of trees. -/
def rebuild : List Tree → Program → List Tree
  | stack, [] => stack
  | stack, .constant c :: program => rebuild (.constant c :: stack) program
  | stack, .number value :: program => rebuild (.number value :: stack) program
  | stack, .var name _ :: program => rebuild (.var name :: stack) program
  | t :: stack, .negate :: program => rebuild (.negate t :: stack) program
  | t :: stack, .function f :: program => rebuild (.call f t :: stack) program
  | r :: l :: stack, .operator op :: program => rebuild (.binary op l r :: stack) program
  | stack, _ :: program => rebuild stack program

theorem rebuild_listing (declared : List String) (t : Tree) :
    ∀ (stack : List Tree) (program : Program),
      rebuild stack (t.listing declared ++ program) = rebuild (t :: stack) program := by
  induction t with
  | constant c | number value | var name => intro stack program; rfl
  | negate t ih | call f t ih =>
      intro stack program
      rw [listing, List.append_assoc, ih]
      rfl
  | binary op l r ihl ihr =>
      intro stack program
      rw [listing, List.append_assoc, List.append_assoc, ihl, ihr]
      rfl

/-- **Two trees with one listing are one tree.** -/
theorem listing_injective {declared : List String} {t u : Tree}
    (h : t.listing declared = u.listing declared) : t = u := by
  have ht := rebuild_listing declared t [] []
  have hu := rebuild_listing declared u [] []
  rw [List.append_nil] at ht hu
  rw [h, hu] at ht
  exact (List.cons.inj ht).1.symm

end Tree

end Formula
