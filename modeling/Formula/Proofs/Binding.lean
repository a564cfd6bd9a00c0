import Formula.Program

/-!
# Names among the declared ones

A slot is the last position of a name, and a sequence resolves just when every name it reads is
declared. Of the sorted list of unbound names only the members matter here, not their order.
-/

namespace Formula

/-- The name stands at the position, and nowhere behind it. -/
def LastAt (declared : List String) (name : String) (i : Nat) : Prop :=
  declared[i]? = some name ∧ ∀ j, i < j → declared[j]? ≠ some name

theorem lastAt_succ_iff {first name : String} {others : List String} {i : Nat} :
    LastAt (first :: others) name (i + 1) ↔ LastAt others name i := by
  refine ⟨?_, ?_⟩
  · intro h
    obtain ⟨hi, hlast⟩ := h
    exact ⟨hi, fun j hj => hlast (j + 1) (Nat.succ_lt_succ hj)⟩
  · intro h
    obtain ⟨hi, hlast⟩ := h
    refine ⟨hi, ?_⟩
    intro j hj
    cases j with
    | zero => exact absurd hj (by simp)
    | succ m => exact hlast m (Nat.lt_of_succ_lt_succ hj)

theorem lastAt_zero_iff {first name : String} {others : List String} :
    LastAt (first :: others) name 0 ↔ first = name ∧ name ∉ others := by
  refine ⟨?_, ?_⟩
  · intro h
    obtain ⟨hfirst, hlast⟩ := h
    refine ⟨Option.some.inj hfirst, ?_⟩
    intro hmem
    obtain ⟨m, hm⟩ := List.mem_iff_getElem?.mp hmem
    exact hlast (m + 1) (Nat.succ_pos m) hm
  · intro h
    obtain ⟨rfl, hnot⟩ := h
    refine ⟨rfl, ?_⟩
    intro j hj hmem
    cases j with
    | zero => exact absurd hj (by simp)
    | succ m => exact hnot (List.mem_of_getElem? hmem)

/-- **A slot is the last position of its name.** -/
theorem slotOf?_eq_some_iff {name : String} {declared : List String} {i : Nat} :
    slotOf? name declared = some i ↔ LastAt declared name i := by
  induction declared generalizing i with
  | nil => simp [slotOf?, LastAt]
  | cons first others ih =>
      rw [slotOf?]
      cases i with
      | zero =>
          rw [lastAt_zero_iff, ← slotOf?_eq_none_iff]
          cases slotOf? name others <;> simp
      | succ m =>
          rw [lastAt_succ_iff, ← ih]
          cases slotOf? name others <;> simp

theorem LastAt.lt_length {declared : List String} {name : String} {i : Nat}
    (h : LastAt declared name i) : i < declared.length := (List.getElem?_eq_some_iff.mp h.1).1

theorem exists_slotOf? {name : String} {declared : List String} (h : name ∈ declared) :
    ∃ i, slotOf? name declared = some i := by
  cases hslot : slotOf? name declared with
  | some i => exact ⟨i, rfl⟩
  | none => exact absurd h (slotOf?_eq_none_iff.mp hslot)

/-! ## Names read -/

@[simp] theorem readNames_nil : readNames [] = [] := rfl

@[simp] theorem readNames_cons (t : Token) (ts : List Token) :
    readNames (t :: ts) = t.varName?.toList ++ readNames ts := by
  rw [readNames, readNames, List.filterMap_cons]
  cases t.varName? <;> rfl

@[simp] theorem readNames_append (ts us : List Token) :
    readNames (ts ++ us) = readNames ts ++ readNames us := List.filterMap_append ..

theorem exists_var_of_varName? {token : Token} {name : String} (h : token.varName? = some name) :
    ∃ slot, token = .var name slot := by
  cases token with
  | var other slot =>
      cases h
      exact ⟨slot, rfl⟩
  | constant | leftParen | rightParen | function | operator | negate | number =>
      exact absurd h (by simp [Token.varName?])

theorem mem_readNames {name : String} {tokens : List Token} :
    name ∈ readNames tokens ↔ ∃ slot, .var name slot ∈ tokens := by
  rw [readNames, List.mem_filterMap]
  refine ⟨?_, ?_⟩
  · intro h
    obtain ⟨token, htoken, hname⟩ := h
    obtain ⟨slot, rfl⟩ := exists_var_of_varName? hname
    exact ⟨slot, htoken⟩
  · intro h
    obtain ⟨slot, hvar⟩ := h
    exact ⟨_, hvar, rfl⟩

/-- The slot that a variable has been given. -/
def Token.slot? : Token → Option Nat
  | .var _ slot => slot
  | _ => none

/-- The slots that a program reads, in the order in which it reads them. -/
def Program.slots (program : Program) : List Nat := program.filterMap Token.slot?

namespace Program

@[simp] theorem slots_nil : slots [] = [] := rfl

@[simp] theorem slots_cons (token : Token) (program : Program) :
    slots (token :: program) = token.slot?.toList ++ program.slots := by
  rw [slots, slots, List.filterMap_cons]
  cases token.slot? <;> rfl

@[simp] theorem slots_append (first second : Program) :
    slots (first ++ second) = first.slots ++ second.slots := List.filterMap_append ..

end Program

/-- What a token of a program may be: no parenthesis, and a variable only with its last position. -/
def Token.Runnable (declared : List String) : Token → Prop
  | .leftParen | .rightParen => False
  | .var name slot => ∃ i, slot = some i ∧ LastAt declared name i
  | _ => True

/-! ## Unbound names -/

theorem mem_insertName {name other : String} {names : List String} :
    other ∈ insertName name names ↔ other = name ∨ other ∈ names := by
  induction names with
  | nil => simp [insertName]
  | cons first others ih =>
      unfold insertName
      split
      · exact List.mem_cons
      · split
        · rename_i heq
          simp [heq]
        · rw [List.mem_cons, List.mem_cons, ih]
          exact or_left_comm

theorem mem_sortedNames {name : String} {names : List String} :
    name ∈ sortedNames names ↔ name ∈ names := by
  induction names with
  | nil => simp [sortedNames]
  | cons first others ih =>
      have hinsert : sortedNames (first :: others) = insertName first (sortedNames others) := rfl
      rw [hinsert, mem_insertName, ih, List.mem_cons]

theorem mem_unboundNames {name : String} {declared : List String} {tokens : List Token} :
    name ∈ unboundNames declared tokens ↔ name ∈ readNames tokens ∧ name ∉ declared := by
  rw [unboundNames, mem_sortedNames, List.mem_filter, Option.isNone_iff_eq_none,
    slotOf?_eq_none_iff]

theorem unboundNames_eq_nil_iff {declared : List String} {tokens : List Token} :
    unboundNames declared tokens = [] ↔ ∀ name ∈ readNames tokens, name ∈ declared := by
  rw [List.eq_nil_iff_forall_not_mem]
  simp only [mem_unboundNames, not_and, Decidable.not_not]

/-- **A sequence resolves just when all it reads is declared.** -/
theorem Program.resolve_eq_ok_iff {declared : List String} {tokens : List Token}
    {program : Program} :
    resolve declared tokens = .ok program ↔
      (∀ name ∈ readNames tokens, name ∈ declared) ∧
        program = ofInfix (tokens.map (Token.bind declared)) := by
  rw [← unboundNames_eq_nil_iff, resolve]
  refine ⟨?_, ?_⟩
  · intro h
    split at h
    · rename_i hnone
      cases h
      exact ⟨hnone, rfl⟩
    · exact absurd h (by simp)
  · intro h
    obtain ⟨hnone, rfl⟩ := h
    rw [hnone]

/-- **Otherwise it gives the names that are not.** -/
theorem Program.resolve_eq_error_iff {declared : List String} {tokens : List Token}
    {names : List String} :
    resolve declared tokens = .error names ↔
      unboundNames declared tokens = names ∧ names ≠ [] := by
  rw [resolve]
  cases hunbound : unboundNames declared tokens with
  | nil =>
      refine ⟨fun h => absurd h (by simp), ?_⟩
      intro h
      exact absurd h.1.symm h.2
  | cons name others =>
      refine ⟨?_, ?_⟩
      · intro h
        cases h
        exact ⟨rfl, by simp⟩
      · intro h
        obtain ⟨rfl, _⟩ := h
        rfl

end Formula
