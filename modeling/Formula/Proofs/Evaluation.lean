import Mathlib.Control.Monad.Basic
import Formula.Proofs.Acceptance
import Formula.Proofs.Arrangement
import Formula.Proofs.Compiling

/-!
# Running a program evaluates its tree

A compiled formula's program is the listing of a tree (`exists_tree_of_compile`), so what a run can
do is read off the tree. Run on any stack and in front of any tokens, a listing does one of two
things:

* with a value for every slot, it pushes the value of its tree and nothing else (`runOn_listing`);
* otherwise it stops at the leftmost slot without one (`runOn_listing_missing`).

There is no third way, which is why no other fault than a missing value can ever be seen.
-/

namespace Formula

/-! ## What a listing holds -/

namespace Tree

theorem slots_listing (declared : List String) (t : Tree) :
    (t.listing declared).slots = t.names.filterMap (slotOf? · declared) := by
  induction t with
  | constant | number => rfl
  | var name =>
      rw [listing, names, List.filterMap_cons]
      cases slotOf? name declared <;> rfl
  | negate t ih | call f t ih => simpa [listing, names, Token.slot?] using ih
  | binary op l r ihl ihr => simp [listing, names, Token.slot?, ihl, ihr]

/-- **A listing over declared names can be run.** -/
theorem runnable_of_mem_listing {declared : List String} (t : Tree)
    (hbound : ∀ name ∈ t.names, name ∈ declared) :
    ∀ token ∈ t.listing declared, token.Runnable declared := by
  induction t with
  | constant c | number value =>
      intro token htoken
      rw [List.mem_singleton.mp htoken]
      trivial
  | var name =>
      intro token htoken
      obtain ⟨i, hi⟩ := exists_slotOf? (hbound name (List.mem_singleton.mpr rfl))
      rw [List.mem_singleton.mp htoken]
      exact ⟨i, hi, slotOf?_eq_some_iff.mp hi⟩
  | negate t ih | call f t ih =>
      intro token htoken
      rcases List.mem_append.mp htoken with hinner | hlast
      · exact ih hbound token hinner
      · rw [List.mem_singleton.mp hlast]
        trivial
  | binary op l r ihl ihr =>
      intro token htoken
      obtain ⟨hboundl, hboundr⟩ := List.forall_mem_append.mp hbound
      rcases List.mem_append.mp htoken with hoperand | hlast
      · rcases List.mem_append.mp hoperand with hl | hr
        · exact ihl hboundl token hl
        · exact ihr hboundr token hr
      · rw [List.mem_singleton.mp hlast]
        trivial

end Tree

/-! ## Runs of a listing -/

theorem lt_of_find?_eq_none {slots : List Nat} {supplied : Nat}
    (h : slots.find? (supplied ≤ ·) = none) : ∀ slot ∈ slots, slot < supplied := by
  intro slot hslot
  have hnot := List.find?_eq_none.mp h slot hslot
  simpa using hnot

theorem le_of_find?_eq_some {slots : List Nat} {supplied slot : Nat}
    (h : slots.find? (supplied ≤ ·) = some slot) : supplied ≤ slot := by
  have hfound := List.find?_some h
  simpa using hfound

/-- The environment gives each of the names the value supplied at its slot. -/
def Supplies (declared : List String) (values : List Float) (env : String → Float)
    (names : List String) : Prop :=
  ∀ name ∈ names, ∃ slot, slotOf? name declared = some slot ∧ values[slot]? = some (env name)

/-- Values that reach beyond every slot supply every name. -/
theorem exists_supplies {declared : List String} {values : List Float} {t : Tree}
    (hbound : ∀ name ∈ t.names, name ∈ declared)
    (hlong : ∀ slot ∈ (t.listing declared).slots, slot < values.length) :
    ∃ env, Supplies declared values env t.names := by
  refine ⟨fun name => ((slotOf? name declared).bind (values[·]?)).getD 0, ?_⟩
  intro name hname
  obtain ⟨slot, hslot⟩ := exists_slotOf? (hbound name hname)
  have hlt : slot < values.length := by
    apply hlong slot
    rw [Tree.slots_listing]
    exact List.mem_filterMap.mpr ⟨name, hname, hslot⟩
  refine ⟨slot, hslot, ?_⟩
  simp [hslot, List.getElem?_eq_getElem hlt]

namespace Program

/-- **With every value supplied, a listing pushes the value of its tree.** -/
theorem runOn_listing {declared : List String} {values : List Float} {env : String → Float}
    (t : Tree) (h : Supplies declared values env t.names) :
    ∀ (stack : Stack Float) (rest : Program),
      runOn values stack (t.listing declared ++ rest) =
        runOn values (t.value env :: stack) rest := by
  induction t with
  | constant c | number value => intro stack rest; rfl
  | var name =>
      intro stack rest
      obtain ⟨slot, hslot, hvalue⟩ := h name (List.mem_singleton.mpr rfl)
      simp [Tree.listing, runOn, step, hslot, hvalue, Stack.push, Tree.value]
  | negate t ih =>
      intro stack rest
      rw [Tree.listing, List.append_assoc, ih h]
      rfl
  | call f t ih =>
      intro stack rest
      rw [Tree.listing, List.append_assoc, ih h]
      rfl
  | binary op l r ihl ihr =>
      intro stack rest
      obtain ⟨hl, hr⟩ := List.forall_mem_append.mp h
      rw [Tree.listing, List.append_assoc, List.append_assoc, ihl hl, ihr hr]
      rfl

/-- **Otherwise it stops at the leftmost slot without a value.** -/
theorem runOn_listing_missing {declared : List String} {values : List Float} {slot : Nat}
    (t : Tree) (hbound : ∀ name ∈ t.names, name ∈ declared)
    (hslot : (t.listing declared).slots.find? (values.length ≤ ·) = some slot) :
    ∀ (stack : Stack Float) (rest : Program),
      (runOn values stack (t.listing declared ++ rest)).1 =
        .error (.missingValue slot values.length) := by
  induction t with
  | constant c | number value => exact absurd hslot (by simp [Tree.listing, Token.slot?])
  | var name =>
      intro stack rest
      obtain ⟨i, hi⟩ := exists_slotOf? (hbound name (List.mem_singleton.mpr rfl))
      simp only [Tree.listing, slots_cons, Token.slot?, hi, slots_nil] at hslot
      have hshort : values.length ≤ slot := le_of_find?_eq_some hslot
      obtain rfl : slot = i := List.mem_singleton.mp (List.mem_of_find?_eq_some hslot)
      have hnone : values[slot]? = none := List.getElem?_eq_none hshort
      simp [Tree.listing, runOn, step, hi, hnone]
  | negate t ih | call f t ih =>
      intro stack rest
      have hinner : (t.listing declared).slots.find? (values.length ≤ ·) = some slot := by
        simpa [Tree.listing, Token.slot?] using hslot
      rw [Tree.listing, List.append_assoc]
      exact ih hbound hinner stack _
  | binary op l r ihl ihr =>
      intro stack rest
      obtain ⟨hboundl, hboundr⟩ := List.forall_mem_append.mp hbound
      have hslots : ((l.listing declared).slots.find? (values.length ≤ ·)).or
          ((r.listing declared).slots.find? (values.length ≤ ·)) = some slot := by
        simpa [Tree.listing, Token.slot?] using hslot
      rw [Tree.listing, List.append_assoc, List.append_assoc]
      cases hfind : (l.listing declared).slots.find? (values.length ≤ ·) with
      | some first =>
          rw [hfind] at hslots
          cases hslots
          exact ihl hboundl hfind stack _
      | none =>
          -- the left operand has all its values, so the run reaches the right one
          rw [hfind, Option.none_or] at hslots
          obtain ⟨env, henv⟩ := exists_supplies hboundl (lt_of_find?_eq_none hfind)
          rw [runOn_listing l henv]
          exact ihr hboundr hslots _ _

end Program

/-! ## Compiled formulas -/

/-- **What compiles is the listing of the one tree that its tokens denote.** -/
theorem exists_tree_of_compile {formula : List UInt8} {declared : List String} {e : Compiled}
    (h : compile formula declared = .ok e) :
    ∃ tokens t, parse (.ofBytes formula) = .ok tokens ∧ (∀ u, Denotes .sum tokens u ↔ u = t) ∧
      (∀ name ∈ t.names, name ∈ declared) ∧ e.program = t.listing declared := by
  obtain ⟨tokens, hparse, hresolve, _⟩ := compile_eq_ok_iff.mp h
  obtain ⟨hreads, _⟩ := Program.resolve_eq_ok_iff.mp hresolve
  obtain ⟨t, ht, hlisting⟩ := exists_tree_of_phrase (phrase_of_parse hparse) hreads
  rw [hresolve] at hlisting
  refine ⟨tokens, t, hparse, ht, ?_, Except.ok.inj hlisting⟩
  rw [names_eq_readNames ((ht t).mpr rfl)]
  exact hreads

theorem evaluate_of_supplies {e : Compiled} {declared : List String} {t : Tree}
    (hprogram : e.program = t.listing declared) {values : List Float} {env : String → Float}
    (h : Supplies declared values env t.names) : e.evaluate values = .ok (t.value env) := by
  have hrun := Program.runOn_listing t h [] []
  rw [List.append_nil, ← hprogram] at hrun
  exact congrArg Prod.fst hrun

theorem evaluate_of_missing {e : Compiled} {declared : List String} {t : Tree}
    (hprogram : e.program = t.listing declared) (hbound : ∀ name ∈ t.names, name ∈ declared)
    {values : List Float} {slot : Nat}
    (hslot : e.program.slots.find? (values.length ≤ ·) = some slot) :
    e.evaluate values = .error (.missingValue slot values.length) := by
  have hrun := Program.runOn_listing_missing t hbound (hprogram ▸ hslot) [] []
  rw [List.append_nil, ← hprogram] at hrun
  exact hrun

/--
**Evaluating gives the value of the formula's tree**, with each name standing for the value at its
last position among the declared names.
-/
theorem evaluate_eq_value {formula : List UInt8} {declared : List String} {e : Compiled}
    {values : List Float} (h : compile formula declared = .ok e)
    (hlong : ∀ slot ∈ e.program.slots, slot < values.length) :
    ∃ tokens t env, parse (.ofBytes formula) = .ok tokens ∧
      (∀ u, Denotes .sum tokens u ↔ u = t) ∧
      (∀ name ∈ t.names, ∃ i, LastAt declared name i ∧ values[i]? = some (env name)) ∧
      e.evaluate values = .ok (t.value env) := by
  obtain ⟨tokens, t, hparse, ht, hbound, hprogram⟩ := exists_tree_of_compile h
  obtain ⟨env, henv⟩ := exists_supplies hbound (hprogram ▸ hlong)
  refine ⟨tokens, t, env, hparse, ht, ?_, evaluate_of_supplies hprogram henv⟩
  intro name hname
  obtain ⟨i, hi, hvalue⟩ := henv name hname
  exact ⟨i, slotOf?_eq_some_iff.mp hi, hvalue⟩

/-- `-x ^ y`, with `y` declared twice, over three values. -/
theorem evaluate_negated_power :
    ∃ e, compile [45, 120, 94, 121] ["y", "x", "y"] = .ok e ∧
      ∃ tokens t env, parse (.ofBytes [45, 120, 94, 121]) = .ok tokens ∧
        (∀ u, Denotes .sum tokens u ↔ u = t) ∧
        (∀ name ∈ t.names, ∃ i, LastAt ["y", "x", "y"] name i ∧
          [7.0, 2.0, 3.0][i]? = some (env name)) ∧
        e.evaluate [7.0, 2.0, 3.0] = .ok (t.value env) := by
  have h : compile [45, 120, 94, 121] ["y", "x", "y"] =
      .ok ⟨[.var "x" (some 1), .negate, .var "y" (some 2), .operator .power], ["x", "y"], 2⟩ := by
    decide +kernel
  refine ⟨_, h, evaluate_eq_value h ?_⟩
  simp [Token.slot?]

/-! ## The one way to go wrong -/

/-- Evaluating fails just when a slot has no value, and then at the leftmost. -/
theorem evaluate_cases {formula : List UInt8} {declared : List String} {e : Compiled}
    (h : compile formula declared = .ok e) (values : List Float) :
    ((∀ slot ∈ e.program.slots, slot < values.length) ∧ ∃ x, e.evaluate values = .ok x) ∨
      ∃ slot, e.program.slots.find? (values.length ≤ ·) = some slot ∧
        e.evaluate values = .error (.missingValue slot values.length) := by
  obtain ⟨tokens, t, _, _, hbound, hprogram⟩ := exists_tree_of_compile h
  cases hfind : e.program.slots.find? (values.length ≤ ·) with
  | some slot => exact Or.inr ⟨slot, rfl, evaluate_of_missing hprogram hbound hfind⟩
  | none =>
      have hlong : ∀ slot ∈ e.program.slots, slot < values.length := lt_of_find?_eq_none hfind
      obtain ⟨env, henv⟩ := exists_supplies hbound (hprogram ▸ hlong)
      exact Or.inl ⟨hlong, _, evaluate_of_supplies hprogram henv⟩

theorem evaluate_isOk_iff {formula : List UInt8} {declared : List String} {e : Compiled}
    (h : compile formula declared = .ok e) (values : List Float) :
    (∃ x, e.evaluate values = .ok x) ↔ ∀ slot ∈ e.program.slots, slot < values.length := by
  rcases evaluate_cases h values with ⟨hlong, hok⟩ | ⟨slot, hslot, herror⟩
  · exact ⟨fun _ => hlong, fun _ => hok⟩
  · refine ⟨?_, ?_⟩
    · intro hok
      obtain ⟨x, hx⟩ := hok
      rw [herror] at hx
      exact absurd hx (by simp)
    · intro hlong
      have hshort : values.length ≤ slot := le_of_find?_eq_some hslot
      have hlt : slot < values.length := hlong slot (List.mem_of_find?_eq_some hslot)
      omega

theorem find?_of_evaluate_eq_error {formula : List UInt8} {declared : List String} {e : Compiled}
    (h : compile formula declared = .ok e) {values : List Float} {fault : Fault}
    (hfault : e.evaluate values = .error fault) :
    ∃ slot, e.program.slots.find? (values.length ≤ ·) = some slot ∧
      fault = .missingValue slot values.length := by
  rcases evaluate_cases h values with ⟨_, x, hx⟩ | ⟨slot, hslot, herror⟩
  · rw [hx] at hfault
    exact absurd hfault (by simp)
  · rw [herror] at hfault
    exact ⟨slot, hslot, (Except.error.inj hfault).symm⟩

/-- Values that agree at the slots give one result. -/
theorem evaluate_congr {formula : List UInt8} {declared : List String} {e : Compiled}
    (h : compile formula declared = .ok e) {values others : List Float}
    (hagree : ∀ slot ∈ e.program.slots, values[slot]? = others[slot]?) {x : Float}
    (hx : e.evaluate values = .ok x) : e.evaluate others = .ok x := by
  obtain ⟨tokens, t, _, _, hbound, hprogram⟩ := exists_tree_of_compile h
  have hlong := (evaluate_isOk_iff h values).mp ⟨x, hx⟩
  obtain ⟨env, henv⟩ := exists_supplies hbound (hprogram ▸ hlong)
  -- the same environment serves both, for it is read at the slots alone
  have hothers : Supplies declared others env t.names := by
    intro name hname
    obtain ⟨slot, hslot, hvalue⟩ := henv name hname
    refine ⟨slot, hslot, ?_⟩
    rw [← hagree slot ?_, hvalue]
    rw [hprogram, Tree.slots_listing]
    exact List.mem_filterMap.mpr ⟨name, hname, hslot⟩
  rw [evaluate_of_supplies hprogram henv] at hx
  rw [evaluate_of_supplies hprogram hothers, hx]

/-- The leftmost slot that passes a test belongs to the leftmost variable whose slot does. -/
theorem exists_leftmost {declared : List String} {p : Nat → Bool} {i : Nat} {ts : List Token}
    (h : ((readNames ts).filterMap (slotOf? · declared)).find? p = some i) :
    ∃ before name slot after, ts = before ++ .var name slot :: after ∧ LastAt declared name i ∧
      p i = true ∧
      ∀ other ∈ readNames before, ∀ j, LastAt declared other j → p j = false := by
  induction ts with
  | nil => exact absurd h (by simp)
  | cons token ts ih =>
      rw [readNames_cons, List.filterMap_append, List.find?_append] at h
      cases hfirst : (token.varName?.toList.filterMap (slotOf? · declared)).find? p with
      | some first =>
          rw [hfirst, Option.some_or] at h
          cases h
          obtain ⟨name, hname, hslot⟩ :=
            List.mem_filterMap.mp (List.mem_of_find?_eq_some hfirst)
          have hvar : token.varName? = some name := Option.mem_toList.mp hname
          obtain ⟨slot, rfl⟩ := exists_var_of_varName? hvar
          exact ⟨[], name, slot, ts, rfl, slotOf?_eq_some_iff.mp hslot,
            List.find?_some hfirst, by simp⟩
      | none =>
          rw [hfirst, Option.none_or] at h
          obtain ⟨before, name, slot, after, rfl, hlast, hp, hbefore⟩ := ih h
          refine ⟨token :: before, name, slot, after, rfl, hlast, hp, ?_⟩
          intro other hother j hj
          rw [readNames_cons] at hother
          rcases List.mem_append.mp hother with hhere | hthere
          · have hnot := List.find?_eq_none.mp hfirst j
              (List.mem_filterMap.mpr ⟨other, hhere, slotOf?_eq_some_iff.mpr hj⟩)
            simpa using hnot
          · exact hbefore other hthere j hj

/--
**A compiled formula goes wrong in one way only**, by reading a value that was not supplied. Its
program holds no parenthesis and no unbound variable. It evaluates to a number just when the values
reach beyond every slot, and otherwise blames the leftmost variable of the formula that is short of
one. Of the values, nothing matters but those at its slots.
-/
theorem evaluate_fails_only_by_missing {formula : List UInt8} {declared : List String}
    {e : Compiled} (h : compile formula declared = .ok e) :
    (∀ token ∈ e.program, token ≠ .leftParen ∧ token ≠ .rightParen) ∧
    (∀ name slot, .var name slot ∈ e.program → ∃ i, slot = some i ∧ i < declared.length) ∧
    (∀ values, (∃ x, e.evaluate values = .ok x) ↔
      ∀ slot ∈ e.program.slots, slot < values.length) ∧
    (∃ tokens, parse (.ofBytes formula) = .ok tokens ∧
      ∀ values fault, e.evaluate values = .error fault →
        ∃ before name slot after i, tokens = before ++ .var name slot :: after ∧
          LastAt declared name i ∧ values.length ≤ i ∧
          (∀ other ∈ readNames before, ∀ j, LastAt declared other j → j < values.length) ∧
          fault = .missingValue i values.length ∧
          fault.message = "expression reads value #" ++ Nat.repr i ++ " but only " ++
            Nat.repr values.length ++ " values were supplied") ∧
    (∀ values others, (∀ slot ∈ e.program.slots, values[slot]? = others[slot]?) →
      ∀ x, e.evaluate values = .ok x ↔ e.evaluate others = .ok x) := by
  obtain ⟨tokens, t, hparse, ht, hbound, hprogram⟩ := exists_tree_of_compile h
  have hrunnable : ∀ token ∈ e.program, token.Runnable declared :=
    hprogram ▸ Tree.runnable_of_mem_listing t hbound
  refine ⟨?_, ?_, evaluate_isOk_iff h, ⟨tokens, hparse, ?_⟩, ?_⟩
  · intro token htoken
    have hrun := hrunnable token htoken
    refine ⟨?_, ?_⟩
    · intro heq
      rw [heq] at hrun
      exact hrun
    · intro heq
      rw [heq] at hrun
      exact hrun
  · intro name slot hmem
    obtain ⟨i, hslot, hlast⟩ := hrunnable _ hmem
    exact ⟨i, hslot, hlast.lt_length⟩
  · intro values fault hfault
    obtain ⟨i, hfind, rfl⟩ := find?_of_evaluate_eq_error h hfault
    -- the order of the program's slots is that of the variables as they are written
    rw [hprogram, Tree.slots_listing, names_eq_readNames ((ht t).mpr rfl)] at hfind
    obtain ⟨before, name, slot, after, hsplit, hlast, hshort, hbefore⟩ := exists_leftmost hfind
    refine ⟨before, name, slot, after, i, hsplit, hlast, of_decide_eq_true hshort, ?_, rfl, rfl⟩
    intro other hother j hj
    exact Nat.lt_of_not_le (of_decide_eq_false (hbefore other hother j hj))
  · intro values others hagree x
    exact ⟨evaluate_congr h hagree, evaluate_congr h fun slot hslot => (hagree slot hslot).symm⟩

/-- `x - y` has a value for two values, and none for one. -/
theorem evaluate_difference_short :
    ∃ e, compile [120, 45, 121] ["x", "y"] = .ok e ∧
      (∃ x, e.evaluate [7.0, 2.0] = .ok x) ∧ ¬∃ x, e.evaluate [7.0] = .ok x := by
  have h : compile [120, 45, 121] ["x", "y"] =
      .ok ⟨[.var "x" (some 0), .var "y" (some 1), .operator .subtract], ["x", "y"], 2⟩ := by
    decide +kernel
  obtain ⟨_, _, hok, _, _⟩ := evaluate_fails_only_by_missing h
  refine ⟨_, h, (hok _).mpr ?_, ?_⟩
  · simp [Token.slot?]
  · rw [hok]
    simp [Token.slot?]

end Formula
