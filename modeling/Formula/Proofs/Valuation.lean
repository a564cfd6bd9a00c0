import Mathlib.Control.Monad.Basic
import Formula.Proofs.Composition

/-!
# Values by name

Slots come and go between declaring names and reading values: the same list of names makes them and
is behind the values that they are used on. What is left in the end is which value each name stands
for, the one at its last position, and of these only the names that the formula reads.

Two facts carry this:

* a listing without its slots is the same whatever is declared (`slotless_listing`), and names and
  peak can be told without slots;
* the value at a name's slot is that of its last binding (`getElem?_slotOf?`), and last bindings can
  be looked up without positions.
-/

namespace Formula

/-! ## Programs without their slots -/

/-- The token without the slot, if it is a variable. -/
def Token.slotless : Token → Token
  | .var name _ => .var name none
  | token => token

theorem Token.varName?_slotless (token : Token) : token.slotless.varName? = token.varName? := by
  cases token <;> rfl

namespace Program

theorem readNames_slotless (program : Program) :
    readNames (program.map Token.slotless) = readNames program := by
  have hsame : Token.varName? ∘ Token.slotless = Token.varName? := funext Token.varName?_slotless
  rw [readNames, readNames, List.filterMap_map, hsame]

theorem peakFrom_slotless (program : Program) :
    ∀ held : Nat, peakFrom held (program.map Token.slotless) = peakFrom held program := by
  induction program with
  | nil => intro held; rfl
  | cons token program ih =>
      intro held
      cases token <;> simp only [List.map_cons, Token.slotless, peakFrom, ih]

/-- Programs that differ in slots alone read the same names and reach the same peak. -/
theorem names_and_peak_of_slotless {program other : Program}
    (h : program.map Token.slotless = other.map Token.slotless) :
    program.names = other.names ∧ program.peak = other.peak := by
  have hreads : readNames program = readNames other := by
    rw [← readNames_slotless program, h, readNames_slotless]
  have hpeak : peakFrom 0 program = peakFrom 0 other := by
    rw [← peakFrom_slotless program, h, peakFrom_slotless]
  exact ⟨congrArg distinctNames hreads, hpeak⟩

end Program

/-- **Declared names tell a listing its slots and nothing else.** -/
theorem Tree.slotless_listing (declared : List String) (t : Tree) :
    (t.listing declared).map Token.slotless = t.listing [] := by
  induction t with
  | constant | number | var => rfl
  | negate t ih | call f t ih =>
      rw [listing, listing, List.map_append, ih]
      rfl
  | binary op l r ihl ihr =>
      rw [listing, listing, List.map_append, List.map_append, ihl, ihr]
      rfl

/-! ## The value a name is bound to -/

/-- The value of the last binding of the name. -/
def boundValue (bindings : List (String × Float)) (name : String) : Option Float :=
  (bindings.filter (·.1 = name)).getLast?.map Prod.snd

theorem boundValue_cons (b : String × Float) (bindings : List (String × Float)) (name : String) :
    boundValue (b :: bindings) name =
      (boundValue bindings name).or (if b.1 = name then some b.2 else none) := by
  by_cases hname : b.1 = name
  · simp only [boundValue, hname, List.filter_cons_of_pos, decide_true, List.getLast?_cons, if_true]
    cases (bindings.filter (·.1 = name)).getLast? <;> rfl
  · simp [boundValue, hname]

theorem boundValue_eq_none_iff {bindings : List (String × Float)} {name : String} :
    boundValue bindings name = none ↔ name ∉ bindings.map Prod.fst := by
  simp only [boundValue, Option.map_eq_none_iff, List.getLast?_eq_none_iff, List.filter_eq_nil_iff,
    decide_eq_true_eq, List.mem_map, not_exists, not_and]

/-- **The value at a name's slot is that of its last binding.** -/
theorem getElem?_slotOf? (bindings : List (String × Float)) (name : String) :
    (slotOf? name (bindings.map Prod.fst)).bind ((bindings.map Prod.snd)[·]?) =
      boundValue bindings name := by
  induction bindings with
  | nil => rfl
  | cons b bindings ih =>
      rw [boundValue_cons, ← ih, List.map_cons, List.map_cons, slotOf?]
      cases hslot : slotOf? name (bindings.map Prod.fst) with
      | none => by_cases hname : b.1 = name <;> simp [hname]
      | some i =>
          -- the slot of a later binding holds a value, so the first binding is not asked
          have hlt : i < bindings.length := by
            have hlast := (slotOf?_eq_some_iff.mp hslot).lt_length
            rwa [List.length_map] at hlast
          simp [List.getElem?_eq_getElem hlt]

/-- A value for each declared name supplies every name of a tree over them. -/
theorem exists_supplies_of_length {declared : List String} {values : List Float} {t : Tree}
    (hbound : ∀ name ∈ t.names, name ∈ declared) (hlength : values.length = declared.length) :
    ∃ env, Supplies declared values env t.names := by
  apply exists_supplies hbound
  intro slot hslot
  rw [Tree.slots_listing] at hslot
  obtain ⟨name, _, hname⟩ := List.mem_filterMap.mp hslot
  rw [hlength]
  exact (slotOf?_eq_some_iff.mp hname).lt_length

/-! ## One formula, two declarations -/

/-- The names that a formula uses; what is no formula uses none. -/
def usedNames (formula : List UInt8) : List String :=
  match parse (.ofBytes formula) with
  | .ok tokens => readNames tokens
  | .error _ => []

/-- **A formula over declared names compiles**, and by a tree that does not depend on them. -/
theorem exists_tree_of_parse {formula : List UInt8} {tokens : List Token}
    (h : parse (.ofBytes formula) = .ok tokens) :
    ∃ t : Tree, t.names = readNames tokens ∧
      ∀ declared, (∀ name ∈ readNames tokens, name ∈ declared) →
        compile formula declared = .ok (t.compiled declared) := by
  obtain ⟨t, ht⟩ := exists_denotes_of_phrase (phrase_of_parse h)
  have hnames : t.names = readNames tokens := names_eq_readNames ht
  refine ⟨t, hnames, ?_⟩
  intro declared hbound
  exact compile_of_denotes h ht (hnames ▸ hbound)

theorem compile_eq_unbound {formula : List UInt8} {tokens : List Token}
    (h : parse (.ofBytes formula) = .ok tokens) {declared : List String}
    (hunbound : ¬∀ name ∈ readNames tokens, name ∈ declared) :
    compile formula declared = .error (.unbound (unboundNames declared tokens)) := by
  have hne : unboundNames declared tokens ≠ [] := fun hnil =>
    hunbound (unboundNames_eq_nil_iff.mp hnil)
  exact compile_eq_unbound_iff.mpr ⟨tokens, h, Program.resolve_eq_error_iff.mpr ⟨rfl, hne⟩⟩

/-- Which names are unbound depends on nothing but which of those read are declared. -/
theorem unboundNames_congr {tokens : List Token} {declared others : List String}
    (h : ∀ name ∈ readNames tokens, name ∈ declared ↔ name ∈ others) :
    unboundNames declared tokens = unboundNames others tokens := by
  refine congrArg sortedNames (List.filter_congr ?_)
  intro name hname
  rw [Bool.eq_iff_iff, Option.isNone_iff_eq_none, Option.isNone_iff_eq_none, slotOf?_eq_none_iff,
    slotOf?_eq_none_iff, h name hname]

/-- **Two declarations that give each name one value make no difference**, but for the slots. -/
theorem evaluate_of_same_values {declared others : List String} {t : Tree}
    {values otherValues : List Float} (hbound : ∀ name ∈ t.names, name ∈ declared)
    (hothers : ∀ name ∈ t.names, name ∈ others) (hlength : values.length = declared.length)
    (hsame : ∀ name ∈ t.names, ∀ i j, LastAt declared name i → LastAt others name j →
      values[i]? = otherValues[j]?) :
    ∃ x, (t.compiled declared).evaluate values = .ok x ∧
      (t.compiled others).evaluate otherValues = .ok x := by
  obtain ⟨env, henv⟩ := exists_supplies_of_length hbound hlength
  have hother : Supplies others otherValues env t.names := by
    intro name hname
    obtain ⟨i, hi, hvalue⟩ := henv name hname
    obtain ⟨j, hj⟩ := exists_slotOf? (hothers name hname)
    refine ⟨j, hj, ?_⟩
    rw [← hsame name hname i j (slotOf?_eq_some_iff.mp hi) (slotOf?_eq_some_iff.mp hj), hvalue]
  exact ⟨t.value env, evaluate_compiled henv, evaluate_compiled hother⟩

/-! ## Bindings -/

theorem mem_names_iff_of_boundValue {bindings others : List (String × Float)} {name : String}
    (h : boundValue bindings name = boundValue others name) :
    name ∈ bindings.map Prod.fst ↔ name ∈ others.map Prod.fst := by
  rw [← not_iff_not, ← boundValue_eq_none_iff, ← boundValue_eq_none_iff, h]

theorem getElem?_of_lastAt {bindings : List (String × Float)} {name : String} {i : Nat}
    (h : LastAt (bindings.map Prod.fst) name i) :
    (bindings.map Prod.snd)[i]? = boundValue bindings name := by
  rw [← getElem?_slotOf?, slotOf?_eq_some_iff.mpr h]
  rfl

/-- **Calculating never faults**: every name that is read has a value. -/
theorem calculate_ne_fault (formula : List UInt8) (bindings : List (String × Float))
    (fault : Fault) : calculate formula bindings ≠ .ok (.error fault) := by
  intro h
  unfold calculate at h
  cases hcompile : compile formula (bindings.map Prod.fst) with
  | error e =>
      rw [hcompile] at h
      exact absurd h (by simp [Except.map])
  | ok e =>
      rw [hcompile] at h
      obtain ⟨_, t, _, _, hbound, rfl⟩ := exists_compiled_of_compile hcompile
      have hlength : (bindings.map Prod.snd).length = (bindings.map Prod.fst).length := by simp
      obtain ⟨env, henv⟩ := exists_supplies_of_length hbound hlength
      rw [Except.map, evaluate_compiled henv] at h
      exact absurd h (by simp)

/-- **Bindings matter by the value that each name used has last.** -/
theorem calculate_congr {formula : List UInt8} {bindings others : List (String × Float)}
    (h : ∀ name ∈ usedNames formula, boundValue bindings name = boundValue others name) :
    calculate formula bindings = calculate formula others := by
  cases hparse : parse (.ofBytes formula) with
  | error e => simp only [calculate, compile_eq_malformed_iff.mpr hparse, Except.map]
  | ok tokens =>
      have hused : usedNames formula = readNames tokens := by simp only [usedNames, hparse]
      rw [hused] at h
      have hmem : ∀ name ∈ readNames tokens,
          name ∈ bindings.map Prod.fst ↔ name ∈ others.map Prod.fst :=
        fun name hname => mem_names_iff_of_boundValue (h name hname)
      by_cases hbound : ∀ name ∈ readNames tokens, name ∈ bindings.map Prod.fst
      · have hothers : ∀ name ∈ readNames tokens, name ∈ others.map Prod.fst :=
          fun name hname => (hmem name hname).mp (hbound name hname)
        obtain ⟨t, hnames, hcompile⟩ := exists_tree_of_parse hparse
        have hlength : (bindings.map Prod.snd).length = (bindings.map Prod.fst).length := by simp
        obtain ⟨x, hx, hy⟩ := evaluate_of_same_values (hnames ▸ hbound) (hnames ▸ hothers) hlength
          fun name hname i j hi hj => by
            rw [getElem?_of_lastAt hi, getElem?_of_lastAt hj, h name (hnames ▸ hname)]
        rw [calculate, calculate, hcompile _ hbound, hcompile _ hothers, Except.map, Except.map, hx,
          hy]
      · have hothers : ¬∀ name ∈ readNames tokens, name ∈ others.map Prod.fst :=
          fun hall => hbound fun name hname => (hmem name hname).mpr (hall name hname)
        simp only [calculate, compile_eq_unbound hparse hbound, compile_eq_unbound hparse hothers,
          unboundNames_congr hmem, Except.map]

/-- Without repetition, bindings may come in any order. -/
theorem boundValue_perm {bindings others : List (String × Float)} (h : bindings.Perm others)
    (hnodup : (bindings.map Prod.fst).Nodup) (name : String) :
    boundValue bindings name = boundValue others name := by
  have hone : (bindings.filter (·.1 = name)).length ≤ 1 := by
    have hcount := List.nodup_iff_count.mp hnodup name
    rw [List.count, List.countP_map, List.countP_eq_length_filter] at hcount
    exact hcount
  have hperm : (bindings.filter (·.1 = name)).Perm (others.filter (·.1 = name)) := h.filter _
  unfold boundValue
  -- one binding at most has no order to lose
  cases hfilter : bindings.filter (·.1 = name) with
  | nil =>
      rw [hfilter] at hperm
      rw [hperm.nil_eq]
  | cons b more =>
      rw [hfilter] at hperm hone
      obtain rfl : more = [] := by simpa using hone
      rw [List.perm_singleton.mp hperm.symm]

/-- Bindings of other names may be left out. -/
theorem boundValue_filter {names : List String} {name : String} (h : name ∈ names)
    (bindings : List (String × Float)) :
    boundValue (bindings.filter (·.1 ∈ names)) name = boundValue bindings name := by
  rw [boundValue, boundValue, List.filter_filter]
  refine congrArg (Option.map Prod.snd ∘ List.getLast?) (List.filter_congr ?_)
  intro b _
  by_cases hb : b.1 = name <;> simp [hb, h]

/-- A binding that is repeated later is never looked at. -/
theorem boundValue_shadowed {name : String} {after : List (String × Float)}
    (h : name ∈ after.map Prod.fst) (before : List (String × Float)) (value : Float)
    (other : String) :
    boundValue (before ++ (name, value) :: after) other = boundValue (before ++ after) other := by
  induction before with
  | nil =>
      rw [List.nil_append, List.nil_append, boundValue_cons]
      by_cases hname : name = other
      · cases hvalue : boundValue after other with
        | none => exact absurd (hname ▸ h) (boundValue_eq_none_iff.mp hvalue)
        | some x => rfl
      · rw [if_neg hname, Option.or_none]
  | cons b before ih =>
      rw [List.cons_append, List.cons_append, boundValue_cons, boundValue_cons, ih]

/--
**Only the value of each name matters**, not how the names are declared. Two declarations under
which every name read has the same value at its last position give the same formula but for the
slots, and the same result. So a calculation from bindings never faults. It is the same for bindings
in another order, if no name is repeated; for more or fewer bindings of names that the formula does
not use; and without a binding whose name is bound again later.
-/
theorem values_of_names_decide (formula : List UInt8) :
    (∀ tokens, parse (.ofBytes formula) = .ok tokens →
      ∀ (declared others : List String) (values otherValues : List Float),
        (∀ name ∈ readNames tokens, name ∈ declared ∧ name ∈ others) →
        values.length = declared.length → otherValues.length = others.length →
        (∀ name ∈ readNames tokens, ∀ i j, LastAt declared name i → LastAt others name j →
          values[i]? = otherValues[j]?) →
        ∃ e d, compile formula declared = .ok e ∧ compile formula others = .ok d ∧
          e.names = d.names ∧ e.peak = d.peak ∧
          e.program.map Token.slotless = d.program.map Token.slotless ∧
          ∃ x, e.evaluate values = .ok x ∧ d.evaluate otherValues = .ok x) ∧
    (∀ bindings fault, calculate formula bindings ≠ .ok (.error fault)) ∧
    (∀ bindings others, bindings.Perm others → (bindings.map Prod.fst).Nodup →
      calculate formula bindings = calculate formula others) ∧
    (∀ bindings others : List (String × Float),
      bindings.filter (·.1 ∈ usedNames formula) = others.filter (·.1 ∈ usedNames formula) →
      calculate formula bindings = calculate formula others) ∧
    (∀ before name value after, name ∈ after.map Prod.fst →
      calculate formula (before ++ (name, value) :: after) =
        calculate formula (before ++ after)) := by
  refine ⟨?_, calculate_ne_fault formula, ?_, ?_, ?_⟩
  · intro tokens hparse declared others values otherValues hdeclared hlength _ hsame
    obtain ⟨t, hnames, hcompile⟩ := exists_tree_of_parse hparse
    have hbound : ∀ name ∈ readNames tokens, name ∈ declared := fun name hname =>
      (hdeclared name hname).1
    have hothers : ∀ name ∈ readNames tokens, name ∈ others := fun name hname =>
      (hdeclared name hname).2
    have hslotless : (t.compiled declared).program.map Token.slotless =
        (t.compiled others).program.map Token.slotless :=
      (t.slotless_listing declared).trans (t.slotless_listing others).symm
    obtain ⟨hsameNames, hsamePeak⟩ := Program.names_and_peak_of_slotless hslotless
    exact ⟨_, _, hcompile declared hbound, hcompile others hothers, hsameNames, hsamePeak,
      hslotless, evaluate_of_same_values (hnames ▸ hbound) (hnames ▸ hothers) hlength
        (hnames ▸ hsame)⟩
  · intro bindings others hperm hnodup
    exact calculate_congr fun name _ => boundValue_perm hperm hnodup name
  · intro bindings others hfilter
    refine calculate_congr fun name hname => ?_
    rw [← boundValue_filter hname bindings, hfilter, boundValue_filter hname]
  · intro before name value after hname
    exact calculate_congr fun other _ => boundValue_shadowed hname before value other

/-- `x-y*x` over `x` and `y`, and over `y`, `x` and `y` again: of the two values for `y`, the last
counts, and so it does in bindings. -/
theorem value_over_repeated_name :
    (∃ e d, compile [120, 45, 121, 42, 120] ["x", "y"] = .ok e ∧
      compile [120, 45, 121, 42, 120] ["y", "x", "y"] = .ok d ∧
      e.names = d.names ∧ e.peak = d.peak ∧
      ∃ x, e.evaluate [5.0, 2.0] = .ok x ∧ d.evaluate [9.0, 5.0, 2.0] = .ok x) ∧
    calculate [120, 45, 121, 42, 120] [("y", 9.0), ("x", 5.0), ("y", 2.0)] =
      calculate [120, 45, 121, 42, 120] [("x", 5.0), ("y", 2.0)] ∧
    calculate [120, 45, 121, 42, 120] [("x", 5.0), ("y", 2.0)] =
      calculate [120, 45, 121, 42, 120] [("y", 2.0), ("x", 5.0)] ∧
    calculate [120, 45, 121, 42, 120] [("x", 5.0), ("z", 1.0), ("y", 2.0)] =
      calculate [120, 45, 121, 42, 120] [("x", 5.0), ("y", 2.0)] := by
  have hparse : parse (.ofBytes [120, 45, 121, 42, 120]) = .ok [.var "x" none,
      .operator .subtract, .var "y" none, .operator .multiply, .var "x" none] := by
    decide +kernel
  have hnames : readNames [.var "x" none, .operator .subtract, .var "y" none,
      .operator .multiply, .var "x" none] = ["x", "y", "x"] := rfl
  have hused : usedNames [120, 45, 121, 42, 120] = ["x", "y", "x"] := by
    simp only [usedNames, hparse, hnames]
  obtain ⟨hvalues, _, hperm, hfilter, hshadowed⟩ := values_of_names_decide [120, 45, 121, 42, 120]
  refine ⟨?_, hshadowed [] "y" 9.0 [("x", 5.0), ("y", 2.0)] (by decide),
    hperm _ _ (.swap _ _ _) (by decide), hfilter _ _ ?_⟩
  · have hdeclared : ∀ name ∈ ["x", "y", "x"], name ∈ ["x", "y"] ∧ name ∈ ["y", "x", "y"] := by
      simp
    have hsame : ∀ name ∈ ["x", "y", "x"], ∀ i j, LastAt ["x", "y"] name i →
        LastAt ["y", "x", "y"] name j → ([5.0, 2.0] : List Float)[i]? =
          ([9.0, 5.0, 2.0] : List Float)[j]? := by
      intro name hname i j hi hj
      simp only [List.mem_cons, List.not_mem_nil, or_false] at hname
      rcases hname with rfl | rfl | rfl <;>
        cases slotOf?_eq_some_iff.mpr hi <;> cases slotOf?_eq_some_iff.mpr hj <;> simp
    obtain ⟨e, d, he, hd, hsameNames, hsamePeak, _, hresult⟩ := hvalues _ hparse _ _ _ _
      (hnames ▸ hdeclared) rfl rfl (hnames ▸ hsame)
    exact ⟨e, d, he, hd, hsameNames, hsamePeak, hresult⟩
  · rw [hused]; rfl

end Formula
