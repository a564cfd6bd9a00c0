import Formula.Proofs.Evaluation
import Formula.Proofs.Placing

/-!
# Putting a formula in for a name

A variable may be replaced by a formula between parentheses before a sequence is put in order, or by
the formula's program afterwards: it makes no difference. That is so in any sequence whatever, with
unmatched parentheses and operators side by side, for a group is put in order by itself in front of
whatever is pending and of whatever comes behind (`Program.arrange_group`).

The same holds of running. A program in which a name is replaced runs as the program itself does
with the formula's value in the name's slot, and goes wrong in the same way where it does
(`Program.runOn_replaced`).
-/

namespace Formula

/-- The sequence with other tokens in the place of each variable of the name. -/
def replaced (name : String) (others tokens : List Token) : List Token :=
  tokens.flatMap fun token => if token.varName? = some name then others else [token]

@[simp] theorem replaced_nil (name : String) (others : List Token) :
    replaced name others [] = [] := rfl

theorem replaced_append (name : String) (others ts us : List Token) :
    replaced name others (ts ++ us) = replaced name others ts ++ replaced name others us :=
  List.flatMap_append

theorem replaced_cons_of_eq {name : String} {token : Token} (h : token.varName? = some name)
    (others ts : List Token) :
    replaced name others (token :: ts) = others ++ replaced name others ts := by
  rw [replaced, List.flatMap_cons, if_pos h]
  rfl

theorem replaced_cons_of_ne {name : String} {token : Token} (h : token.varName? ≠ some name)
    (others ts : List Token) :
    replaced name others (token :: ts) = token :: replaced name others ts := by
  rw [replaced, List.flatMap_cons, if_neg h]
  rfl

/-- Where the name is not read nothing is replaced. -/
theorem replaced_eq_self {name : String} {ts : List Token}
    (h : ∀ token ∈ ts, token.varName? ≠ some name) (others : List Token) :
    replaced name others ts = ts := by
  induction ts with
  | nil => rfl
  | cons token ts ih =>
      obtain ⟨htoken, hts⟩ := List.forall_mem_cons.mp h
      rw [replaced_cons_of_ne htoken, ih hts]

theorem varName?_bind (declared : List String) (token : Token) :
    (token.bind declared).varName? = token.varName? := by
  cases token <;> rfl

theorem readNames_replaced {name : String} {others ts : List Token} :
    ∀ read ∈ readNames (replaced name others ts),
      read ∈ readNames ts ∨ read ∈ readNames others := by
  induction ts with
  | nil => simp
  | cons token ts ih =>
      intro read hread
      by_cases htoken : token.varName? = some name
      · rw [replaced_cons_of_eq htoken, readNames_append] at hread
        rcases List.mem_append.mp hread with hhere | hthere
        · exact Or.inr hhere
        · refine (ih read hthere).imp_left fun hmem => ?_
          rw [readNames_cons]
          exact List.mem_append_right _ hmem
      · rw [replaced_cons_of_ne htoken, readNames_cons] at hread
        rw [readNames_cons]
        rcases List.mem_append.mp hread with hhere | hthere
        · exact Or.inl (List.mem_append_left _ hhere)
        · exact (ih read hthere).imp_left (List.mem_append_right _)

namespace Program

/-! ## Putting in order -/

/-- A resolved program's variables have the last positions of their names. -/
theorem slot_of_mem_resolved {declared : List String} {ts : List Token} {program : Program}
    (h : resolve declared ts = .ok program) {name : String} {slot : Option Nat}
    (hmem : .var name slot ∈ program) : slot = slotOf? name declared := by
  obtain ⟨_, rfl⟩ := resolve_eq_ok_iff.mp h
  rcases mem_of_mem_arrange hmem with hnone | hbound
  · exact absurd hnone (by simp)
  · obtain ⟨token, _, htoken⟩ := List.mem_map.mp hbound
    cases token with
    | var => cases htoken; rfl
    | constant | leftParen | rightParen | function | operator | negate | number => cases htoken

/-- **Replacing a name before a sequence is put in order is replacing it afterwards.** -/
theorem arrange_replaced {declared : List String} {name : String} {us : List Token} {u : Tree}
    (hu : Denotes .sum us u) (ts : List Token) :
    ∀ pending : Stack Token, (∀ token ∈ pending, token.varName? ≠ some name) →
      arrange pending
          ((replaced name (.leftParen :: us ++ [.rightParen]) ts).map (Token.bind declared)) =
        replaced name (u.listing declared) (arrange pending (ts.map (Token.bind declared))) := by
  induction ts with
  | nil =>
      intro pending hpending
      exact (replaced_eq_self hpending _).symm
  | cons token ts ih =>
      intro pending hpending
      by_cases htoken : token.varName? = some name
      · obtain ⟨slot, rfl⟩ := exists_var_of_varName? htoken
        rw [replaced_cons_of_eq htoken, List.map_append,
          arrange_group (arranges_of_denotes declared hu), ih pending hpending]
        have hbound : (Token.var name (slotOf? name declared)).varName? = some name := rfl
        exact (replaced_cons_of_eq hbound _ _).symm
      · have hplaced : ∀ other ∈ (place pending (token.bind declared)).1 ++
            (place pending (token.bind declared)).2, other.varName? ≠ some name := by
          intro other hother
          rcases mem_of_places (places_place _ _) hother with rfl | hmem
          · rw [varName?_bind]
            exact htoken
          · exact hpending other hmem
        obtain ⟨hout, hleft⟩ := List.forall_mem_append.mp hplaced
        rw [replaced_cons_of_ne htoken, List.map_cons, List.map_cons, arrange_cons, arrange_cons,
          replaced_append, replaced_eq_self hout, ih _ hleft]

/-! ## Running -/

/-- A token that does not read the slot does not see what is put there. -/
theorem step_set {i : Nat} {token : Token} (h : token.slot? ≠ some i) (values : List Float)
    (x : Float) (stack : Stack Float) :
    step (values.set i x) token stack = step values token stack := by
  cases token with
  | var name slot =>
      cases slot with
      | none => rfl
      | some j =>
          have hne : i ≠ j := fun heq => h (congrArg some heq.symm)
          simp only [step, List.getElem?_set_ne hne, List.length_set]
  | constant | leftParen | rightParen | function | operator | negate | number => rfl

/-- Run on any stack and in front of any tokens, the program puts the value on the stack. -/
def Pushes (values : List Float) (program : Program) (x : Float) : Prop :=
  ∀ stack rest, runOn values stack (program ++ rest) = runOn values (x :: stack) rest

theorem Pushes.run_eq {values : List Float} {program : Program} {x : Float}
    (h : Pushes values program x) (stack : Stack Float) :
    program.run values stack = (.ok x, [x]) := by
  have hwhole := h [] []
  rwa [List.append_nil] at hwhole

/-- **A formula's program pushes one value**, if the values reach beyond its slots. -/
theorem exists_pushes_of_phrase {declared : List String} {n : Nat} {ts : List Token}
    {program : Program} (hphrase : Phrase .expression n ts)
    (hresolve : resolve declared ts = .ok program) {values : List Float}
    (hlong : ∀ slot ∈ program.slots, slot < values.length) :
    ∃ x, Pushes values program x := by
  obtain ⟨hreads, _⟩ := resolve_eq_ok_iff.mp hresolve
  obtain ⟨t, ht, rfl⟩ := exists_listing_of_resolve hphrase hresolve
  have hnames : ∀ name ∈ t.names, name ∈ declared := names_eq_readNames ht ▸ hreads
  obtain ⟨env, henv⟩ := exists_supplies hnames hlong
  exact ⟨t.value env, runOn_listing t henv⟩

/-- **A program runs with other tokens in a name's place as with their value in its slot.** -/
theorem runOn_replaced {values : List Float} {name : String} {i : Nat} {others : Program}
    {x : Float} (hothers : Pushes values others x) {program : Program}
    (hslots : ∀ other slot, .var other slot ∈ program → (slot = some i ↔ other = name))
    (hlong : ∀ slot ∈ program.slots, slot < values.length) :
    ∀ stack, runOn values stack (replaced name others program) =
      runOn (values.set i x) stack program := by
  induction program with
  | nil => intro stack; rfl
  | cons token program ih =>
      intro stack
      rw [slots_cons] at hlong
      have hrest := ih (fun other slot hmem => hslots other slot (List.mem_cons_of_mem _ hmem))
        fun slot hmem => hlong slot (List.mem_append_right _ hmem)
      by_cases htoken : token.varName? = some name
      · obtain ⟨slot, rfl⟩ := exists_var_of_varName? htoken
        obtain rfl : slot = some i := (hslots name slot List.mem_cons_self).mpr rfl
        have hlt : i < values.length := hlong i (by simp [Token.slot?])
        rw [replaced_cons_of_eq htoken, hothers, hrest]
        simp [runOn, step, hlt, Stack.push]
      · have hslot : token.slot? ≠ some i := by
          intro heq
          cases token with
          | var other slot =>
              exact htoken (congrArg some ((hslots other slot List.mem_cons_self).mp heq))
          | constant | leftParen | rightParen | function | operator | negate | number =>
              exact absurd heq (by simp [Token.slot?])
        rw [replaced_cons_of_ne htoken]
        cases hstep : step values token stack with
        | ok next => rw [runOn_of_ok hstep, runOn_of_ok ((step_set hslot ..).trans hstep), hrest]
        | error fault =>
            rw [runOn_of_error hstep, runOn_of_error ((step_set hslot ..).trans hstep)]

end Program

/-- **Replacing a name in a sequence replaces it in its program.** -/
theorem resolve_replaced {declared : List String} (name : String) {n : Nat} {ts us : List Token}
    {program inner : Program} (hus : Phrase .expression n us)
    (hprogram : Program.resolve declared ts = .ok program)
    (hinner : Program.resolve declared us = .ok inner) :
    Program.resolve declared (replaced name (.leftParen :: us ++ [.rightParen]) ts) =
      .ok (replaced name inner program) := by
  obtain ⟨htsReads, rfl⟩ := Program.resolve_eq_ok_iff.mp hprogram
  obtain ⟨husReads, _⟩ := Program.resolve_eq_ok_iff.mp hinner
  obtain ⟨u, hu, rfl⟩ := exists_listing_of_resolve hus hinner
  rw [Program.resolve_eq_ok_iff]
  refine ⟨?_, ?_⟩
  · intro read hread
    rcases readNames_replaced read hread with houter | hgroup
    · exact htsReads read houter
    · exact husReads read (by simpa [Token.varName?] using hgroup)
  · exact (Program.arrange_replaced hu ts [] (by simp)).symm

/--
**Putting a formula in for a name** commutes with resolving and with running. In any sequence that
resolves, be its parentheses matched or not, the name may be replaced by the formula in parentheses,
or in its program by the formula's program: it is the same. The program runs then as the sequence's
own does with the formula's value in the name's slot, to the same outcome and the same stack; and if
the sequence is a formula too, the outcome is a number.
-/
theorem substitution_commutes {declared : List String} (name : String) {n : Nat}
    {ts us : List Token} {program inner : Program} (hus : Phrase .expression n us)
    (hprogram : Program.resolve declared ts = .ok program)
    (hinner : Program.resolve declared us = .ok inner) :
    Program.resolve declared (replaced name (.leftParen :: us ++ [.rightParen]) ts) =
        .ok (replaced name inner program) ∧
      ∀ (values : List Float) (i : Nat), LastAt declared name i →
        (∀ slot ∈ program.slots ++ inner.slots, slot < values.length) →
        ∃ x, (∀ stack, inner.run values stack = (.ok x, [x])) ∧
          (∀ stack, Program.run (replaced name inner program) values stack =
            program.run (values.set i x) stack) ∧
          (∀ m, Phrase .expression m ts →
            ∃ y, ∀ stack,
              Program.run (replaced name inner program) values stack = (.ok y, [y])) := by
  refine ⟨resolve_replaced name hus hprogram hinner, ?_⟩
  intro values i hi hlong
  obtain ⟨houter, hinside⟩ := List.forall_mem_append.mp hlong
  obtain ⟨x, hx⟩ := Program.exists_pushes_of_phrase hus hinner hinside
  have hslots : ∀ other slot, .var other slot ∈ program → (slot = some i ↔ other = name) := by
    intro other slot hmem
    rw [Program.slot_of_mem_resolved hprogram hmem, slotOf?_eq_some_iff]
    refine ⟨?_, ?_⟩
    · intro hother
      exact Option.some.inj (hother.1.symm.trans hi.1)
    · intro heq
      rw [heq]
      exact hi
  have hrun : ∀ stack, Program.run (replaced name inner program) values stack =
      program.run (values.set i x) stack :=
    fun stack => Program.runOn_replaced hx hslots houter []
  refine ⟨x, hx.run_eq, hrun, ?_⟩
  intro m hts
  have hset : ∀ slot ∈ program.slots, slot < (values.set i x).length := by
    rw [List.length_set]
    exact houter
  obtain ⟨y, hy⟩ := Program.exists_pushes_of_phrase hts hprogram hset
  refine ⟨y, fun stack => ?_⟩
  rw [hrun, hy.run_eq]

/-- In `x ^ x` over `y` and `x`, the formula `x - y` for `x`. -/
theorem substitution_in_power :
    Program.resolve ["y", "x"] (replaced "x"
        [.leftParen, .var "x" none, .operator .subtract, .var "y" none, .rightParen]
        [.var "x" none, .operator .power, .var "x" none]) =
      .ok [.var "x" (some 1), .var "y" (some 0), .operator .subtract, .var "x" (some 1),
        .var "y" (some 0), .operator .subtract, .operator .power] ∧
    ∃ x, Program.run [.var "x" (some 1), .var "y" (some 0), .operator .subtract]
        [2.0, 5.0] [] = (.ok x, [x]) ∧
      Program.run [.var "x" (some 1), .var "y" (some 0), .operator .subtract, .var "x" (some 1),
          .var "y" (some 0), .operator .subtract, .operator .power] [2.0, 5.0] [] =
        Program.run [.var "x" (some 1), .var "x" (some 1), .operator .power] [2.0, x] [] := by
  have hus : Phrase .expression 2 [.var "x" none, .operator .subtract, .var "y" none] :=
    .chain .subtract (.operand rfl) (.single (.operand rfl))
  have hprogram : Program.resolve ["y", "x"] [.var "x" none, .operator .power, .var "x" none] =
      .ok [.var "x" (some 1), .var "x" (some 1), .operator .power] := by rfl
  have hinner : Program.resolve ["y", "x"] [.var "x" none, .operator .subtract, .var "y" none] =
      .ok [.var "x" (some 1), .var "y" (some 0), .operator .subtract] := by rfl
  have hlast : LastAt ["y", "x"] "x" 1 := slotOf?_eq_some_iff.mp rfl
  obtain ⟨hresolve, hvalues⟩ := substitution_commutes "x" hus hprogram hinner
  obtain ⟨x, hx, hrun, _⟩ := hvalues [2.0, 5.0] 1 hlast (by simp [Token.slot?])
  exact ⟨hresolve, x, hx [], hrun []⟩

end Formula
