import Mathlib.Control.Monad.Basic
import Formula.Proofs.Compiling
import Formula.Proofs.Reuse

/-!
# The peak is how high the stack gets

The peak of a program is counted without running it, and on sequences that are no programs the count
need not follow the stack: an operator that lacks an operand lowers the count to zero and goes on,
where a run ends. What holds is that count and stack agree for as long as the run goes on
(`length_of_step`), and that a token on which it ends leaves nothing new behind. So a run never gets
higher than the peak, and one that comes to its end has been through all that was counted.

`trace` lists the stacks of a run. It is what the beginnings of the program leave behind when each
is run for itself (`mem_traceOn_iff`). Between two of them nothing higher is seen: an operator takes
its right operand off first, and puts its result in the place of the left one.
-/

namespace Formula

namespace Program

variable {values : List Float}

/-- The stacks of a run from a stack on: this one, and then the one that each token leaves, up to
the end of the tokens or the first that fails. -/
def traceOn (values : List Float) (stack : Stack Float) : Program → List (Stack Float)
  | [] => [stack]
  | token :: tokens =>
    match step values token stack with
    | .ok next => stack :: traceOn values next tokens
    | .error _ => [stack, residue token stack]

/-- The stacks of a run, from the moment when the stack has been cleared. -/
def trace (program : Program) (values : List Float) (stack : Stack Float) : List (Stack Float) :=
  program.traceOn values stack.clear

/-- A stack with room for so many operands never has to grow in the run. -/
def Fits (program : Program) (values : List Float) (stack : Stack Float) (room : Nat) : Prop :=
  ∀ s ∈ program.trace values stack, s.length ≤ room

theorem traceOn_of_ok {token : Token} {stack next : Stack Float}
    (h : step values token stack = .ok next) (tokens : Program) :
    traceOn values stack (token :: tokens) = stack :: traceOn values next tokens := by
  rw [traceOn, h]

theorem traceOn_of_error {token : Token} {stack : Stack Float} {fault : Fault}
    (h : step values token stack = .error fault) (tokens : Program) :
    traceOn values stack (token :: tokens) = [stack, residue token stack] := by
  rw [traceOn, h]

/-- **The stacks of a run are those that the beginnings of the program leave behind.** -/
theorem mem_traceOn_iff {program : Program} {s : Stack Float} :
    ∀ {stack : Stack Float}, s ∈ traceOn values stack program ↔
      ∃ before after, program = before ++ after ∧ (runOn values stack before).2 = s := by
  induction program with
  | nil =>
      intro stack
      refine ⟨?_, ?_⟩
      · intro h
        exact ⟨[], [], rfl, (List.mem_singleton.mp h).symm⟩
      · rintro ⟨before, after, hsplit, rfl⟩
        rw [(List.append_eq_nil_iff.mp hsplit.symm).1]
        exact List.mem_singleton.mpr rfl
  | cons token tokens ih =>
      intro stack
      cases hstep : step values token stack with
      | ok next =>
          rw [traceOn_of_ok hstep, List.mem_cons, ih]
          refine ⟨?_, ?_⟩
          · rintro (rfl | ⟨before, after, rfl, hrun⟩)
            · exact ⟨[], token :: tokens, rfl, rfl⟩
            · exact ⟨token :: before, after, rfl, by rw [runOn_of_ok hstep, hrun]⟩
          · rintro ⟨before, after, hsplit, hrun⟩
            cases before with
            | nil => exact Or.inl hrun.symm
            | cons first before =>
                obtain ⟨rfl, hrest⟩ := List.cons.inj hsplit
                rw [runOn_of_ok hstep] at hrun
                exact Or.inr ⟨before, after, hrest, hrun⟩
      | error fault =>
          rw [traceOn_of_error hstep, List.mem_cons, List.mem_singleton]
          refine ⟨?_, ?_⟩
          · rintro (rfl | rfl)
            · exact ⟨[], token :: tokens, rfl, rfl⟩
            · exact ⟨[token], tokens, rfl, by rw [runOn_of_error hstep]⟩
          · rintro ⟨before, after, hsplit, hrun⟩
            cases before with
            | nil => exact Or.inl hrun.symm
            | cons first before =>
                -- the run ends on this token, however far the beginning reaches
                obtain ⟨rfl, _⟩ := List.cons.inj hsplit
                rw [runOn_of_error hstep] at hrun
                exact Or.inr hrun.symm

/-! ## Counting -/

/-- How many operands are held behind a token, by counting alone. -/
def heldBehind (held : Nat) : Token → Nat
  | .number _ | .constant _ | .var _ _ => held + 1
  | .operator _ => held - 1
  | _ => held

/-- The greatest number of operands held from here on, by counting alone. -/
def height (held : Nat) (program : Program) : Nat := max held (program.peakFrom held)

theorem height_nil (held : Nat) : height held [] = held := Nat.max_zero held

theorem height_cons (held : Nat) (token : Token) (tokens : Program) :
    height held (token :: tokens) = max held (height (heldBehind held token) tokens) := by
  cases token <;> simp only [height, peakFrom, heldBehind] <;> omega

theorem height_zero (program : Program) : height 0 program = program.peak := Nat.zero_max _

/-- **A token that can be run changes the stack as it changes the count.** -/
theorem length_of_step {token : Token} {stack next : Stack Float}
    (h : step values token stack = .ok next) :
    next.length = heldBehind stack.length token := by
  cases token with
  | number | constant =>
      cases h
      rfl
  | var name slot =>
      cases slot with
      | none => exact absurd h (by simp [step])
      | some i =>
          cases hvalue : values[i]? with
          | none => exact absurd h (by simp [step, hvalue])
          | some value =>
              simp only [step, hvalue] at h
              cases h
              rfl
  | operator op =>
      cases stack with
      | nil => exact absurd h (by simp [step])
      | cons right rest =>
          cases rest with
          | nil => exact absurd h (by simp [step])
          | cons left below =>
              cases h
              rfl
  | negate | function =>
      cases stack with
      | nil => exact absurd h (by simp [step])
      | cons top below =>
          cases h
          rfl
  | leftParen | rightParen => exact absurd h (by simp [step])

theorem length_residue_le (token : Token) (stack : Stack Float) :
    (residue token stack).length ≤ stack.length := by
  unfold residue
  split
  · rw [List.length_tail]
    omega
  · exact Nat.le_refl _

/-- **No stack of a run is higher than the count.** -/
theorem length_le_of_mem_traceOn {program : Program} :
    ∀ {stack s : Stack Float}, s ∈ traceOn values stack program →
      s.length ≤ height stack.length program := by
  induction program with
  | nil =>
      intro stack s hs
      obtain rfl := List.mem_singleton.mp hs
      exact Nat.le_of_eq (height_nil _).symm
  | cons token tokens ih =>
      intro stack s hs
      rw [height_cons]
      cases hstep : step values token stack with
      | ok next =>
          rw [traceOn_of_ok hstep] at hs
          rcases List.mem_cons.mp hs with rfl | hlater
          · omega
          · have hle := ih hlater
            rw [length_of_step hstep] at hle
            omega
      | error fault =>
          rw [traceOn_of_error hstep] at hs
          have hresidue := length_residue_le token stack
          rcases List.mem_cons.mp hs with rfl | hlast
          · omega
          · rw [List.mem_singleton.mp hlast]
            omega

/-- **A run that comes to its end gets as high as the count.** -/
theorem exists_mem_traceOn_of_runOn {x : Float} {program : Program} :
    ∀ {stack : Stack Float}, (runOn values stack program).1 = .ok x →
      ∃ s ∈ traceOn values stack program, s.length = height stack.length program := by
  induction program with
  | nil =>
      intro stack _
      exact ⟨stack, List.mem_singleton.mpr rfl, (height_nil _).symm⟩
  | cons token tokens ih =>
      intro stack hrun
      cases hstep : step values token stack with
      | error fault =>
          rw [runOn_of_error hstep] at hrun
          exact absurd hrun (by simp)
      | ok next =>
          rw [runOn_of_ok hstep] at hrun
          obtain ⟨s, hs, hheight⟩ := ih hrun
          rw [length_of_step hstep] at hheight
          rw [traceOn_of_ok hstep, height_cons]
          by_cases hlow : height (heldBehind stack.length token) tokens ≤ stack.length
          · exact ⟨stack, List.mem_cons_self, by omega⟩
          · exact ⟨s, List.mem_cons_of_mem _ hs, by omega⟩

/-! ## The peak -/

theorem length_le_peak {program : Program} {stack s : Stack Float}
    (h : s ∈ program.trace values stack) : s.length ≤ program.peak := by
  rw [← height_zero]
  exact length_le_of_mem_traceOn h

theorem exists_length_eq_peak {program : Program} {stack : Stack Float} {x : Float}
    (h : (program.run values stack).1 = .ok x) :
    ∃ s ∈ program.trace values stack, s.length = program.peak := by
  rw [← height_zero]
  exact exists_mem_traceOn_of_runOn h

theorem max?_trace {program : Program} {stack : Stack Float} {x : Float}
    (h : (program.run values stack).1 = .ok x) :
    ((program.trace values stack).map List.length).max? = some program.peak := by
  rw [List.max?_eq_some_iff]
  refine ⟨List.mem_map.mpr (exists_length_eq_peak h), ?_⟩
  intro height hheight
  obtain ⟨s, hs, rfl⟩ := List.mem_map.mp hheight
  exact length_le_peak hs

/-- A successful run holds its result at the end, so its peak is not zero. -/
theorem peak_pos {program : Program} {stack : Stack Float} {x : Float}
    (h : (program.run values stack).1 = .ok x) : 0 < program.peak := by
  have hleft : (program.run values stack).2 = [x] := left_of_runOn (Prod.ext h rfl)
  have hlast : [x] ∈ program.trace values stack :=
    mem_traceOn_iff.mpr ⟨program, [], (List.append_nil _).symm, hleft⟩
  exact length_le_peak hlast

/-- **A successful run fits into the peak, and into nothing less.** -/
theorem fits_iff {program : Program} {stack : Stack Float} {x : Float}
    (h : (program.run values stack).1 = .ok x) (room : Nat) :
    program.Fits values stack room ↔ program.peak ≤ room := by
  refine ⟨?_, ?_⟩
  · intro hfits
    obtain ⟨s, hs, hpeak⟩ := exists_length_eq_peak h
    exact hpeak ▸ hfits s hs
  · intro hle s hs
    exact Nat.le_trans (length_le_peak hs) hle

end Program

/--
**The peak is exact.** Whatever the sequence, the values, and what was on the stack before, a run
never holds more operands than the peak, also if it fails; and if it has a result, the most that it
holds is the peak. So a stack with room for the peak of a compiled formula never has to grow, and
with less it always has to, on any values that the formula has a result for.
-/
theorem peak_is_exact :
    (∀ (program : Program) (values : List Float) (stack : Stack Float),
      (∀ s, s ∈ program.trace values stack ↔
        ∃ before after, program = before ++ after ∧ (Program.run before values stack).2 = s) ∧
      (∀ s ∈ program.trace values stack, s.length ≤ program.peak) ∧
      ∀ x, (program.run values stack).1 = .ok x →
        ((program.trace values stack).map List.length).max? = some program.peak) ∧
    (∀ (formula : List UInt8) (declared : List String) (e : Compiled),
      compile formula declared = .ok e → ∀ (values : List Float) (stack : Stack Float),
      e.program.Fits values stack e.peak ∧
      ∀ x, (e.evaluateOn values stack).1 = .ok x →
        (∀ room, e.program.Fits values stack room ↔ e.peak ≤ room) ∧
        ¬e.program.Fits values stack (e.peak - 1)) := by
  refine ⟨?_, ?_⟩
  · intro program values stack
    exact ⟨fun s => Program.mem_traceOn_iff, fun s => Program.length_le_peak,
      fun x => Program.max?_trace⟩
  · intro formula declared e h values stack
    obtain ⟨_, _, _, _, hpeak⟩ := compile_eq_ok_iff.mp h
    rw [hpeak]
    refine ⟨fun s => Program.length_le_peak, ?_⟩
    intro x hx
    refine ⟨Program.fits_iff hx, ?_⟩
    rw [Program.fits_iff hx]
    have hpos := Program.peak_pos hx
    omega

/-- `(x+y)/(x-y)` on a stack that has been used: three operands are held at most, and two are not
enough. -/
theorem peak_of_quotient :
    ∃ e, compile [40, 120, 43, 121, 41, 47, 40, 120, 45, 121, 41] ["x", "y"] = .ok e ∧
      (∃ x, (e.evaluateOn [5.0, 10.0] [99.0, 98.0]).1 = .ok x) ∧
      ((e.program.trace [5.0, 10.0] [99.0, 98.0]).map List.length).max? = some 3 ∧
      ¬e.program.Fits [5.0, 10.0] [99.0, 98.0] 2 := by
  have h : compile [40, 120, 43, 121, 41, 47, 40, 120, 45, 121, 41] ["x", "y"] =
      .ok ⟨[.var "x" (some 0), .var "y" (some 1), .operator .add, .var "x" (some 0),
        .var "y" (some 1), .operator .subtract, .operator .divide], ["x", "y"], 3⟩ := by
    decide +kernel
  obtain ⟨hrun, hcompiled⟩ := peak_is_exact
  obtain ⟨_, hexact⟩ := hcompiled _ _ _ h [5.0, 10.0] [99.0, 98.0]
  have hresult : (Compiled.evaluateOn ⟨[.var "x" (some 0), .var "y" (some 1), .operator .add,
      .var "x" (some 0), .var "y" (some 1), .operator .subtract, .operator .divide], ["x", "y"], 3⟩
      [5.0, 10.0] [99.0, 98.0]).1 = .ok ((5.0 + 10.0) / (5.0 - 10.0)) := rfl
  exact ⟨_, h, ⟨_, hresult⟩, (hrun _ _ _).2.2 _ hresult, (hexact _ hresult).2⟩

end Formula
