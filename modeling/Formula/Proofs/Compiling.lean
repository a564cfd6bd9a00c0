import Formula.Compiled

/-!
# What compiling comes to

Compiling ends in one of three ways, and each is told by the stage at which it ends: the text is not
read, its names are not all declared, or there is a program. What a compiled formula lists besides
its program is read off the program.
-/

namespace Formula

variable {formula : List UInt8} {declared : List String}

/-- The text is looked at before its names are, and whatever is declared. -/
theorem compile_eq_malformed_iff {e : SyntaxError} :
    compile formula declared = .error (.malformed e) ↔ parse (.ofBytes formula) = .error e := by
  unfold compile
  cases parse (.ofBytes formula) with
  | error e' => simp
  | ok tokens => cases hresolve : Program.resolve declared tokens <;> simp [compileTokens, hresolve]

/-- Names are looked at when the text has been read. -/
theorem compile_eq_unbound_iff {names : List String} :
    compile formula declared = .error (.unbound names) ↔
      ∃ tokens, parse (.ofBytes formula) = .ok tokens ∧
        Program.resolve declared tokens = .error names := by
  unfold compile
  cases parse (.ofBytes formula) with
  | error e => simp
  | ok tokens =>
      cases hresolve : Program.resolve declared tokens <;> simp [compileTokens, hresolve]

/-- **What compiles has been read and resolved.** -/
theorem compile_eq_ok_iff {e : Compiled} :
    compile formula declared = .ok e ↔
      ∃ tokens, parse (.ofBytes formula) = .ok tokens ∧
        Program.resolve declared tokens = .ok e.program ∧
        e.names = e.program.names ∧ e.peak = e.program.peak := by
  unfold compile
  cases parse (.ofBytes formula) with
  | error e' => simp
  | ok tokens =>
      cases hresolve : Program.resolve declared tokens with
      | error names => simp [compileTokens, hresolve]
      | ok program =>
          simp only [compileTokens, hresolve, Except.ok.injEq, exists_eq_left']
          refine ⟨?_, ?_⟩
          · rintro rfl
            exact ⟨rfl, rfl, rfl⟩
          · intro h
            obtain ⟨rfl, hnames, hpeak⟩ := h
            rw [← hnames, ← hpeak]

end Formula
