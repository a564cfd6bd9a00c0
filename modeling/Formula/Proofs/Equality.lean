import Formula.Proofs.Binding
import Formula.Proofs.Compiling
import Formula.Proofs.ExactValue
import Formula.Proofs.Placing
import Formula.Proofs.Spelling

/-!
# When compiled formulas are the same

Formulas are compared token by token, and their numbers as numbers: zero is then the same as
negative zero, and a NaN is not the same as itself. On token sequences at large that is no
equality. On what compiles it is: the numbers of a compiled formula are those that literals denote,
which are finite and have no sign.

* Among plain numbers the comparison tells one from another (`beq_iff_eq_of_plain`): taken apart
  they are the same, so they have one value, and a plain number is told by its value.
* A program holds the tokens of its formula and no others (`exists_readable_of_mem_program`), so its
  numbers are plain.

Names and peak are read off the program, so nothing but the program has to be compared.
-/

namespace Formula

namespace Binary64

open Float.Model (UnpackedFloat)
open Float.Model.UnpackedFloat

/-! ## Comparing plain numbers -/

/-- A number that is taken apart is finite and has a clear sign bit. -/
inductive Unsigned : UnpackedFloat → Prop where
  | zero : Unsigned (.zero .positive)
  | finite (significand : Nat) (exponent : Int) (h : 0 < significand) :
      Unsigned (.finite .positive significand exponent h)

theorem sign_of_plain {x : Float} (hx : Plain x) : sign x = .positive := by
  have hclear : x.toBits.toNat < signBit := by
    have hunsigned := hx.unsigned
    rwa [isNegative, decide_eq_false_iff_not, Nat.not_le] at hunsigned
  have hbit : @unpackSign .binary64 x.toBits.toBitVec = 0#1 := by
    rw [← BitVec.toNat_inj, toNat_signBit]
    exact Nat.div_eq_of_lt hclear
  rw [sign, hbit]
  rfl

theorem unsigned_of_plain {x : Float} (hx : Plain x) : Unsigned x.toModel.unpack := by
  have hfinite : exponentBits x ≠ -1#11 :=
    mt (exponentBits_eq_iff x).mp (Nat.not_le.mpr hx.finite)
  rw [unpack_eq, if_neg hfinite, sign_of_plain hx]
  by_cases hsubnormal : exponentBits x = 0#11
  · rw [if_pos hsubnormal]
    by_cases hzero : significandBits x = 0#52
    · rw [dif_pos hzero]
      exact .zero
    · rw [dif_neg hzero]
      exact .finite _ _ _
  · rw [if_neg hsubnormal]
    exact .finite _ _ _

theorem regular_of_unsigned {u : UnpackedFloat} (hu : Unsigned u) :
    u.isNaN = false ∧ u.isInf = false := by
  cases hu <;> exact ⟨rfl, rfl⟩

theorem compare_self {u : UnpackedFloat} (hu : Unsigned u) : u.compare u = some .eq := by
  cases hu with
  | zero => rfl
  | finite significand exponent =>
      have hsame : (compare exponent exponent).then (compare significand significand) = .eq := by
        simp
      exact congrArg some hsame

theorem eq_of_compare {u v : UnpackedFloat} (hu : Unsigned u) (hv : Unsigned v)
    (h : u.compare v = some .eq) : u = v := by
  cases hu with
  | zero =>
      cases hv with
      | zero => rfl
      | finite => exact nomatch h
  | finite m e =>
      cases hv with
      | zero => exact nomatch h
      | finite n f =>
          have hparts : (compare e f).then (compare m n) = .eq := Option.some.inj h
          rw [Ordering.then_eq_eq] at hparts
          obtain rfl : e = f := Int.compare_eq_eq.mp hparts.1
          obtain rfl : m = n := Nat.compare_eq_eq.mp hparts.2
          rfl

/-- A plain number is told by its value. -/
theorem eq_of_value? {x y : Float} (hx : Plain x) (hy : Plain y) (h : value? x = value? y) :
    x = y := by
  have hunit : (unitsPerOne : ℚ) ≠ 0 := unitsPerOne_pos.ne'
  have hvalue : ∀ {z : Float}, Plain z →
      value? z = some (units (magnitude z) / unitsPerOne : ℚ) := by
    intro z hz
    rw [value?_eq, if_pos hz.finite, signFactor, hz.unsigned, if_neg Bool.false_ne_true, one_mul]
  rw [hvalue hx, hvalue hy, Option.some.injEq, div_left_inj' hunit, Nat.cast_inj] at h
  have hmagnitude : magnitude x = magnitude y := units_strictMono.injective h
  rw [← ofPattern_magnitude hx, ← ofPattern_magnitude hy]
  simp only [hmagnitude]

/-- **Among plain numbers, to be equal is to be one number.** -/
theorem beq_iff_eq_of_plain {x y : Float} (hx : Plain x) (hy : Plain y) :
    (x == y) = true ↔ x = y := by
  have hcompare : (x == y) = true ↔ x.toModel.unpack.compare y.toModel.unpack = some .eq :=
    beq_iff_eq (a := x.toModel.unpack.compare y.toModel.unpack)
  rw [hcompare]
  refine ⟨?_, ?_⟩
  · intro h
    have hunpack := eq_of_compare (unsigned_of_plain hx) (unsigned_of_plain hy) h
    exact eq_of_value? hx hy (congrArg unpackedValue? hunpack)
  · rintro rfl
    exact compare_self (unsigned_of_plain hx)

/-- A plain number is no NaN, no infinity and not negative zero. -/
theorem regular_of_plain {x : Float} (hx : Plain x) :
    x.isNaN = false ∧ x.isInf = false ∧ x ≠ -0.0 := by
  obtain ⟨hNaN, hinfinite⟩ := regular_of_unsigned (unsigned_of_plain hx)
  refine ⟨hNaN, hinfinite, ?_⟩
  rintro rfl
  exact absurd hx.unsigned (by decide +kernel)

end Binary64

/-! ## Comparing tokens -/

/-- A number among tokens is plain. -/
def Token.Plain : Token → Prop
  | .number x => Binary64.Plain x
  | _ => True

theorem Token.same_iff_eq {a b : Token} (ha : a.Plain) (hb : b.Plain) :
    a.same b = true ↔ a = b := by
  cases a with
  | number x =>
      cases b with
      | number y =>
          rw [Token.number.injEq]
          exact Binary64.beq_iff_eq_of_plain ha hb
      | _ => simp [Token.same]
  | _ => simp [Token.same]

theorem sameTokens_iff_eq {ts us : List Token} (hts : ∀ t ∈ ts, t.Plain) (hus : ∀ t ∈ us, t.Plain) :
    sameTokens ts us = true ↔ ts = us := by
  induction ts generalizing us with
  | nil => cases us <;> simp [sameTokens]
  | cons t ts ih =>
      cases us with
      | nil => simp [sameTokens]
      | cons u us =>
          obtain ⟨ht, hts⟩ := List.forall_mem_cons.mp hts
          obtain ⟨hu, hus⟩ := List.forall_mem_cons.mp hus
          rw [sameTokens, Bool.and_eq_true, Token.same_iff_eq ht hu, ih hts hus, List.cons.injEq]

/-- Of numbers that no formula can say, one is not the same as itself, and two are the same. -/
example : sameTokens [.number (0.0 / 0.0)] [.number (0.0 / 0.0)] = false ∧
    sameTokens [.number 0.0] [.number (-0.0)] = true := by
  decide +kernel

/-! ## What compiles -/

/-- **A program holds the tokens of its formula and no others**, each with its slot. -/
theorem exists_readable_of_mem_program {formula : List UInt8} {declared : List String}
    {e : Compiled} (h : compile formula declared = .ok e) {token : Token}
    (hmem : token ∈ e.program) : ∃ t : Token, t.Readable ∧ token = t.bind declared := by
  obtain ⟨tokens, hparse, hresolve, _⟩ := compile_eq_ok_iff.mp h
  obtain ⟨_, hprogram⟩ := Program.resolve_eq_ok_iff.mp hresolve
  rw [hprogram] at hmem
  rcases Program.mem_of_mem_arrange hmem with hnone | hbound
  · exact absurd hnone (by simp)
  · obtain ⟨t, ht, rfl⟩ := List.mem_map.mp hbound
    exact ⟨t, (spellable_of_parse hparse).readable t ht, rfl⟩

namespace Compiled

/-- Some formula compiles to it. -/
def Stems (e : Compiled) : Prop := ∃ formula declared, compile formula declared = .ok e

variable {e f : Compiled}

theorem Stems.plain (he : e.Stems) : ∀ t ∈ e.program, t.Plain := by
  obtain ⟨formula, declared, hcompile⟩ := he
  intro token htoken
  obtain ⟨t, ht, rfl⟩ := exists_readable_of_mem_program hcompile htoken
  cases t with
  | number x => exact ht
  | _ => trivial

/-- What stems from a formula is its program; all else is read off that. -/
theorem Stems.eq_of_program (he : e.Stems) (hf : f.Stems) (h : e.program = f.program) : e = f := by
  obtain ⟨_, _, hecompile⟩ := he
  obtain ⟨_, _, hfcompile⟩ := hf
  obtain ⟨_, _, _, henames, hepeak⟩ := compile_eq_ok_iff.mp hecompile
  obtain ⟨_, _, _, hfnames, hfpeak⟩ := compile_eq_ok_iff.mp hfcompile
  obtain ⟨program, names, peak⟩ := e
  obtain ⟨program', names', peak'⟩ := f
  obtain rfl : program = program' := h
  obtain rfl : names = names' := henames.trans hfnames.symm
  obtain rfl : peak = peak' := hepeak.trans hfpeak.symm
  rfl

/-- **Compiled formulas are the same just when they are one.** -/
theorem same_iff_eq (he : e.Stems) (hf : f.Stems) : e.same f = true ↔ e = f := by
  have hprogram := sameTokens_iff_eq he.plain hf.plain
  refine ⟨?_, ?_⟩
  · intro h
    simp only [same, Bool.and_eq_true] at h
    exact he.eq_of_program hf (hprogram.mp h.1.1)
  · rintro rfl
    simp [same, hprogram.mpr rfl]

end Compiled

/--
**On compiled formulas, being the same is an equality.** It holds of each and itself, for no number
among their tokens is a NaN, an infinity or negative zero, it can be turned round, and it can be
chained. Formulas that are the same have the same outcome on any values, and are shown alike. And
they are the same as soon as their programs are, whatever was declared for each.
-/
theorem same_is_equality :
    (∀ e : Compiled, e.Stems → e.same e = true ∧
      ∀ x, .number x ∈ e.program → x.isNaN = false ∧ x.isInf = false ∧ x ≠ -0.0) ∧
    (∀ e f : Compiled, e.Stems → f.Stems → e.same f = true → f.same e = true) ∧
    (∀ e f g : Compiled, e.Stems → f.Stems → g.Stems →
      e.same f = true → f.same g = true → e.same g = true) ∧
    (∀ e f : Compiled, e.Stems → f.Stems → e.same f = true →
      (∀ values, e.evaluate values = f.evaluate values) ∧ e.text = f.text) ∧
    ∀ e f : Compiled, e.Stems → f.Stems →
      sameTokens e.program f.program = true → e.same f = true := by
  refine ⟨?_, ?_, ?_, ?_, ?_⟩
  · intro e he
    exact ⟨(Compiled.same_iff_eq he he).mpr rfl,
      fun x hx => Binary64.regular_of_plain (he.plain _ hx)⟩
  · intro e f he hf h
    obtain rfl := (Compiled.same_iff_eq he hf).mp h
    exact h
  · intro e f g he hf hg hef hfg
    obtain rfl := (Compiled.same_iff_eq he hf).mp hef
    exact hfg
  · intro e f he hf h
    obtain rfl := (Compiled.same_iff_eq he hf).mp h
    exact ⟨fun _ => rfl, rfl⟩
  · intro e f he hf h
    have hprogram := (sameTokens_iff_eq he.plain hf.plain).mp h
    exact (Compiled.same_iff_eq he hf).mpr (he.eq_of_program hf hprogram)

/-- `x + (1)` where `x` is declared, and `x+1.0` where `y` is as well. -/
theorem same_in_two_spellings :
    ∃ e f, compile [120, 32, 43, 32, 40, 49, 41] ["x"] = .ok e ∧
      compile [120, 43, 49, 46, 48] ["x", "y"] = .ok f ∧ e.same f = true ∧
      (∀ values, e.evaluate values = f.evaluate values) ∧ e.text = f.text := by
  have he : compile [120, 32, 43, 32, 40, 49, 41] ["x"] =
      .ok ⟨[.var "x" (some 0), .number 1.0, .operator .add], ["x"], 2⟩ := by
    decide +kernel
  have hf : compile [120, 43, 49, 46, 48] ["x", "y"] =
      .ok ⟨[.var "x" (some 0), .number 1.0, .operator .add], ["x"], 2⟩ := by
    decide +kernel
  obtain ⟨_, _, _, hsound, hprogram⟩ := same_is_equality
  have hsame := hprogram _ _ ⟨_, _, he⟩ ⟨_, _, hf⟩ (by decide +kernel)
  exact ⟨_, _, he, hf, hsame, hsound _ _ ⟨_, _, he⟩ ⟨_, _, hf⟩ hsame⟩

end Formula
