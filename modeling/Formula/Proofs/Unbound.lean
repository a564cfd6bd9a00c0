import Formula.Proofs.Valuation

/-!
# Names that nobody declared

A sequence is walked to its end even when a name in it is not declared, and all such names are
reported together. Which they are does not depend on where they stand or how often: it is the set of
names read less the set of those declared. The report is in increasing order, without repetition,
and an increasing list is settled by its members (`eq_of_same_names`).

So declaring more names takes just these out of the report, and nothing else changes
(`unboundNames_append`). The text of a formula is looked at before its names are: what is wrong with
it is found whatever is declared.
-/

namespace Formula

/-! ## Names in order -/

/-- A name put in its place leaves the names increasing. -/
theorem pairwise_insertName (name : String) {names : List String} (h : names.Pairwise (· < ·)) :
    (insertName name names).Pairwise (· < ·) := by
  induction names with
  | nil => exact List.pairwise_singleton _ _
  | cons first others ih =>
      obtain ⟨hfirst, hothers⟩ := List.pairwise_cons.mp h
      unfold insertName
      split
      · rename_i hlt
        refine List.pairwise_cons.mpr ⟨?_, h⟩
        intro other hother
        rcases List.mem_cons.mp hother with rfl | hmem
        · exact hlt
        · exact String.lt_trans hlt (hfirst other hmem)
      · rename_i hnot
        split
        · exact h
        · rename_i hne
          refine List.pairwise_cons.mpr ⟨?_, ih hothers⟩
          intro other hother
          rcases mem_insertName.mp hother with rfl | hmem
          · apply String.not_le.mp
            intro hle
            exact hne (String.le_antisymm hle (String.not_lt.mp hnot))
          · exact hfirst other hmem

theorem pairwise_sortedNames (names : List String) : (sortedNames names).Pairwise (· < ·) := by
  induction names with
  | nil => exact .nil
  | cons first others ih => exact pairwise_insertName first ih

theorem nodup_of_increasing {names : List String} (h : names.Pairwise (· < ·)) : names.Nodup := by
  refine h.imp ?_
  intro a b hlt heq
  rw [heq] at hlt
  exact String.lt_irrefl b hlt

/-- **Names in increasing order are one list, if they are the same names.** -/
theorem eq_of_same_names {names others : List String} (h : names.Pairwise (· < ·))
    (hothers : others.Pairwise (· < ·)) (hsame : ∀ name, name ∈ names ↔ name ∈ others) :
    names = others := by
  have hperm : names.Perm others :=
    (List.perm_ext_iff_of_nodup (nodup_of_increasing h) (nodup_of_increasing hothers)).mpr hsame
  refine hperm.eq_of_pairwise ?_ h hothers
  intro a b _ _ hab hba
  exact absurd (String.lt_trans hab hba) (String.lt_irrefl a)

/-! ## Unbound names -/

/-- **More declarations take their names out of the report**, and do nothing else to it. -/
theorem unboundNames_append (declared extra : List String) (tokens : List Token) :
    unboundNames (declared ++ extra) tokens =
      (unboundNames declared tokens).filter (· ∉ extra) := by
  refine eq_of_same_names (pairwise_sortedNames _) ((pairwise_sortedNames _).filter _) ?_
  intro name
  rw [List.mem_filter, mem_unboundNames, mem_unboundNames, List.mem_append, decide_eq_true_eq,
    not_or, and_assoc]

/-- **What is reported is what is read and not declared.** -/
theorem resolve_error_spec {declared names : List String} {tokens : List Token}
    (h : Program.resolve declared tokens = .error names) :
    names.Pairwise (· < ·) ∧
      ∀ name, name ∈ names ↔ (∃ slot, .var name slot ∈ tokens) ∧ name ∉ declared := by
  obtain ⟨rfl, _⟩ := Program.resolve_eq_error_iff.mp h
  refine ⟨pairwise_sortedNames _, ?_⟩
  intro name
  rw [mem_unboundNames, mem_readNames]

theorem exists_resolve_error_iff {declared : List String} {tokens : List Token} :
    (∃ names, Program.resolve declared tokens = .error names) ↔
      ∃ name slot, .var name slot ∈ tokens ∧ name ∉ declared := by
  refine ⟨?_, ?_⟩
  · intro h
    obtain ⟨names, hnames⟩ := h
    obtain ⟨rfl, hne⟩ := Program.resolve_eq_error_iff.mp hnames
    obtain ⟨name, hname⟩ := List.exists_mem_of_ne_nil _ hne
    obtain ⟨hread, hunbound⟩ := mem_unboundNames.mp hname
    obtain ⟨slot, hslot⟩ := mem_readNames.mp hread
    exact ⟨name, slot, hslot, hunbound⟩
  · intro h
    obtain ⟨name, slot, hslot, hunbound⟩ := h
    refine ⟨_, Program.resolve_eq_error_iff.mpr ⟨rfl, ?_⟩⟩
    exact List.ne_nil_of_mem (mem_unboundNames.mpr ⟨mem_readNames.mpr ⟨slot, hslot⟩, hunbound⟩)

/-! ## Compiling -/

/-- **With the unbound names declared too, a formula compiles.** -/
theorem exists_compile_append {formula : List UInt8} {declared names extra : List String}
    (h : compile formula declared = .error (.unbound names))
    (hextra : ∀ name ∈ names, name ∈ extra) :
    ∃ e, compile formula (declared ++ extra) = .ok e := by
  obtain ⟨tokens, hparse, hresolve⟩ := compile_eq_unbound_iff.mp h
  obtain ⟨rfl, _⟩ := Program.resolve_eq_error_iff.mp hresolve
  obtain ⟨t, _, hcompile⟩ := exists_tree_of_parse hparse
  refine ⟨_, hcompile _ ?_⟩
  intro name hname
  by_cases hdeclared : name ∈ declared
  · exact List.mem_append_left _ hdeclared
  · exact List.mem_append_right _ (hextra name (mem_unboundNames.mpr ⟨hname, hdeclared⟩))

/-- **With some of them declared, the others are reported.** -/
theorem compile_append_eq_unbound {formula : List UInt8} {declared names extra : List String}
    (h : compile formula declared = .error (.unbound names))
    (hextra : ¬∀ name ∈ names, name ∈ extra) :
    compile formula (declared ++ extra) = .error (.unbound (names.filter (· ∉ extra))) := by
  obtain ⟨tokens, hparse, hresolve⟩ := compile_eq_unbound_iff.mp h
  obtain ⟨rfl, _⟩ := Program.resolve_eq_error_iff.mp hresolve
  refine compile_eq_unbound_iff.mpr ⟨tokens, hparse, ?_⟩
  refine Program.resolve_eq_error_iff.mpr ⟨unboundNames_append declared extra tokens, ?_⟩
  intro hnil
  apply hextra
  intro name hname
  have hfound := List.filter_eq_nil_iff.mp hnil name hname
  simpa using hfound

/--
**Unbound names are reported exactly.** A sequence fails to resolve just when it reads a name that
nobody declared, and the report has all of these, in increasing order and once each. In a formula,
what is wrong with the text is reported first, whatever is declared. If names are unbound, declaring
more names makes the formula compile when these are among them, and else the report is what is left.
-/
theorem unbound_names_reported :
    (∀ (declared : List String) (tokens : List Token),
      ((∃ names, Program.resolve declared tokens = .error names) ↔
        ∃ name slot, .var name slot ∈ tokens ∧ name ∉ declared) ∧
      ∀ names, Program.resolve declared tokens = .error names →
        names.Pairwise (· < ·) ∧
          ∀ name, name ∈ names ↔ (∃ slot, .var name slot ∈ tokens) ∧ name ∉ declared) ∧
    (∀ (formula : List UInt8) (error : SyntaxError),
      parse (.ofBytes formula) = .error error →
      ∀ declared, compile formula declared = .error (.malformed error)) ∧
    (∀ (formula : List UInt8) (declared : List String) (error : SyntaxError),
      compile formula declared = .error (.malformed error) →
      ∀ others, compile formula others = .error (.malformed error)) ∧
    (∀ (formula : List UInt8) (declared names : List String),
      compile formula declared = .error (.unbound names) →
      ∀ extra,
        ((∀ name ∈ names, name ∈ extra) → ∃ e, compile formula (declared ++ extra) = .ok e) ∧
        ((¬∀ name ∈ names, name ∈ extra) →
          compile formula (declared ++ extra) =
            .error (.unbound (names.filter (· ∉ extra))))) := by
  refine ⟨?_, ?_, ?_, ?_⟩
  · intro declared tokens
    exact ⟨exists_resolve_error_iff, fun names => resolve_error_spec⟩
  · intro formula error hparse declared
    exact compile_eq_malformed_iff.mpr hparse
  · intro formula declared error h others
    exact compile_eq_malformed_iff.mpr (compile_eq_malformed_iff.mp h)
  · intro formula declared names h extra
    exact ⟨exists_compile_append h, compile_append_eq_unbound h⟩

/-- `b+a` with nothing declared, and then with `b`. -/
theorem unbound_names_of_sum :
    compile [98, 43, 97] [] = .error (.unbound ["a", "b"]) ∧
      compile [98, 43, 97] ([] ++ ["b"]) = .error (.unbound ["a"]) := by
  have h : compile [98, 43, 97] [] = .error (.unbound ["a", "b"]) := by decide +kernel
  obtain ⟨_, _, _, hextra⟩ := unbound_names_reported
  obtain ⟨_, hothers⟩ := hextra _ _ _ h ["b"]
  exact ⟨h, hothers (by decide)⟩

end Formula
