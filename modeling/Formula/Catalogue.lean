import Formula.Constant
import Formula.Function
import Formula.Operator

/-!
# Looking names up

The tables of operators, functions and constants as a caller sees them: what a given name stands for
in each, and what the operator or the function of that name computes.

A name is found in a table just if it is there, and it is in one table at most
(`Entry.ofName_unique`). So nothing depends on the order in which the tables are looked at.
-/

namespace Formula

/-- The only character of a text, if it holds exactly one. -/
def onlyChar? (text : String) : Option Char :=
  match text.toList with
  | [c] => some c
  | _ => none

/-- The operator that a character writes, or the character if it writes none. -/
def operatorOf (c : Char) : Except Char Operator :=
  match Operator.ofSymbol? c with
  | some op => .ok op
  | none => .error c

/-- What a name stands for in each table. -/
structure Entry where
  /-- For a name of one character, the operator it writes, or the character if it writes none. -/
  operator : Option (Except Char Operator)
  function : Option Function
  constant : Option Constant

/-- Looks a name up in every table. -/
def Entry.ofName (name : String) : Entry where
  operator := (onlyChar? name).map operatorOf
  function := Function.ofName? name
  constant := Constant.ofName? name

/-- A function or an operator that a caller applies to numbers of its own. -/
inductive Computation where
  | function (f : Function)
  | operator (op : Operator)
  deriving DecidableEq, Repr

/--
The function of a name, or else the operator that its first character writes, or else that
character. A name without characters is answered by a space.
-/
def Computation.ofName (name : String) : Except Char Computation :=
  match Function.ofName? name with
  | some f => .ok (.function f)
  | none => (operatorOf (name.toList.headD ' ')).map .operator

/-! ## What is found -/

theorem onlyChar?_eq_some_iff {text : String} {c : Char} :
    onlyChar? text = some c ↔ text = String.singleton c := by
  rw [← String.toList_inj, String.toList_singleton, onlyChar?]
  split
  · rename_i d htext
    rw [htext]
    simp
  · rename_i hnot
    refine ⟨fun h => absurd h (by simp), ?_⟩
    intro htext
    exact absurd htext (hnot c)

theorem operatorOf_eq_ok_iff {c : Char} {op : Operator} :
    operatorOf c = .ok op ↔ op.symbol = c := by
  rw [← Operator.ofSymbol?_eq_some_iff, operatorOf]
  cases Operator.ofSymbol? c <;> simp

theorem operatorOf_eq_error_iff {c d : Char} :
    operatorOf c = .error d ↔ c = d ∧ ∀ op : Operator, op.symbol ≠ c := by
  simp only [ne_eq, ← Operator.ofSymbol?_eq_some_iff, operatorOf]
  cases Operator.ofSymbol? c <;> simp

theorem Function.name_ne_constant (f : Function) (c : Constant) : f.name ≠ c.name := by
  have hall : all.all (fun f => Constant.all.all fun c => f.name ≠ c.name) = true := by decide
  exact of_decide_eq_true (List.all_eq_true.mp (List.all_eq_true.mp hall f f.mem_all) c c.mem_all)

/-- No name starts as an operator does. -/
theorem Function.head?_name_ne (f : Function) (op : Operator) :
    f.name.toList.head? ≠ some op.symbol := by
  have hall : all.all (fun f => f.name.toList.head?.any fun c => c.isLower) = true := by decide
  have hlower := List.all_eq_true.mp hall f f.mem_all
  intro hhead
  rw [hhead] at hlower
  cases op <;> exact absurd hlower (by decide)

theorem Constant.head?_name_ne (c : Constant) (op : Operator) :
    c.name.toList.head? ≠ some op.symbol := by
  have hall : all.all (fun c => c.name.toList.head?.any fun d => d.isUpper) = true := by decide
  have hupper := List.all_eq_true.mp hall c c.mem_all
  intro hhead
  rw [hhead] at hupper
  cases op <;> exact absurd hupper (by decide)

/-- **Each table has what it is asked for**, and nothing else. -/
theorem Entry.ofName_spec (name : String) :
    (∀ f, (ofName name).function = some f ↔ f.name = name) ∧
    (∀ c, (ofName name).constant = some c ↔ c.name = name) ∧
    (∀ op, (ofName name).operator = some (.ok op) ↔ name = String.singleton op.symbol) ∧
    ∀ c, (ofName name).operator = some (.error c) ↔
      name = String.singleton c ∧ ∀ op : Operator, op.symbol ≠ c := by
  refine ⟨fun f => Function.ofName?_eq_some_iff, fun c => Constant.ofName?_eq_some_iff, ?_, ?_⟩
  · intro op
    simp only [ofName, Option.map_eq_some_iff, onlyChar?_eq_some_iff, operatorOf_eq_ok_iff]
    exact ⟨fun ⟨c, hname, hc⟩ => hc ▸ hname, fun h => ⟨_, h, rfl⟩⟩
  · intro c
    simp only [ofName, Option.map_eq_some_iff, onlyChar?_eq_some_iff, operatorOf_eq_error_iff]
    refine ⟨?_, fun h => ⟨c, h.1, rfl, h.2⟩⟩
    intro h
    obtain ⟨d, hname, rfl, hnone⟩ := h
    exact ⟨hname, hnone⟩

/-- **No name is in two tables.** -/
theorem Entry.ofName_unique (name : String) :
    (∀ f c, (ofName name).function = some f → (ofName name).constant ≠ some c) ∧
    (∀ f op, (ofName name).function = some f → (ofName name).operator ≠ some (.ok op)) ∧
    ∀ c op, (ofName name).constant = some c → (ofName name).operator ≠ some (.ok op) := by
  obtain ⟨hfunction, hconstant, hoperator, _⟩ := ofName_spec name
  refine ⟨?_, ?_, ?_⟩
  · intro f c hf hc
    exact f.name_ne_constant c (((hfunction f).mp hf).trans ((hconstant c).mp hc).symm)
  · intro f op hf hop
    have hname := ((hfunction f).mp hf).trans ((hoperator op).mp hop)
    exact f.head?_name_ne op (by rw [hname, String.toList_singleton]; rfl)
  · intro c op hc hop
    have hname := ((hconstant c).mp hc).trans ((hoperator op).mp hop)
    exact c.head?_name_ne op (by rw [hname, String.toList_singleton]; rfl)

/-- **A name computes what it is the name of**, or starts with; which is looked at first makes no
difference. -/
theorem Computation.ofName_spec (name : String) :
    (∀ f, ofName name = .ok (.function f) ↔ f.name = name) ∧
    (∀ op, ofName name = .ok (.operator op) ↔ name.toList.head? = some op.symbol) ∧
    ∀ c, ofName name = .error c ↔
      (∀ f : Function, f.name ≠ name) ∧ name.toList.headD ' ' = c ∧
        ∀ op : Operator, op.symbol ≠ c := by
  cases hname : Function.ofName? name with
  | some g =>
      have hfound : ofName name = .ok (.function g) := by rw [ofName, hname]
      rw [hfound]
      obtain rfl := Function.name_of_ofName?_eq_some hname
      refine ⟨?_, ?_, ?_⟩
      · intro f
        rw [← Function.ofName?_eq_some_iff, hname]
        simp
      · intro op
        exact ⟨fun h => absurd h (by simp), fun h => absurd h (g.head?_name_ne op)⟩
      · intro c
        exact ⟨fun h => absurd h (by simp), fun h => absurd rfl (h.1 g)⟩
  | none =>
      have hfound : ofName name = (operatorOf (name.toList.headD ' ')).map .operator := by
        rw [ofName, hname]
      have hfree := Function.ofName?_eq_none_iff.mp hname
      rw [hfound]
      refine ⟨?_, ?_, ?_⟩
      · intro f
        refine ⟨?_, fun h => absurd h (hfree f)⟩
        cases operatorOf (name.toList.headD ' ') <;> simp [Except.map]
      · intro op
        have hhead : name.toList.head? = some op.symbol ↔ op.symbol = name.toList.headD ' ' := by
          cases name.toList with
          | nil => cases op <;> decide
          | cons c cs => simp [eq_comm]
        rw [hhead, ← operatorOf_eq_ok_iff]
        cases operatorOf (name.toList.headD ' ') <;> simp [Except.map]
      · intro c
        rw [← operatorOf_eq_error_iff.trans (and_congr_right fun h => by rw [h])]
        cases operatorOf (name.toList.headD ' ') <;> simp [Except.map, hfree]

end Formula
