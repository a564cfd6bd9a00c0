import Mathlib.Control.Monad.Basic
import Formula.Proofs.Encoding
import Formula.Proofs.Evaluation
import Formula.Proofs.Lexing

/-!
# Formulas made of formulas

A formula between parentheses is a unit of any other, and means there what it means alone. Every
stage has a part in this: the text between the parentheses is cut into the same lexemes, they are a
phrase one unit deeper, its tokens denote the same tree, and the tree is listed the same wherever it
stands.

What a program's peak and its names are follows from the listing: a right operand is computed above
the one value of the left, and brings only the names that the left did not read.
-/

namespace Formula

/-! ## Peaks and names of a listing -/

namespace Program

/-- Above whatever is held before, the program reaches its own peak and leaves one operand. -/
def PushesOne (program : Program) : Prop :=
  ∀ (held : Nat) (rest : Program),
    peakFrom held (program ++ rest) = max (held + program.peak) (peakFrom (held + 1) rest)

theorem peak_append_unary {token : Token} (htoken : token = .negate ∨ ∃ f, token = .function f)
    {program : Program} (h : PushesOne program) : peak (program ++ [token]) = program.peak := by
  rw [peak, h]
  rcases htoken with rfl | ⟨f, rfl⟩ <;> simp [peakFrom]

theorem pushesOne_unary {token : Token} (htoken : token = .negate ∨ ∃ f, token = .function f)
    {program : Program} (h : PushesOne program) : PushesOne (program ++ [token]) := by
  intro held rest
  rw [peak_append_unary htoken h, List.append_assoc, h]
  rcases htoken with rfl | ⟨f, rfl⟩ <;> rfl

/-- The right operand is computed above the value of the left one. -/
theorem peak_append_binary {left right : Program} (hl : PushesOne left) (hr : PushesOne right)
    (op : Operator) : peak (left ++ right ++ [.operator op]) = max left.peak (1 + right.peak) := by
  rw [peak, List.append_assoc, hl, hr]
  simp [peakFrom]

theorem pushesOne_binary {left right : Program} (hl : PushesOne left) (hr : PushesOne right)
    (op : Operator) : PushesOne (left ++ right ++ [.operator op]) := by
  intro held rest
  have hop : peakFrom (held + 1 + 1) (.operator op :: rest) = peakFrom (held + 1) rest := rfl
  rw [peak_append_binary hl hr, List.append_assoc, List.append_assoc, hl, hr,
    List.singleton_append, hop]
  omega

/-- **A listing leaves one operand.** -/
theorem pushesOne_listing (declared : List String) (t : Tree) :
    PushesOne (t.listing declared) := by
  induction t with
  | constant | number | var =>
      intro held rest
      simp [Tree.listing, peak, peakFrom]
  | negate t ih => exact pushesOne_unary (Or.inl rfl) ih
  | call f t ih => exact pushesOne_unary (Or.inr ⟨f, rfl⟩) ih
  | binary op l r ihl ihr => exact pushesOne_binary ihl ihr op

end Program

/-- Collecting distinct names behind some that are there already adds those that are not. -/
theorem foldl_distinct (names : List String) :
    ∀ seen : List String,
      names.foldl (fun seen name => if name ∈ seen then seen else seen ++ [name]) seen =
        seen ++ (distinctNames names).filter (· ∉ seen) := by
  induction names with
  | nil =>
      intro seen
      simp [distinctNames]
  | cons name names ih =>
      intro seen
      have hfirst : distinctNames (name :: names) =
          name :: (distinctNames names).filter (· ∉ [name]) := ih [name]
      rw [List.foldl_cons, ih, hfirst]
      by_cases hname : name ∈ seen
      · rw [if_pos hname, List.filter_cons_of_neg (by simpa using hname), List.filter_filter]
        refine congrArg (seen ++ ·) (List.filter_congr ?_)
        intro other _
        by_cases hother : other = name <;> simp [hother, hname]
      · rw [if_neg hname, List.filter_cons_of_pos (by simpa using hname), List.filter_filter,
          List.append_assoc, List.singleton_append]
        refine congrArg (seen ++ name :: ·) (List.filter_congr ?_)
        intro other _
        simp [Bool.and_comm]

theorem distinctNames_append (names others : List String) :
    distinctNames (names ++ others) =
      distinctNames names ++ (distinctNames others).filter (· ∉ distinctNames names) := by
  rw [distinctNames, List.foldl_append]
  exact foldl_distinct others _

/-! ## Compiled formulas and their trees -/

/-- What a formula compiles to, by the tree that it denotes. -/
def Tree.compiled (declared : List String) (t : Tree) : Compiled :=
  ⟨t.listing declared, (t.listing declared).names, (t.listing declared).peak⟩

/-- A formula whose tokens denote a tree over declared names compiles. -/
theorem compile_of_denotes {formula : List UInt8} {declared : List String} {tokens : List Token}
    {t : Tree} (hparse : parse (.ofBytes formula) = .ok tokens) (ht : Denotes .sum tokens t)
    (hbound : ∀ name ∈ t.names, name ∈ declared) :
    compile formula declared = .ok (t.compiled declared) := by
  have hresolve : Program.resolve declared tokens = .ok (t.listing declared) := by
    rw [Program.resolve_eq_ok_iff]
    exact ⟨names_eq_readNames ht ▸ hbound, (Program.ofInfix_eq_listing declared ht).symm⟩
  exact compile_eq_ok_iff.mpr ⟨tokens, hparse, hresolve, rfl, rfl⟩

/-- What compiles does so by the tree that its tokens denote. -/
theorem exists_compiled_of_compile {formula : List UInt8} {declared : List String} {e : Compiled}
    (h : compile formula declared = .ok e) :
    ∃ tokens t, parse (.ofBytes formula) = .ok tokens ∧ Denotes .sum tokens t ∧
      (∀ name ∈ t.names, name ∈ declared) ∧ e = t.compiled declared := by
  obtain ⟨tokens, t, hparse, ht, hbound, _⟩ := exists_tree_of_compile h
  have hcompile := compile_of_denotes hparse ((ht t).mpr rfl) hbound
  exact ⟨tokens, t, hparse, (ht t).mpr rfl, hbound, Except.ok.inj (h.symm.trans hcompile)⟩

/-! ## Phrases of text -/

/-- A phrase as it is written, as its lexemes and as its tree. -/
structure Reads (category : Category) (bound : Nat) (cs : List Char) (ls : List Lexeme)
    (t : Tree) : Prop where
  /-- The text is made of the lexemes, -/
  lexes : Lexes cs ls
  /-- they form the phrase, -/
  derives : Derives category bound ls
  /-- and what they stand for denotes the tree. -/
  denotes : Denotes category.level (tokensOf true ls) t

/-- An operator between two units. -/
theorem denotes_binary (op : Operator) {ls rs : List Token} {l r : Tree}
    (hl : Denotes .unit ls l) (hr : Denotes .unit rs r) :
    Denotes .sum (ls ++ .operator op :: rs) (.binary op l r) := by
  have hproduct : Denotes .product ls l := .ofPower (.ofUnit hl)
  cases op with
  | power => exact .ofProduct (.ofPower (.power hl (.ofUnit hr)))
  | multiply => exact .ofProduct (.product (Or.inl rfl) hproduct (.ofUnit hr))
  | divide => exact .ofProduct (.product (Or.inr rfl) hproduct (.ofUnit hr))
  | add => exact .sum (Or.inl rfl) (.ofProduct hproduct) (.ofPower (.ofUnit hr))
  | subtract => exact .sum (Or.inr rfl) (.ofProduct hproduct) (.ofPower (.ofUnit hr))

namespace Reads

variable {n : Nat} {cs ds : List Char} {ls ms : List Lexeme} {t u : Tree}

theorem single (h : Reads .unit n cs ls t) : Reads .expression n cs ls t :=
  ⟨h.lexes, .single h.derives, denotes_sum_of_unit h.denotes⟩

theorem mono {category : Category} {m : Nat} (h : Reads category n cs ls t) (hle : n ≤ m) :
    Reads category m cs ls t :=
  ⟨h.lexes, h.derives.mono hle, h.denotes⟩

/-- Parentheses are read and leave no trace. -/
theorem group (h : Reads .expression n cs ls t) :
    Reads .unit (n + 1) ('(' :: cs ++ [')']) (.leftParen :: ls ++ [.rightParen]) t := by
  refine ⟨h.lexes.group (.finish blank_nil), .group h.derives, ?_⟩
  rw [List.cons_append, tokensOf_leftParen, tokensOf_append h.derives (by simp),
    tokensOf_rightParen]
  exact .group h.denotes

theorem negation (h : Reads .unit n cs ls t) :
    Reads .unit (n + 1) ('-' :: cs) (.operator .subtract :: ls) (.negate t) :=
  ⟨h.lexes.operator .subtract, .negation h.derives, .negate h.denotes⟩

theorem call (f : Function) (h : Reads .expression n cs ls t) :
    Reads .unit (n + 1) (f.name.toList ++ '(' :: cs ++ [')'])
      (.name f.name :: .leftParen :: ls ++ [.rightParen]) (.call f t) := by
  have hf := Function.ofName?_name f
  have hargument := h.lexes.group (.finish blank_nil)
  refine ⟨?_, .call ⟨f, rfl⟩ h.derives, ?_⟩
  · rw [List.append_assoc]
    exact (Lexes.name f.isName_name).append Cut.stops_leftParen hargument
  · rw [List.cons_append, List.cons_append, tokensOf_call hf, tokensOf_append h.derives (by simp),
      tokensOf_rightParen]
    exact .call h.denotes

theorem binary (op : Operator) (h : Reads .unit n cs ls t) (h' : Reads .unit n ds ms u) :
    Reads .expression n (cs ++ op.symbol :: ds) (ls ++ .operator op :: ms) (.binary op t u) := by
  refine ⟨h.lexes.append (Cut.stops_symbol op) (h'.lexes.operator op),
    .chain h.derives (.single h'.derives), ?_⟩
  rw [tokensOf_append h.derives (by simp), tokensOf_operator]
  exact denotes_binary op h.denotes h'.denotes

/-- What is read within the limit compiles by its tree. -/
theorem compile (h : Reads .expression nestingLimit cs ls t) {declared : List String}
    (hbound : ∀ name ∈ t.names, name ∈ declared) :
    Formula.compile (Utf8.encode cs) declared = .ok (t.compiled declared) := by
  refine compile_of_denotes ?_ h.denotes hbound
  rw [parse, scan, Source.ofBytes_encode, Scanner.tokens_run_eq_ok_iff]
  exact ⟨ls, Scanner.ends_run_iff.mpr ⟨rfl, h.lexes⟩, h.derives, rfl⟩

end Reads

/-- No more than so many units are open at once while the formula is read. -/
def Shallow (bound : Nat) (formula : List UInt8) : Prop :=
  ∃ ls, (scan (.ofBytes formula)).Ends ls ∧ Derives .expression bound ls

/-- **What compiles is read as text**, and what is shallow in no greater depth. -/
theorem exists_reads_of_compile {formula : List UInt8} {declared : List String} {e : Compiled}
    (h : compile formula declared = .ok e) {bound : Nat} (hle : bound ≤ nestingLimit)
    (hshallow : Shallow bound formula) :
    ∃ cs ls t, formula = Utf8.encode cs ∧ Reads .expression bound cs ls t ∧
      (∀ name ∈ t.names, name ∈ declared) ∧ e = t.compiled declared := by
  obtain ⟨tokens, t, hparse, ht, hbound, he⟩ := exists_compiled_of_compile h
  obtain ⟨ls, hends, hderives⟩ := hshallow
  obtain ⟨hbroken, hlexes⟩ := Scanner.ends_run_iff.mp hends
  have hread : parse (.ofBytes formula) = .ok (tokensOf true ls) :=
    Scanner.tokens_run_eq_ok_iff.mpr ⟨ls, hends, hderives.mono hle, rfl⟩
  obtain rfl : tokens = tokensOf true ls := Except.ok.inj (hparse.symm.trans hread)
  exact ⟨_, ls, t, (Source.encode_chars hbroken).symm, ⟨hlexes, hderives, ht⟩, hbound, he⟩

/-! ## Formulas between parentheses -/

/-- The formula between parentheses. -/
def grouped (formula : List UInt8) : List UInt8 :=
  Utf8.encode ['('] ++ formula ++ Utf8.encode [')']

theorem grouped_encode (cs : List Char) :
    grouped (Utf8.encode cs) = Utf8.encode ('(' :: cs ++ [')']) := by
  rw [List.cons_append, Utf8.encode_cons, Utf8.encode_append, grouped, List.append_assoc]
  rfl

namespace Compiled

/-- One program behind the other and then the operator. -/
def joined (op : Operator) (e f : Compiled) : Compiled where
  program := e.program ++ f.program ++ [.operator op]
  names := e.names ++ f.names.filter (· ∉ e.names)
  peak := max e.peak (1 + f.peak)

/-- The program and then a token that takes one operand. -/
def followed (e : Compiled) (token : Token) : Compiled :=
  { e with program := e.program ++ [token] }

end Compiled

namespace Tree

theorem compiled_binary (declared : List String) (op : Operator) (l r : Tree) :
    (binary op l r).compiled declared = (l.compiled declared).joined op (r.compiled declared) := by
  have hpeak := Program.peak_append_binary (Program.pushesOne_listing declared l)
    (Program.pushesOne_listing declared r) op
  have hnames : Program.names (l.listing declared ++ r.listing declared ++ [.operator op]) =
      (l.listing declared).names ++
        (r.listing declared).names.filter (· ∉ (l.listing declared).names) := by
    simp only [Program.names, readNames_append, readNames_cons, Token.varName?, Option.toList,
      readNames_nil, List.append_nil]
    exact distinctNames_append _ _
  simp only [compiled, listing, Compiled.joined, hpeak, hnames]
  rfl

theorem compiled_unary {declared : List String} {token : Token} {t u : Tree}
    (htoken : token = .negate ∨ ∃ f, token = .function f)
    (hlisting : u.listing declared = t.listing declared ++ [token]) :
    u.compiled declared = (t.compiled declared).followed token := by
  have hpeak := Program.peak_append_unary htoken (Program.pushesOne_listing declared t)
  have hnames : Program.names (t.listing declared ++ [token]) = (t.listing declared).names := by
    rcases htoken with rfl | ⟨f, rfl⟩ <;> simp [Program.names, Token.varName?]
  simp only [compiled, hlisting, Compiled.followed, hpeak, hnames]

end Tree

theorem evaluate_compiled {declared : List String} {t : Tree} {values : List Float}
    {env : String → Float} (h : Supplies declared values env t.names) :
    (t.compiled declared).evaluate values = .ok (t.value env) :=
  evaluate_of_supplies rfl h

/--
**Formulas between parentheses are units of others.** A group compiles to what its formula compiles
to. An operator between two groups, a minus sign or a function in front of one, goes behind their
programs, and on values that are long enough it is applied to what they evaluate to.
-/
theorem compile_compositional {declared : List String} {f g : List UInt8} {e d : Compiled}
    (hf : compile f declared = .ok e) (hg : compile g declared = .ok d)
    (hfs : Shallow (nestingLimit - 2) f) (hgs : Shallow (nestingLimit - 2) g) (op : Operator)
    (fn : Function) :
    compile (grouped f) declared = .ok e ∧
    compile (grouped f ++ Utf8.encode [op.symbol] ++ grouped g) declared = .ok (e.joined op d) ∧
    compile (Utf8.encode ['-'] ++ grouped f) declared = .ok (e.followed .negate) ∧
    compile (Utf8.encode fn.name.toList ++ grouped f) declared =
      .ok (e.followed (.function fn)) ∧
    ∀ values, (∀ slot ∈ e.program.slots, slot < values.length) →
      (∀ slot ∈ d.program.slots, slot < values.length) →
      ∃ x y, e.evaluate values = .ok x ∧ d.evaluate values = .ok y ∧
        (e.joined op d).evaluate values = .ok (op.apply x y) ∧
        (e.followed .negate).evaluate values = .ok (-x) ∧
        (e.followed (.function fn)).evaluate values = .ok (fn.apply x) := by
  obtain ⟨cs, ls, t, rfl, hreadf, hboundf, rfl⟩ := exists_reads_of_compile hf (by decide) hfs
  obtain ⟨ds, ms, u, rfl, hreadg, hboundg, rfl⟩ := exists_reads_of_compile hg (by decide) hgs
  have hbinary : ∀ name ∈ (Tree.binary op t u).names, name ∈ declared :=
    List.forall_mem_append.mpr ⟨hboundf, hboundg⟩
  have hjoined := Tree.compiled_binary declared op t u
  have hnegated : (Tree.negate t).compiled declared = _ :=
    Tree.compiled_unary (Or.inl rfl) rfl
  have hcalled : (Tree.call fn t).compiled declared = _ :=
    Tree.compiled_unary (Or.inr ⟨fn, rfl⟩) rfl
  rw [grouped_encode, grouped_encode, ← hjoined, ← hnegated, ← hcalled, ← Utf8.encode_append,
    ← Utf8.encode_append, ← Utf8.encode_append, ← Utf8.encode_append]
  refine ⟨?_, ?_, ?_, ?_, ?_⟩
  · exact (hreadf.group.single.mono (by decide)).compile hboundf
  · rw [List.append_assoc, List.singleton_append]
    exact ((hreadf.group.binary op hreadg.group).mono (by decide)).compile hbinary
  · exact (hreadf.group.negation.single.mono (by decide)).compile hboundf
  · rw [← List.append_assoc]
    exact ((hreadf.call fn).single.mono (by decide)).compile hboundf
  · intro values hlongf hlongg
    have hslots : ((Tree.binary op t u).listing declared).slots =
        (t.listing declared).slots ++ (u.listing declared).slots := by
      simp [Tree.listing, Token.slot?]
    have hlong : ∀ slot ∈ ((Tree.binary op t u).listing declared).slots, slot < values.length := by
      rw [hslots]
      exact List.forall_mem_append.mpr ⟨hlongf, hlongg⟩
    obtain ⟨env, henv⟩ := exists_supplies hbinary hlong
    obtain ⟨hl, hr⟩ := List.forall_mem_append.mp henv
    exact ⟨t.value env, u.value env, evaluate_compiled hl, evaluate_compiled hr,
      evaluate_compiled henv, evaluate_compiled hl, evaluate_compiled hl⟩

/-- `x-y` and `y`, put together as `(x-y)/(y)`. -/
theorem compile_grouped_quotient :
    compile (grouped [120, 45, 121] ++ Utf8.encode ['/'] ++ grouped [121]) ["x", "y"] =
      .ok ⟨[.var "x" (some 0), .var "y" (some 1), .operator .subtract, .var "y" (some 1),
        .operator .divide], ["x", "y"], 2⟩ := by
  have hf : compile [120, 45, 121] ["x", "y"] =
      .ok ⟨[.var "x" (some 0), .var "y" (some 1), .operator .subtract], ["x", "y"], 2⟩ := by
    decide +kernel
  have hg : compile [121] ["x", "y"] = .ok ⟨[.var "y" (some 1)], ["y"], 1⟩ := by decide +kernel
  have hfs : Shallow (nestingLimit - 2) [120, 45, 121] :=
    ⟨[.name "x", .operator .subtract, .name "y"], ⟨by decide +kernel, by decide +kernel⟩,
      Derives.chain (Derives.name "x") (.single (.name "y"))⟩
  have hgs : Shallow (nestingLimit - 2) [121] :=
    ⟨[.name "y"], ⟨by decide +kernel, by decide +kernel⟩, .single (.name "y")⟩
  exact (compile_compositional hf hg hfs hgs .divide .ln).2.1

end Formula
