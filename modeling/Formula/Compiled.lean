import Formula.Machine
import Formula.Reader

/-!
# Compiled formulas

A formula is compiled once and evaluated any number of times. Compiling reads the text, binds its
names to the declared ones, and puts it in the order in which it is run. A syntax error is reported
before any unbound name.

Evaluating gives the value at the place of each declared name. Rows are evaluated one after another
on one stack, which no row can tell from a fresh one.
-/

namespace Formula

/-- A formula ready to be evaluated. -/
structure Compiled where
  /-- Its tokens in the order in which they are run. -/
  program : Program
  /-- The names it reads, in order of their first occurrence, once each. -/
  names : List String
  /-- The greatest number of operands it holds at once. -/
  peak : Nat
  deriving DecidableEq

/-- Compiles an infix sequence against the declared names. -/
def compileTokens (declared : List String) (tokens : List Token) : Except CompileError Compiled :=
  match Program.resolve declared tokens with
  | .error names => .error (.unbound names)
  | .ok program => .ok ⟨program, program.names, program.peak⟩

/-- Compiles the bytes of a formula against the declared names. -/
def compile (formula : List UInt8) (declared : List String) : Except CompileError Compiled :=
  match parse (.ofBytes formula) with
  | .error e => .error (.malformed e)
  | .ok tokens => compileTokens declared tokens

namespace Compiled

/-- Evaluates on a stack that may hold anything: the outcome, and the stack as it is then. -/
def evaluateOn (e : Compiled) (values : List Float) (stack : Stack Float) :
    Except Fault Float × Stack Float := e.program.run values stack

/-- An empty stack to evaluate on. -/
def freshStack (_ : Compiled) : Stack Float := []

/-- Evaluates on a fresh stack. -/
def evaluate (e : Compiled) (values : List Float) : Except Fault Float :=
  (e.evaluateOn values e.freshStack).1

/-- Evaluates rows in order on one stack, stopping at the first that fails. -/
def evaluateRows (e : Compiled) (stack : Stack Float) :
    List (List Float) → Except Fault (List Float)
  | [] => .ok []
  | row :: rows =>
    match e.evaluateOn row stack with
    | (.error fault, _) => .error fault
    | (.ok result, used) => (e.evaluateRows used rows).map (result :: ·)

/-- Evaluates every row, in order. -/
def evaluateAll (e : Compiled) (rows : List (List Float)) : Except Fault (List Float) :=
  e.evaluateRows e.freshStack rows

/-- The program as it is shown. -/
def text (e : Compiled) : String := showTokens e.program

/-- Whether two compiled formulas are the same, numbers being compared as numbers. -/
def same (e f : Compiled) : Bool :=
  sameTokens e.program f.program && e.names == f.names && e.peak == f.peak

end Compiled

/--
Compiles a formula against the names of the bindings and evaluates it with their values. A name
bound twice has its last value.
-/
def calculate (formula : List UInt8) (bindings : List (String × Float)) :
    Except CompileError (Except Fault Float) :=
  (compile formula (bindings.map Prod.fst)).map fun e => e.evaluate (bindings.map Prod.snd)

end Formula
