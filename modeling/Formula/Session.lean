import Formula.Compiled

/-!
# Sessions

A session keeps compiled formulas in numbered slots and one stack for evaluating them, as a caller
does that compiles a few formulas and evaluates them over and over. A command that names a slot with
nothing in it is refused and changes nothing.
-/

namespace Formula

/-- Compiled formulas by slot number, and the stack that evaluations share. -/
structure Session where
  slots : List (Nat × Compiled)
  stack : Stack Float

/-- What a caller can ask of a session. -/
inductive Session.Command where
  /-- Compile a formula into a slot. -/
  | compile (slot : Nat) (formula : List UInt8) (declared : List String)
  /-- Put values on the shared stack, the last one on top. -/
  | setStack (values : List Float)
  /-- Show the formula in a slot. -/
  | info (slot : Nat)
  /-- Replace the shared stack by a formula's fresh one. -/
  | freshStack (slot : Nat)
  /-- Evaluate on a fresh stack. -/
  | evaluate (slot : Nat) (values : List Float)
  /-- Evaluate on the shared stack. -/
  | evaluateOn (slot : Nat) (values : List Float)
  /-- Evaluate rows. -/
  | batch (slot : Nat) (rows : List (List Float))
  /-- Copy a slot. -/
  | copy (slot target : Nat)
  /-- Compare two slots. -/
  | compare (slot other : Nat)

/-- What a session answers. -/
inductive Session.Reply where
  | nothing
  | compiled (e : Compiled)
  | refused (error : CompileError)
  /-- The shared stack, bottom first. -/
  | stack (values : List Float)
  | result (value : Float)
  /-- A result, and the shared stack then, bottom first. -/
  | resultOn (value : Float) (stack : List Float)
  | results (values : List Float)
  | equal (same : Bool)
  | fault (fault : Fault)
  | noSuchSlot (slot : Nat)

namespace Session

/-- A session with no formulas and an empty stack. -/
def empty : Session := ⟨[], []⟩

/-- The formula in a slot. -/
def get? (s : Session) (slot : Nat) : Option Compiled := s.slots.lookup slot

/-- Puts a formula into a slot. -/
def put (s : Session) (slot : Nat) (e : Compiled) : Session :=
  { s with slots := (slot, e) :: s.slots }

/-- The formula in a slot, and how to go on with it. -/
def withSlot (s : Session) (slot : Nat) (k : Compiled → Reply × Session) : Reply × Session :=
  match s.get? slot with
  | none => (.noSuchSlot slot, s)
  | some e => k e

/-- Carries out a command. -/
def run (s : Session) : Command → Reply × Session
  | .compile slot formula declared =>
    match Formula.compile formula declared with
    | .ok e => (.compiled e, s.put slot e)
    | .error error => (.refused error, s)
  | .setStack values => (.stack values, { s with stack := values.reverse })
  | .info slot => s.withSlot slot fun e => (.compiled e, s)
  | .freshStack slot =>
    s.withSlot slot fun e => (.stack e.freshStack.reverse, { s with stack := e.freshStack })
  | .evaluate slot values => s.withSlot slot fun e =>
    match e.evaluate values with
    | .ok value => (.result value, s)
    | .error fault => (.fault fault, s)
  | .evaluateOn slot values => s.withSlot slot fun e =>
    match e.evaluateOn values s.stack with
    | (.ok value, used) => (.resultOn value used.reverse, { s with stack := used })
    | (.error fault, used) => (.fault fault, { s with stack := used })
  | .batch slot rows => s.withSlot slot fun e =>
    match e.evaluateAll rows with
    | .ok values => (.results values, s)
    | .error fault => (.fault fault, s)
  | .copy slot target => s.withSlot slot fun e => (.nothing, s.put target e)
  | .compare slot other => s.withSlot slot fun e =>
    s.withSlot other fun f => (.equal (e.same f), s)

/-- Carries out commands in order: the replies, and the session then. -/
def runAll (s : Session) : List Command → List Reply × Session
  | [] => ([], s)
  | command :: commands =>
    let (reply, next) := s.run command
    let (replies, last) := next.runAll commands
    (reply :: replies, last)

end Session

end Formula
