import Formula.Session
import Formula.Proofs.Evaluation
import Formula.Proofs.Reuse

/-!
# What a session keeps

A session is its slots and its shared stack. The slots decide what a command does (`run_onFresh`):
the stack can be taken out of a session altogether, and evaluating on it gives what evaluating on a
fresh one gives (`runAll_onFresh`). A command that is refused changes nothing (`run_of_refusal`),
and the others go on as if it had not been given (`runAll_of_refusal`). In a session that starts
empty, slots hold compiled formulas only, so that nothing goes wrong but by a value that is missing
(`fault_of_mem_runAll`).

What a command does is said once, by `Answers`.
-/

namespace Formula

namespace Session

/-! ## What a command does -/

/-- The slots that a command reads. -/
def Command.reads : Command → List Nat
  | .compile .. | .setStack _ => []
  | .info slot | .freshStack slot | .evaluate slot _ | .evaluateOn slot _ | .batch slot _
  | .copy slot _ => [slot]
  | .compare slot other => [slot, other]

/-- A command's reply, and the session then: one constructor for each way it can go. -/
inductive Answers (s : Session) : Command → Reply → Session → Prop
  | compiled {slot : Nat} {formula : List UInt8} {declared : List String} {e : Compiled} :
      Formula.compile formula declared = .ok e →
      Answers s (.compile slot formula declared) (.compiled e) (s.put slot e)
  | refused {slot : Nat} {formula : List UInt8} {declared : List String} {error : CompileError} :
      Formula.compile formula declared = .error error →
      Answers s (.compile slot formula declared) (.refused error) s
  | setStack {values : List Float} :
      Answers s (.setStack values) (.stack values) { s with stack := values.reverse }
  | noSuchSlot {command : Command} {slot : Nat} : slot ∈ command.reads → s.get? slot = none →
      Answers s command (.noSuchSlot slot) s
  | info {slot : Nat} {e : Compiled} : s.get? slot = some e →
      Answers s (.info slot) (.compiled e) s
  | freshStack {slot : Nat} {e : Compiled} : s.get? slot = some e →
      Answers s (.freshStack slot) (.stack []) { s with stack := [] }
  | result {slot : Nat} {e : Compiled} {values : List Float} {x : Float} :
      s.get? slot = some e → e.evaluate values = .ok x →
      Answers s (.evaluate slot values) (.result x) s
  | fault {slot : Nat} {e : Compiled} {values : List Float} {fault : Fault} :
      s.get? slot = some e → e.evaluate values = .error fault →
      Answers s (.evaluate slot values) (.fault fault) s
  | resultOn {slot : Nat} {e : Compiled} {values : List Float} {x : Float} :
      s.get? slot = some e → e.evaluate values = .ok x →
      Answers s (.evaluateOn slot values) (.resultOn x [x]) { s with stack := [x] }
  | faultOn {slot : Nat} {e : Compiled} {values : List Float} {fault : Fault}
      {left : Stack Float} : s.get? slot = some e → e.evaluate values = .error fault →
      Answers s (.evaluateOn slot values) (.fault fault) { s with stack := left }
  | results {slot : Nat} {e : Compiled} {rows : List (List Float)} {values : List Float} :
      s.get? slot = some e → rows.map e.evaluate = values.map .ok →
      Answers s (.batch slot rows) (.results values) s
  | rowFault {slot : Nat} {e : Compiled} {rows : List (List Float)} {row : List Float}
      {fault : Fault} : s.get? slot = some e → row ∈ rows → e.evaluate row = .error fault →
      Answers s (.batch slot rows) (.fault fault) s
  | copied {slot target : Nat} {e : Compiled} : s.get? slot = some e →
      Answers s (.copy slot target) .nothing (s.put target e)
  | equal {slot other : Nat} {e f : Compiled} : s.get? slot = some e → s.get? other = some f →
      Answers s (.compare slot other) (.equal (e.same f)) s

variable {s t : Session}

theorem withSlot_of_none {slot : Nat} (h : s.get? slot = none)
    (k : Compiled → Reply × Session) : s.withSlot slot k = (.noSuchSlot slot, s) := by
  rw [withSlot, h]

theorem withSlot_of_some {slot : Nat} {e : Compiled} (h : s.get? slot = some e)
    (k : Compiled → Reply × Session) : s.withSlot slot k = k e := by
  rw [withSlot, h]

/-- A command that begins by looking for a slot finds nothing, or goes on with what it finds. -/
theorem answers_withSlot {slot : Nat} {command : Command} {k : Compiled → Reply × Session}
    (hreads : slot ∈ command.reads)
    (h : ∀ e, s.get? slot = some e → Answers s command (k e).1 (k e).2) :
    Answers s command (s.withSlot slot k).1 (s.withSlot slot k).2 := by
  cases hslot : s.get? slot with
  | none =>
      rw [withSlot_of_none hslot]
      exact .noSuchSlot hreads hslot
  | some e =>
      rw [withSlot_of_some hslot]
      exact h e hslot

/-- **A command does what `Answers` says.** -/
theorem answers_run (s : Session) (command : Command) :
    Answers s command (s.run command).1 (s.run command).2 := by
  cases command with
  | compile slot formula declared =>
      simp only [run]
      cases h : Formula.compile formula declared with
      | error error => exact .refused h
      | ok e => exact .compiled h
  | setStack values => exact .setStack
  | info slot => exact answers_withSlot List.mem_cons_self fun e he => .info he
  | freshStack slot => exact answers_withSlot List.mem_cons_self fun e he => .freshStack he
  | evaluate slot values =>
      refine answers_withSlot List.mem_cons_self fun e he => ?_
      cases h : e.evaluate values with
      | error fault => exact .fault he h
      | ok x => exact .result he h
  | evaluateOn slot values =>
      refine answers_withSlot List.mem_cons_self fun e he => ?_
      have houtcome := e.fst_evaluateOn values s.stack
      cases hrun : e.evaluateOn values s.stack with
      | mk outcome left =>
          rw [hrun] at houtcome
          cases outcome with
          | error fault => exact .faultOn he houtcome.symm
          | ok x =>
              obtain rfl : left = [x] := Program.left_of_runOn hrun
              exact .resultOn he houtcome.symm
  | batch slot rows =>
      refine answers_withSlot List.mem_cons_self fun e he => ?_
      have hrows : e.evaluateAll rows = rows.mapM e.evaluate := e.evaluateRows_eq_mapM rows _
      cases h : e.evaluateAll rows with
      | error fault =>
          obtain ⟨row, hrow, hfault⟩ := exists_of_mapM_eq_error (hrows.symm.trans h)
          exact .rowFault he hrow hfault
      | ok values => exact .results he (map_eq_of_mapM_eq_ok (hrows.symm.trans h))
  | copy slot target => exact answers_withSlot List.mem_cons_self fun e he => .copied he
  | compare slot other =>
      refine answers_withSlot List.mem_cons_self fun e he => ?_
      exact answers_withSlot (List.mem_cons_of_mem _ List.mem_cons_self) fun f hf => .equal he hf

/-! ## Refusals -/

/-- A reply that tells that a command was refused. -/
inductive Reply.IsRefusal : Reply → Prop
  | refused {error : CompileError} : IsRefusal (.refused error)
  | noSuchSlot {slot : Nat} : IsRefusal (.noSuchSlot slot)

theorem Answers.eq_of_refusal {command : Command} {reply : Reply} {next : Session}
    (h : Answers s command reply next) (hrefusal : reply.IsRefusal) : next = s := by
  cases hrefusal with
  | refused =>
      cases h
      rfl
  | noSuchSlot =>
      cases h
      rfl

/-- **A command that is refused changes nothing.** -/
theorem run_of_refusal {command : Command} (h : (s.run command).1.IsRefusal) :
    (s.run command).2 = s := (answers_run s command).eq_of_refusal h

/-! ## Runs -/

theorem runAll_cons (s : Session) (command : Command) (commands : List Command) :
    s.runAll (command :: commands) =
      ((s.run command).1 :: ((s.run command).2.runAll commands).1,
        ((s.run command).2.runAll commands).2) := rfl

theorem runAll_append (before after : List Command) : ∀ s : Session,
    s.runAll (before ++ after) =
      ((s.runAll before).1 ++ ((s.runAll before).2.runAll after).1,
        ((s.runAll before).2.runAll after).2) := by
  induction before with
  | nil => intro s; rfl
  | cons command before ih =>
      intro s
      rw [List.cons_append, runAll_cons, runAll_cons, ih]
      rfl

theorem length_runAll (commands : List Command) : ∀ s : Session,
    (s.runAll commands).1.length = commands.length := by
  induction commands with
  | nil => intro s; rfl
  | cons command commands ih =>
      intro s
      rw [runAll_cons, List.length_cons, List.length_cons, ih]

/-- **A refused command may as well not have been given**: the others are answered as without it. -/
theorem runAll_of_refusal {before : List Command} {command : Command}
    (h : ((s.runAll before).2.run command).1.IsRefusal) (after : List Command) :
    (s.runAll (before ++ command :: after)).1.eraseIdx before.length =
        (s.runAll (before ++ after)).1 ∧
      (s.runAll (before ++ command :: after)).2 = (s.runAll (before ++ after)).2 := by
  have hlength : (s.runAll before).1.length ≤ before.length := Nat.le_of_eq (length_runAll before s)
  rw [runAll_append, runAll_append, runAll_cons, run_of_refusal h]
  refine ⟨?_, rfl⟩
  rw [List.eraseIdx_append_of_length_le hlength, length_runAll, Nat.sub_self, List.eraseIdx_zero,
    List.tail_cons]

/-- What every command keeps holds at the end of a run and wherever a reply was given. -/
theorem runAll_keeps {P : Session → Prop} (hkeeps : ∀ s command, P s → P (s.run command).2)
    (commands : List Command) : ∀ {s : Session}, P s → P (s.runAll commands).2 ∧
      ∀ reply ∈ (s.runAll commands).1, ∃ command ∈ commands, ∃ mid : Session,
        P mid ∧ (mid.run command).1 = reply := by
  induction commands with
  | nil =>
      intro s hs
      exact ⟨hs, fun reply hreply => absurd hreply List.not_mem_nil⟩
  | cons command commands ih =>
      intro s hs
      obtain ⟨hlast, hreplies⟩ := ih (hkeeps s command hs)
      refine ⟨hlast, ?_⟩
      intro reply hreply
      rcases List.mem_cons.mp hreply with rfl | hlater
      · exact ⟨command, List.mem_cons_self, s, hs, rfl⟩
      · obtain ⟨other, hother, mid, hmid, hrun⟩ := hreplies reply hlater
        exact ⟨other, List.mem_cons_of_mem _ hother, mid, hmid, hrun⟩

/-! ## The shared stack -/

/-- The command that does without the shared stack. -/
def Command.onFresh : Command → Command
  | .evaluateOn slot values => .evaluate slot values
  | command => command

/-- The reply without the shared stack. -/
def Reply.bare : Reply → Reply
  | .resultOn value _ => .result value
  | reply => reply

/-- Two sessions with the same slots find the same in one of them. -/
theorem withSlot_of_slots (hslots : t.slots = s.slots) {slot : Nat}
    {k k' : Compiled → Reply × Session}
    (h : ∀ e, (k' e).1 = (k e).1.bare ∧ (k' e).2.slots = (k e).2.slots) :
    (t.withSlot slot k').1 = (s.withSlot slot k).1.bare ∧
      (t.withSlot slot k').2.slots = (s.withSlot slot k).2.slots := by
  have hget : t.get? slot = s.get? slot := congrArg (List.lookup slot) hslots
  cases hslot : s.get? slot with
  | none =>
      rw [withSlot_of_none hslot, withSlot_of_none (hget.trans hslot)]
      exact ⟨rfl, hslots⟩
  | some e =>
      rw [withSlot_of_some hslot, withSlot_of_some (hget.trans hslot)]
      exact h e

theorem slots_put (hslots : t.slots = s.slots) (slot : Nat) (e : Compiled) :
    (t.put slot e).slots = (s.put slot e).slots := congrArg ((slot, e) :: ·) hslots

/-- **The slots decide what a command does**: whatever is on the shared stack, evaluating on it
gives what evaluating on a fresh one gives. -/
theorem run_onFresh (hslots : t.slots = s.slots) (command : Command) :
    (t.run command.onFresh).1 = (s.run command).1.bare ∧
      (t.run command.onFresh).2.slots = (s.run command).2.slots := by
  cases command with
  | compile slot formula declared =>
      simp only [Command.onFresh, run]
      cases Formula.compile formula declared with
      | error error => exact ⟨rfl, hslots⟩
      | ok e => exact ⟨rfl, slots_put hslots slot e⟩
  | setStack values => exact ⟨rfl, hslots⟩
  | info slot | freshStack slot => exact withSlot_of_slots hslots fun e => ⟨rfl, hslots⟩
  | evaluate slot values =>
      refine withSlot_of_slots hslots fun e => ?_
      cases e.evaluate values with
      | error fault => exact ⟨rfl, hslots⟩
      | ok x => exact ⟨rfl, hslots⟩
  | evaluateOn slot values =>
      refine withSlot_of_slots hslots fun e => ?_
      rw [← e.fst_evaluateOn values s.stack]
      cases e.evaluateOn values s.stack with
      | mk outcome left =>
          cases outcome with
          | error fault => exact ⟨rfl, hslots⟩
          | ok x => exact ⟨rfl, hslots⟩
  | batch slot rows =>
      refine withSlot_of_slots hslots fun e => ?_
      cases e.evaluateAll rows with
      | error fault => exact ⟨rfl, hslots⟩
      | ok values => exact ⟨rfl, hslots⟩
  | copy slot target =>
      exact withSlot_of_slots hslots fun e => ⟨rfl, slots_put hslots target e⟩
  | compare slot other =>
      refine withSlot_of_slots hslots fun e => ?_
      exact withSlot_of_slots hslots fun f => ⟨rfl, hslots⟩

/-- **A run can do without the shared stack**, but for the commands that show it. -/
theorem runAll_onFresh (commands : List Command) : ∀ {s t : Session}, t.slots = s.slots →
    (t.runAll (commands.map Command.onFresh)).1 = (s.runAll commands).1.map Reply.bare ∧
      (t.runAll (commands.map Command.onFresh)).2.slots = (s.runAll commands).2.slots := by
  induction commands with
  | nil =>
      intro s t hslots
      exact ⟨rfl, hslots⟩
  | cons command commands ih =>
      intro s t hslots
      obtain ⟨hreply, hnext⟩ := run_onFresh hslots command
      obtain ⟨hreplies, hlast⟩ := ih hnext
      rw [List.map_cons, runAll_cons, runAll_cons]
      refine ⟨?_, hlast⟩
      rw [hreply, hreplies, List.map_cons]

/-- A result leaves itself on the shared stack, and nothing else. -/
theorem left_of_mem_runAll {commands : List Command} {x : Float} {left : List Float}
    (h : .resultOn x left ∈ (s.runAll commands).1) : left = [x] := by
  obtain ⟨command, _, mid, _, hrun⟩ :=
    (runAll_keeps (P := fun _ => True) (fun _ _ _ => trivial) commands trivial).2 _ h
  have hanswers := answers_run mid command
  rw [hrun] at hanswers
  generalize (mid.run command).2 = next at hanswers
  cases hanswers
  rfl

/-! ## What slots hold -/

/-- Every slot holds what a formula was compiled to. -/
def HoldsCompiled (s : Session) : Prop :=
  ∀ slot e, s.get? slot = some e → ∃ formula declared, Formula.compile formula declared = .ok e

theorem get?_put (s : Session) (slot : Nat) (e : Compiled) (other : Nat) :
    (s.put slot e).get? other = if other = slot then some e else s.get? other := by
  rw [get?, put, List.lookup_cons]
  by_cases h : other = slot
  · rw [if_pos h, beq_iff_eq.mpr h]
  · rw [if_neg h, beq_false_of_ne h]
    rfl

theorem holdsCompiled_empty : empty.HoldsCompiled := by
  intro slot e h
  exact absurd h (by simp [get?, empty])

theorem HoldsCompiled.put (h : s.HoldsCompiled) {formula : List UInt8} {declared : List String}
    {e : Compiled} (he : Formula.compile formula declared = .ok e) (slot : Nat) :
    (s.put slot e).HoldsCompiled := by
  intro other f hf
  rw [get?_put] at hf
  split at hf
  · cases hf
    exact ⟨formula, declared, he⟩
  · exact h other f hf

theorem HoldsCompiled.answers (h : s.HoldsCompiled) {command : Command} {reply : Reply}
    {next : Session} (hanswers : Answers s command reply next) : next.HoldsCompiled := by
  cases hanswers with
  | compiled he => exact h.put he _
  | copied he =>
      obtain ⟨formula, declared, hcompile⟩ := h _ _ he
      exact h.put hcompile _
  | refused | setStack | noSuchSlot | info | freshStack | result | fault | resultOn | faultOn
  | results | rowFault | equal => exact h

/-- A fault that is answered is that of a formula in a slot, on some values. -/
theorem Answers.exists_fault {command : Command} {fault : Fault} {next : Session}
    (h : Answers s command (.fault fault) next) :
    ∃ slot e values, s.get? slot = some e ∧ e.evaluate values = .error fault := by
  cases h with
  | fault he hfault | faultOn he hfault | rowFault he _ hfault => exact ⟨_, _, _, he, hfault⟩

/-- **In a session that starts empty, nothing goes wrong but by a value that is missing.** -/
theorem fault_of_mem_runAll {commands : List Command} {fault : Fault}
    (h : .fault fault ∈ (empty.runAll commands).1) :
    ∃ slot supplied, fault = .missingValue slot supplied := by
  obtain ⟨command, _, mid, hmid, hrun⟩ :=
    (runAll_keeps (fun _ command hs => hs.answers (answers_run _ command)) commands
      holdsCompiled_empty).2 _ h
  have hanswers := answers_run mid command
  rw [hrun] at hanswers
  obtain ⟨slot, e, values, he, hfault⟩ := hanswers.exists_fault
  obtain ⟨formula, declared, hcompile⟩ := hmid slot e he
  obtain ⟨missing, _, rfl⟩ := find?_of_evaluate_eq_error hcompile hfault
  exact ⟨missing, values.length, rfl⟩

end Session

end Formula
