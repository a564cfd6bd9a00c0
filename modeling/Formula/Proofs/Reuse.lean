import Mathlib.Control.Monad.Basic
import Formula.Batch

/-!
# Stacks used again

A stack goes from one run to the next as the run leaves it, also when the run has failed halfway and
left operands behind. No later run can tell, for each begins by clearing it; and a run that succeeds
leaves its result there and nothing else. So any sequence of runs on one stack has the outcomes that
the same runs have on fresh stacks, whichever formulas and values they are of.

From this it follows that rows may be shared out in any way (`outcomes_evaluateOn_perm`). What comes
of a batch is up to its driver, and the two laws of a driver make it the results of the rows
evaluated each for itself. `waiting` obeys both.
-/

namespace Formula

/-! ## One stack for many runs -/

/-- Evaluates in turn on one stack, each run on what the last one left: the outcomes, each with the
stack as it is then. A run that fails is followed by the next one like any other. -/
def evaluateInTurn (stack : Stack Float) (calls : List (Compiled × List Float)) :
    List (Except Fault Float × Stack Float) :=
  inTurn (fun call => call.1.evaluateOn call.2) stack calls

/-- A run that succeeds ends with its result alone on the stack. -/
theorem Program.left_of_runOn {values : List Float} {x : Float} {left : Stack Float}
    {program : Program} :
    ∀ {stack : Stack Float}, program.runOn values stack = (.ok x, left) → left = [x] := by
  induction program with
  | nil =>
      intro stack h
      obtain ⟨houtcome, rfl⟩ := Prod.mk.inj h
      unfold outcome at houtcome
      split at houtcome
      · rw [Except.ok.inj houtcome]
      · exact absurd houtcome (by simp)
  | cons token program ih =>
      intro stack h
      cases hstep : step values token stack with
      | ok next =>
          rw [runOn_of_ok hstep] at h
          exact ih h
      | error fault =>
          rw [runOn_of_error hstep] at h
          exact absurd h (by simp)

section Turns

variable {ρ σ β : Type} {step : ρ → σ → β × σ} {f : ρ → β}

/-- What comes of each row in turn, if the state makes no difference. -/
theorem map_fst_inTurn (h : ∀ row state, (step row state).1 = f row) (rows : List ρ) :
    ∀ state, (inTurn step state rows).map Prod.fst = rows.map f := by
  induction rows with
  | nil => intro state; rfl
  | cons row rows ih =>
      intro state
      rw [inTurn, List.map_cons, List.map_cons, h, ih]

/-- What is in the list of turns was done from some state. -/
theorem exists_of_mem_inTurn {rows : List ρ} {done : β × σ} :
    ∀ {state}, done ∈ inTurn step state rows → ∃ row ∈ rows, ∃ before, step row before = done := by
  induction rows with
  | nil => intro state h; exact absurd h (by simp [inTurn])
  | cons row rows ih =>
      intro state h
      rcases List.mem_cons.mp h with hnow | hlater
      · exact ⟨row, List.mem_cons_self, state, hnow.symm⟩
      · obtain ⟨other, hother, before, hbefore⟩ := ih hlater
        exact ⟨other, List.mem_cons_of_mem _ hother, before, hbefore⟩

end Turns

/-- A stack is cleared before it is used. -/
theorem Compiled.fst_evaluateOn (e : Compiled) (values : List Float) (stack : Stack Float) :
    (e.evaluateOn values stack).1 = e.evaluate values := rfl

/-- **Each run has the outcome that it has on a fresh stack.** -/
theorem outcomes_evaluateInTurn (stack : Stack Float) (calls : List (Compiled × List Float)) :
    (evaluateInTurn stack calls).map Prod.fst = calls.map fun call => call.1.evaluate call.2 := by
  have hfresh : ∀ (call : Compiled × List Float) (stack : Stack Float),
      (call.1.evaluateOn call.2 stack).1 = call.1.evaluate call.2 := fun call stack =>
    call.1.fst_evaluateOn call.2 stack
  exact map_fst_inTurn hfresh calls stack

theorem left_of_mem_evaluateInTurn {x : Float} {stack left : Stack Float}
    {calls : List (Compiled × List Float)} (h : (.ok x, left) ∈ evaluateInTurn stack calls) :
    left = [x] := by
  obtain ⟨_, _, _, hdone⟩ := exists_of_mem_inTurn h
  exact Program.left_of_runOn hdone

/-! ## Rows one by one -/

section Each

variable {ε α β : Type} {f : α → Except ε β}

/-- Doing for each member in turn comes to all the results, or to the error of a member. -/
theorem map_eq_of_mapM_eq_ok {as : List α} :
    ∀ {bs : List β}, as.mapM f = .ok bs → as.map f = bs.map .ok := by
  induction as with
  | nil =>
      intro bs h
      cases h
      rfl
  | cons a as ih =>
      intro bs h
      rw [List.mapM_cons] at h
      cases hhead : f a with
      | error e =>
          rw [hhead] at h
          cases h
      | ok b =>
          cases htail : as.mapM f with
          | error e =>
              rw [hhead, htail] at h
              cases h
          | ok others =>
              rw [hhead, htail] at h
              cases h
              rw [List.map_cons, List.map_cons, hhead, ih htail]

theorem exists_of_mapM_eq_error {e : ε} {as : List α} (h : as.mapM f = .error e) :
    ∃ a ∈ as, f a = .error e := by
  induction as with
  | nil => cases h
  | cons a as ih =>
      rw [List.mapM_cons] at h
      cases hhead : f a with
      | error first =>
          rw [hhead] at h
          cases h
          exact ⟨a, List.mem_cons_self, hhead⟩
      | ok b =>
          cases htail : as.mapM f with
          | error later =>
              rw [hhead, htail] at h
              cases h
              obtain ⟨other, hmem, hother⟩ := ih htail
              exact ⟨other, List.mem_cons_of_mem _ hmem, hother⟩
          | ok others =>
              rw [hhead, htail] at h
              cases h

end Each

namespace Compiled

/-- **Rows on one stack are rows on fresh stacks**, whatever is on it at first. -/
theorem evaluateRows_eq_mapM (e : Compiled) (rows : List (List Float)) :
    ∀ stack, e.evaluateRows stack rows = rows.mapM e.evaluate := by
  induction rows with
  | nil => intro stack; rfl
  | cons row rows ih =>
      intro stack
      have hfirst : (e.evaluateOn row stack).1 = e.evaluate row := rfl
      rw [evaluateRows, List.mapM_cons]
      cases hrun : e.evaluateOn row stack with
      | mk outcome used =>
          rw [hrun] at hfirst
          rw [← hfirst]
          cases outcome with
          | error fault => rfl
          | ok x =>
              dsimp only
              rw [ih used]
              cases rows.mapM e.evaluate <;> rfl

end Compiled

/-! ## Rows shared out -/

namespace Schedule

variable {ρ σ β : Type} {rows : List ρ} {step : ρ → σ → β × σ} {f : ρ → β}

/-- **It makes no difference who does what, and when**, if a worker's state makes none. -/
theorem outcomes_perm (h : ∀ row state, (step row state).1 = f row) (schedule : Schedule rows)
    (init : σ) : (schedule.outcomes init step).Perm (rows.map f).zipIdx := by
  have hshare : ∀ share : List (ρ × Nat),
      ((inTurn step init (share.map Prod.fst)).map Prod.fst).zip (share.map Prod.snd) =
        share.map (Prod.map f id) := by
    intro share
    rw [map_fst_inTurn h, List.zip_map_left, ← List.zip_of_prod rfl rfl]
  rw [outcomes, List.flatMap_def, List.map_congr_left fun share _ => hshare share,
    ← List.map_flatten, List.zipIdx_map]
  exact schedule.complete.map _

/-- There is one outcome for each number of a row. -/
theorem map_snd_outcomes (schedule : Schedule rows) (init : σ) (step : ρ → σ → β × σ) :
    ((schedule.outcomes init step).map Prod.snd).Perm (List.range rows.length) := by
  have hlength : ∀ (state : σ) (rows : List ρ), (inTurn step state rows).length = rows.length := by
    intro state rows
    induction rows generalizing state with
    | nil => rfl
    | cons row rows ih => rw [inTurn, List.length_cons, List.length_cons, ih]
  have hshare : ∀ share : List (ρ × Nat),
      (((inTurn step init (share.map Prod.fst)).map Prod.fst).zip (share.map Prod.snd)).map
        Prod.snd = share.map Prod.snd := by
    intro share
    refine List.map_snd_zip (Nat.le_of_eq ?_)
    rw [List.length_map, List.length_map, hlength, List.length_map]
  have hnumbers := schedule.complete.map Prod.snd
  rw [List.zipIdx_map_snd, ← List.range_eq_range', List.map_flatten] at hnumbers
  rw [outcomes, List.map_flatMap, List.flatMap_def,
    List.map_congr_left fun share _ => hshare share]
  exact hnumbers

end Schedule

/-! ## What a driver makes of it -/

section Waiting

variable {ρ σ ε β : Type}

/-- What is numbered without gaps is put in the places of its numbers. -/
theorem byNumber_eq_zipIdx {numbered : List (β × Nat)} {n : Nat}
    (h : (numbered.map Prod.snd).Perm (List.range n)) :
    Driver.byNumber numbered = ((Driver.byNumber numbered).map Prod.fst).zipIdx ∧
      (Driver.byNumber numbered).length = n := by
  have hsorted : (Driver.byNumber numbered).Pairwise fun a b => decide (a.2 ≤ b.2) = true := by
    refine List.pairwise_mergeSort ?_ ?_ numbered
    · intro a b c hab hbc
      exact decide_eq_true (Nat.le_trans (of_decide_eq_true hab) (of_decide_eq_true hbc))
    · intro a b
      simp [Nat.le_total]
  have hnumbers : (Driver.byNumber numbered).map Prod.snd = List.range n := by
    refine List.Perm.eq_of_pairwise (fun a b _ _ => Nat.le_antisymm) ?_ List.pairwise_le_range
      (((List.mergeSort_perm _ _).map Prod.snd).trans h)
    simp only [decide_eq_true_eq] at hsorted
    exact List.pairwise_map.mpr hsorted
  have hlength : (Driver.byNumber numbered).length = n := by
    rw [← List.length_map (f := Prod.snd), hnumbers, List.length_range]
  refine ⟨?_, hlength⟩
  rw [List.zipIdx_eq_zip_range', List.length_map, hlength, ← List.range_eq_range']
  exact List.zip_of_prod rfl hnumbers

/-- Results and nothing else are gathered. -/
theorem exists_map_eq_of_forall {dones : List (Except ε β)}
    (h : ∀ done ∈ dones, ∃ result, done = .ok result) :
    ∃ results, dones = results.map .ok ∧ dones.mapM id = .ok results := by
  induction dones with
  | nil => exact ⟨[], rfl, rfl⟩
  | cons done dones ih =>
      obtain ⟨hdone, hdones⟩ := List.forall_mem_cons.mp h
      obtain ⟨result, rfl⟩ := hdone
      obtain ⟨results, rfl, hresults⟩ := ih hdones
      refine ⟨result :: results, rfl, ?_⟩
      rw [List.mapM_cons, hresults]
      rfl

theorem waiting_inRowOrder : (Driver.waiting : Driver ρ σ ε β).InRowOrder := by
  intro rows schedule init step hdone
  obtain ⟨hplaces, hlength⟩ := byNumber_eq_zipIdx (schedule.map_snd_outcomes init step)
  have hperm := List.mergeSort_perm (schedule.outcomes init step) fun a b => a.2 ≤ b.2
  obtain ⟨results, hresults, hgathered⟩ :
      ∃ results, (Driver.byNumber (schedule.outcomes init step)).map Prod.fst =
        results.map .ok ∧ Driver.waiting rows schedule init step = .ok results := by
    refine exists_map_eq_of_forall ?_
    intro done hmem
    obtain ⟨numbered, hnumbered, rfl⟩ := List.mem_map.mp hmem
    exact hdone numbered (hperm.mem_iff.mp hnumbered)
  refine ⟨results, hgathered, ?_, ?_⟩
  · rw [← hlength, ← List.length_map (f := Prod.fst), hresults, List.length_map]
  · intro i result hresult
    refine hperm.mem_iff.mp ?_
    change _ ∈ Driver.byNumber _
    rw [hplaces, List.mem_zipIdx_iff_getElem?, hresults, List.getElem?_map, hresult]
    rfl

theorem waiting_propagatesFaults : (Driver.waiting : Driver ρ σ ε β).PropagatesFaults := by
  intro rows schedule init step hfault
  have hperm := List.mergeSort_perm (schedule.outcomes init step) fun a b => a.2 ≤ b.2
  cases hgathered : Driver.waiting rows schedule init step with
  | ok results =>
      obtain ⟨numbered, hmem, fault, hfault⟩ := hfault
      have hall := map_eq_of_mapM_eq_ok hgathered
      have hin : numbered.1 ∈ (Driver.byNumber (schedule.outcomes init step)).map Prod.fst :=
        List.mem_map_of_mem (hperm.mem_iff.mpr hmem)
      rw [List.map_id] at hall
      rw [hall, hfault] at hin
      obtain ⟨result, _, hresult⟩ := List.mem_map.mp hin
      exact absurd hresult (by simp)
  | error fault =>
      obtain ⟨done, hmem, hdone⟩ := exists_of_mapM_eq_error hgathered
      obtain ⟨numbered, hnumbered, rfl⟩ := List.mem_map.mp hmem
      refine ⟨fault, rfl, numbered.2, ?_⟩
      have hnumber : numbered = (.error fault, numbered.2) := Prod.ext hdone rfl
      exact hnumber ▸ hperm.mem_iff.mp hnumbered

end Waiting

namespace Compiled

variable {driver : Driver (List Float) (Stack Float) Fault Float} {e : Compiled}
  {rows : List (List Float)} {results : List Float}

/-- **On any schedule a row comes to what it comes to by itself.** -/
theorem outcomes_evaluateOn_perm (e : Compiled) (schedule : Schedule rows) :
    (schedule.outcomes e.freshStack e.evaluateOn).Perm (rows.map e.evaluate).zipIdx :=
  schedule.outcomes_perm e.fst_evaluateOn e.freshStack

theorem mem_outcomes_iff {schedule : Schedule rows} {outcome : Except Fault Float} {i : Nat} :
    (outcome, i) ∈ schedule.outcomes e.freshStack e.evaluateOn ↔
      (rows.map e.evaluate)[i]? = some outcome := by
  rw [(e.outcomes_evaluateOn_perm schedule).mem_iff, List.mem_zipIdx_iff_getElem?]

theorem exists_of_mem_outcomes {schedule : Schedule rows} {done : Except Fault Float × Nat}
    (h : done ∈ schedule.outcomes e.freshStack e.evaluateOn) :
    ∃ row ∈ rows, e.evaluate row = done.1 :=
  List.mem_map.mp (List.mem_of_getElem? (mem_outcomes_iff.mp h))

/-- Rows that all have results have them in a batch. -/
theorem exists_results_of_batch (hordered : driver.InRowOrder) (schedule : Schedule rows)
    (h : ∀ row ∈ rows, ∃ x, e.evaluate row = .ok x) :
    ∃ results, e.evaluateBatch driver schedule = .ok results ∧
      rows.map e.evaluate = results.map .ok := by
  have hall : ∀ done ∈ schedule.outcomes e.freshStack e.evaluateOn,
      ∃ result, done.1 = .ok result := by
    intro done hdone
    obtain ⟨row, hrow, hrun⟩ := exists_of_mem_outcomes hdone
    rw [← hrun]
    exact h row hrow
  obtain ⟨results, hresults, hlength, hplaces⟩ := hordered rows schedule e.freshStack e.evaluateOn
    hall
  refine ⟨results, hresults, ?_⟩
  refine List.ext_getElem (by simp [hlength]) ?_
  intro i hi hi'
  rw [List.length_map] at hi'
  have hplace := mem_outcomes_iff.mp (hplaces i results[i] (List.getElem?_eq_getElem hi'))
  rw [List.getElem?_eq_getElem hi] at hplace
  rw [Option.some.inj hplace, List.getElem_map]

/-- A row that has a fault gives one to its batch. -/
theorem exists_fault_of_batch (hpropagates : driver.PropagatesFaults) (schedule : Schedule rows)
    {row : List Float} (hrow : row ∈ rows) {fault : Fault} (h : e.evaluate row = .error fault) :
    ∃ first, e.evaluateBatch driver schedule = .error first ∧
      ∃ other ∈ rows, e.evaluate other = .error first := by
  obtain ⟨i, hi⟩ := List.mem_iff_getElem?.mp (List.mem_map_of_mem hrow : e.evaluate row ∈ _)
  obtain ⟨first, hfirst, j, hj⟩ := hpropagates rows schedule e.freshStack e.evaluateOn
    ⟨_, mem_outcomes_iff.mpr hi, fault, h⟩
  exact ⟨first, hfirst, exists_of_mem_outcomes hj⟩

/-- Rows all have results, or one has a fault. -/
theorem results_or_fault (e : Compiled) (rows : List (List Float)) :
    (∀ row ∈ rows, ∃ x, e.evaluate row = .ok x) ∨
      ∃ row ∈ rows, ∃ fault, e.evaluate row = .error fault := by
  by_cases h : ∃ row ∈ rows, ∃ fault, e.evaluate row = .error fault
  · exact Or.inr h
  · refine Or.inl ?_
    intro row hrow
    cases hrun : e.evaluate row with
    | ok x => exact ⟨x, rfl⟩
    | error fault => exact absurd ⟨row, hrow, fault, hrun⟩ h

theorem ne_error_of_map_eq (h : rows.map e.evaluate = results.map .ok) {row : List Float}
    (hrow : row ∈ rows) {fault : Fault} : e.evaluate row ≠ .error fault := by
  have hmem : e.evaluate row ∈ results.map .ok := h ▸ List.mem_map_of_mem hrow
  obtain ⟨x, _, hx⟩ := List.mem_map.mp hmem
  rw [← hx]
  simp

/-- **A batch has results just when every row has one**, and then they are those, in order. -/
theorem evaluateBatch_eq_ok_iff (hordered : driver.InRowOrder)
    (hpropagates : driver.PropagatesFaults) (schedule : Schedule rows) :
    e.evaluateBatch driver schedule = .ok results ↔ rows.map e.evaluate = results.map .ok := by
  rcases e.results_or_fault rows with hall | ⟨row, hrow, fault, hfault⟩
  · obtain ⟨others, hothers, hrows⟩ := exists_results_of_batch hordered schedule hall
    rw [hothers, hrows, List.map_inj_right fun _ _ => Except.ok.inj, Except.ok.injEq]
  · obtain ⟨first, hfirst, _⟩ := exists_fault_of_batch hpropagates schedule hrow hfault
    rw [hfirst]
    exact ⟨fun h => absurd h (by simp), fun h => absurd hfault (ne_error_of_map_eq h hrow)⟩

/-- **A fault of a batch is the fault of a row.** -/
theorem exists_of_evaluateBatch (hordered : driver.InRowOrder)
    (hpropagates : driver.PropagatesFaults) {schedule : Schedule rows} {fault : Fault}
    (h : e.evaluateBatch driver schedule = .error fault) :
    ∃ row ∈ rows, e.evaluate row = .error fault := by
  rcases e.results_or_fault rows with hall | ⟨row, hrow, other, hother⟩
  · obtain ⟨results, hresults, _⟩ := exists_results_of_batch hordered schedule hall
    rw [hresults] at h
    exact absurd h (by simp)
  · obtain ⟨first, hfirst, hrow⟩ := exists_fault_of_batch hpropagates schedule hrow hother
    cases hfirst.symm.trans h
    exact hrow

/-- **Rows one after another are the batch of one worker.** -/
theorem evaluateAll_eq_batch (e : Compiled) (rows : List (List Float)) :
    e.evaluateAll rows = e.evaluateBatch .waiting (Schedule.alone rows) := by
  have houtcomes : (Schedule.alone rows).outcomes e.freshStack e.evaluateOn =
      (rows.map e.evaluate).zipIdx := by
    rw [Schedule.outcomes, Schedule.alone, List.flatMap_singleton,
      map_fst_inTurn e.fst_evaluateOn, List.zipIdx_map_fst, List.zipIdx_map_snd,
      List.zipIdx_eq_zip_range', List.length_map]
  have hsorted : Driver.byNumber (rows.map e.evaluate).zipIdx = (rows.map e.evaluate).zipIdx := by
    refine List.mergeSort_of_pairwise ?_
    simp only [decide_eq_true_eq]
    rw [← List.pairwise_map (f := Prod.snd) (R := (· ≤ ·)), List.zipIdx_map_snd]
    exact List.pairwise_le_range'
  rw [evaluateAll, evaluateRows_eq_mapM, evaluateBatch, Driver.waiting, houtcomes, hsorted,
    List.zipIdx_map_fst, List.mapM_map]
  rfl

end Compiled

/--
**No evaluation can tell what its stack was used for before.** Whatever runs share a stack, of any
formulas on any values and with anything on it at first, each has the outcome that it has on a fresh
stack, be the runs before it complete or not; and one that succeeds leaves its result alone. So rows
may be shared out among workers in any way: whatever driver there is that keeps the order of the
rows and loses no fault, the results are those of the rows evaluated each for itself, in their
order, and there is a fault just when a row has one, which is the fault of a row. Rows evaluated one
after another are such a batch.
-/
theorem stack_never_shows :
    (∀ (stack : Stack Float) (calls : List (Compiled × List Float)),
      (evaluateInTurn stack calls).map Prod.fst =
          calls.map (fun call => call.1.evaluate call.2) ∧
        ∀ x left, (.ok x, left) ∈ evaluateInTurn stack calls → left = [x]) ∧
    (∀ driver : Driver (List Float) (Stack Float) Fault Float,
      driver.InRowOrder → driver.PropagatesFaults →
      ∀ (e : Compiled) (rows : List (List Float)) (schedule : Schedule rows),
        (∀ results, e.evaluateBatch driver schedule = .ok results ↔
          rows.map e.evaluate = results.map .ok) ∧
        ((∃ fault, e.evaluateBatch driver schedule = .error fault) ↔
          ∃ row ∈ rows, ∃ fault, e.evaluate row = .error fault) ∧
        (∀ fault, e.evaluateBatch driver schedule = .error fault →
          ∃ row ∈ rows, e.evaluate row = .error fault)) ∧
    (∀ (e : Compiled) (rows : List (List Float)),
      e.evaluateAll rows = e.evaluateBatch .waiting (Schedule.alone rows)) := by
  refine ⟨?_, ?_, Compiled.evaluateAll_eq_batch⟩
  · intro stack calls
    exact ⟨outcomes_evaluateInTurn stack calls, fun x left => left_of_mem_evaluateInTurn⟩
  · intro driver hordered hpropagates e rows schedule
    refine ⟨fun results => Compiled.evaluateBatch_eq_ok_iff hordered hpropagates schedule, ?_,
      fun fault => Compiled.exists_of_evaluateBatch hordered hpropagates⟩
    refine ⟨?_, ?_⟩
    · intro h
      obtain ⟨fault, hfault⟩ := h
      obtain ⟨row, hrow, hrun⟩ := Compiled.exists_of_evaluateBatch hordered hpropagates hfault
      exact ⟨row, hrow, fault, hrun⟩
    · intro h
      obtain ⟨row, hrow, fault, hfault⟩ := h
      obtain ⟨first, hfirst, _⟩ :=
        Compiled.exists_fault_of_batch hpropagates schedule hrow hfault
      exact ⟨first, hfirst⟩

/-- `x - y` on rows for two workers, the second row short: the worker that takes the last row first
leaves an operand behind on the short one. Without this row there are results, in order. -/
theorem difference_for_two_workers :
    ∃ e, compile [120, 45, 121] ["x", "y"] = .ok e ∧
      (Driver.waiting : Driver (List Float) (Stack Float) Fault Float).InRowOrder ∧
      (Driver.waiting : Driver (List Float) (Stack Float) Fault Float).PropagatesFaults ∧
      (evaluateInTurn [0.5] [(e, [4.0, 1.0]), (e, [5.0]), (e, [7.0, 2.0])]).map Prod.fst =
        [.ok (4.0 - 1.0), .error (.missingValue 1 1), .ok (7.0 - 2.0)] ∧
      (∃ schedule : Schedule [[7.0, 2.0], [5.0], [4.0, 1.0]],
        schedule.shares = [[([4.0, 1.0], 2), ([5.0], 1)], [([7.0, 2.0], 0)]] ∧
        e.evaluateBatch .waiting schedule = .error (.missingValue 1 1)) ∧
      ∃ schedule : Schedule [[7.0, 2.0], [4.0, 1.0]],
        schedule.shares = [[([4.0, 1.0], 1)], [([7.0, 2.0], 0)]] ∧
        e.evaluateBatch .waiting schedule = .ok [7.0 - 2.0, 4.0 - 1.0] := by
  obtain ⟨e, hcompile, hfirst, hsecond, hlast⟩ : ∃ e, compile [120, 45, 121] ["x", "y"] = .ok e ∧
      e.evaluate [7.0, 2.0] = .ok (7.0 - 2.0) ∧ e.evaluate [5.0] = .error (.missingValue 1 1) ∧
      e.evaluate [4.0, 1.0] = .ok (4.0 - 1.0) :=
    ⟨⟨[.var "x" (some 0), .var "y" (some 1), .operator .subtract], ["x", "y"], 2⟩,
      by decide +kernel, rfl, rfl, rfl⟩
  obtain ⟨short, hshort⟩ : ∃ schedule : Schedule [[7.0, 2.0], [5.0], [4.0, 1.0]],
      schedule.shares = [[([4.0, 1.0], 2), ([5.0], 1)], [([7.0, 2.0], 0)]] :=
    ⟨⟨[[([4.0, 1.0], 2), ([5.0], 1)], [([7.0, 2.0], 0)]],
      List.reverse_perm [([7.0, 2.0], 0), ([5.0], 1), ([4.0, 1.0], 2)]⟩, rfl⟩
  obtain ⟨full, hfull⟩ : ∃ schedule : Schedule [[7.0, 2.0], [4.0, 1.0]],
      schedule.shares = [[([4.0, 1.0], 1)], [([7.0, 2.0], 0)]] :=
    ⟨⟨[[([4.0, 1.0], 1)], [([7.0, 2.0], 0)]],
      List.reverse_perm [([7.0, 2.0], 0), ([4.0, 1.0], 1)]⟩, rfl⟩
  obtain ⟨hturns, hbatch, _⟩ := stack_never_shows
  have hwaiting := hbatch .waiting waiting_inRowOrder waiting_propagatesFaults e
  refine ⟨e, hcompile, waiting_inRowOrder, waiting_propagatesFaults, ?_, ⟨short, hshort, ?_⟩, full,
    hfull, ?_⟩
  · rw [(hturns _ _).1, List.map_cons, List.map_cons, List.map_singleton, hfirst, hsecond, hlast]
  · obtain ⟨_, hfaults, hrow⟩ := hwaiting _ short
    obtain ⟨fault, hfault⟩ := hfaults.mpr ⟨[5.0], by simp, _, hsecond⟩
    obtain ⟨row, hmem, hrun⟩ := hrow fault hfault
    -- no row but the short one has a fault
    simp only [List.mem_cons, List.not_mem_nil, or_false] at hmem
    rcases hmem with rfl | rfl | rfl
    · exact absurd (hfirst.symm.trans hrun) nofun
    · cases hsecond.symm.trans hrun
      exact hfault
    · exact absurd (hlast.symm.trans hrun) nofun
  · refine ((hwaiting _ full).1 _).mpr ?_
    rw [List.map_cons, List.map_singleton, hfirst, hlast]
    rfl

end Formula
