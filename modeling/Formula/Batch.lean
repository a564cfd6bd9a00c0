import Formula.Compiled

/-!
# Rows in parallel

Rows may be evaluated by several workers at once, each on a stack of its own that it uses for all
its rows. Which worker takes which rows, and in what order, comes about on the way. A driver sees to
that and puts together what comes of it. It is not part of this library: all that is asked of one is
that results are in the order of the rows (`InRowOrder`) and that no fault is lost
(`PropagatesFaults`).
-/

namespace Formula

section

variable {ρ σ ε β : Type}

/-- Does rows in turn, each on the state that the last one has left: what comes of each row, with
the state as it is then. A row that fails is followed by the next one like any other. -/
def inTurn (step : ρ → σ → β × σ) (state : σ) : List ρ → List (β × σ)
  | [] => []
  | row :: rows => step row state :: inTurn step (step row state).2 rows

/-- A way to share out rows: every row goes to one worker, once. -/
structure Schedule (rows : List ρ) where
  /-- The rows of each worker with their numbers, in the order in which it takes them. -/
  shares : List (List (ρ × Nat))
  complete : shares.flatten.Perm rows.zipIdx

namespace Schedule

/-- All rows for one worker, in order. -/
def alone (rows : List ρ) : Schedule rows where
  shares := [rows.zipIdx]
  complete := by simp

/-- What comes of the rows, with their numbers, when each worker starts from a state of its own. -/
def outcomes {rows : List ρ} (schedule : Schedule rows) (init : σ) (step : ρ → σ → β × σ) :
    List (β × Nat) :=
  schedule.shares.flatMap fun share =>
    ((inTurn step init (share.map Prod.fst)).map Prod.fst).zip (share.map Prod.snd)

end Schedule

/-- What has rows done in parallel: by the schedule that comes about, from the state that a worker
starts from, and by the way in which a row is done on a worker's state. -/
def Driver (ρ σ ε β : Type) : Type :=
  (rows : List ρ) → Schedule rows → σ → (ρ → σ → Except ε β × σ) → Except ε (List β)

namespace Driver

/-- If no row fails, there is one result for each row, in the order of the rows. -/
def InRowOrder (driver : Driver ρ σ ε β) : Prop :=
  ∀ (rows : List ρ) (schedule : Schedule rows) (init : σ) (step : ρ → σ → Except ε β × σ),
    (∀ done ∈ schedule.outcomes init step, ∃ result, done.1 = .ok result) →
    ∃ results, driver rows schedule init step = .ok results ∧ results.length = rows.length ∧
      ∀ i result, results[i]? = some result → (.ok result, i) ∈ schedule.outcomes init step

/-- If a row fails, the whole fails, as a row has. -/
def PropagatesFaults (driver : Driver ρ σ ε β) : Prop :=
  ∀ (rows : List ρ) (schedule : Schedule rows) (init : σ) (step : ρ → σ → Except ε β × σ),
    (∃ done ∈ schedule.outcomes init step, ∃ fault, done.1 = .error fault) →
    ∃ fault, driver rows schedule init step = .error fault ∧
      ∃ i, (.error fault, i) ∈ schedule.outcomes init step

/-- What is numbered, in the order of the numbers. -/
def byNumber (numbered : List (β × Nat)) : List (β × Nat) := numbered.mergeSort fun a b => a.2 ≤ b.2

/-- The driver that waits for all workers: results in the order of the rows, or the fault of the
first row that has one. -/
def waiting : Driver ρ σ ε β := fun _ schedule init step =>
  ((byNumber (schedule.outcomes init step)).map Prod.fst).mapM id

end Driver

end

/-- Evaluates rows in parallel: every worker starts on a fresh stack and keeps it. -/
def Compiled.evaluateBatch (driver : Driver (List Float) (Stack Float) Fault Float) (e : Compiled)
    {rows : List (List Float)} (schedule : Schedule rows) : Except Fault (List Float) :=
  driver rows schedule e.freshStack e.evaluateOn

end Formula
