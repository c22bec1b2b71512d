import Mathlib.Data.List.Basic

/-!
# Delayed work

The contract of a work queue for one work item.  Scheduling an item that is pending changes nothing; a worker takes a
pending item only if no worker runs it already, and what it takes is not pending any more, so that it can be scheduled
again while it runs.  Cancelling takes a pending item away, keeps it from being scheduled again, and ends when no
worker runs it.

The place where a running instance stands in the work function is a value of `π`.
-/

/-- A work item: how often it is pending, whether it is being cancelled, and where its running instances stand. -/
structure DelayedWork (π : Type) where
  pending : Nat
  canceling : Bool
  running : List π

namespace DelayedWork

variable {π : Type} {w w' : DelayedWork π} {p : π} {i : Nat}

/-- Neither pending nor running. -/
def idle : DelayedWork π := ⟨0, false, []⟩

def schedule (w : DelayedWork π) : DelayedWork π :=
  if w.pending ≠ 0 ∨ w.canceling = true then w else { w with pending := w.pending + 1 }

/-- A worker takes the item and begins the work function at `first`. -/
def start (first : π) (w : DelayedWork π) : Option (DelayedWork π) :=
  if w.pending ≠ 0 ∧ w.running = [] then
    some { w with pending := w.pending - 1, running := w.running ++ [first] }
  else none

/-- An instance goes on. -/
def move (i : Nat) (p : π) (w : DelayedWork π) : DelayedWork π := { w with running := w.running.set i p }

/-- An instance returns. -/
def finish (i : Nat) (w : DelayedWork π) : DelayedWork π := { w with running := w.running.eraseIdx i }

def beginCancel (w : DelayedWork π) : DelayedWork π := { w with pending := 0, canceling := true }

def endCancel (w : DelayedWork π) : Option (DelayedWork π) :=
  if w.running = [] then some { w with canceling := false } else none

@[simp] theorem running_schedule (w : DelayedWork π) : w.schedule.running = w.running := by
  unfold schedule
  split <;> rfl

@[simp] theorem canceling_schedule (w : DelayedWork π) : w.schedule.canceling = w.canceling := by
  unfold schedule
  split <;> rfl

theorem of_start {first : π} (h : start first w = some w') :
    w.pending ≠ 0 ∧ w.running = [] ∧ w' = ⟨w.pending - 1, w.canceling, [first]⟩ := by
  unfold start at h
  split at h
  · rename_i hw
    rw [hw.2] at h
    exact ⟨hw.1, hw.2, (Option.some.inj h).symm⟩
  · cases h

theorem of_endCancel (h : endCancel w = some w') : w.running = [] ∧ w' = ⟨w.pending, false, []⟩ := by
  unfold endCancel at h
  split at h
  · rename_i hw
    rw [hw] at h
    exact ⟨hw, (Option.some.inj h).symm⟩
  · cases h

/-- One instance stands at `p`. -/
theorem getElem?_running (h : w.running = [p]) {q : π} (hi : w.running[i]? = some q) : i = 0 ∧ q = p := by
  rw [h] at hi
  cases i with
  | zero => exact ⟨rfl, (Option.some.inj hi).symm⟩
  | succ i => simp at hi

end DelayedWork
