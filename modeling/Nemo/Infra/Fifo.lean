import Mathlib.Data.List.Basic

/-!
# Queues

A plain queue: writes append at the end, reads take from the front, and a read of more than the
queue holds is not answered. `Fifo.run` answers a list of calls; `Counts` says how much has been
written and read since the last `clear`, without the contents.
-/

namespace Infra.Fifo

variable {α : Type}

/-- The calls on a queue. -/
inductive Op (α : Type)
  | write (buf : List α)
  | read (size : Nat)
  | clear
  deriving DecidableEq

/-- The answers of the reads, and what is left. `none` when a read asks for too much. -/
def run : List α → List (Op α) → Option (List (List α) × List α)
  | queue, [] => some ([], queue)
  | queue, .write buf :: ops => run (queue ++ buf) ops
  | queue, .read size :: ops =>
    if size ≤ queue.length then
      (run (queue.drop size) ops).map fun (answers, rest) => (queue.take size :: answers, rest)
    else none
  | _, .clear :: ops => run [] ops

/-- Everything that was written. -/
def written : List (Op α) → List α
  | [] => []
  | .write buf :: ops => buf ++ written ops
  | .read _ :: ops => written ops
  | .clear :: ops => written ops

/-- Without a `clear`, what was read and what is left is what was written. -/
theorem flatten_run {ops : List (Op α)} (hc : .clear ∉ ops) {queue rest : List α}
    {answers : List (List α)} (h : run queue ops = some (answers, rest)) :
    answers.flatten ++ rest = queue ++ written ops := by
  induction ops generalizing queue answers with
  | nil =>
    cases h
    simp [written]
  | cons op ops ih =>
    have hc' : Op.clear ∉ ops := fun hm => hc (List.mem_cons_of_mem _ hm)
    cases op with
    | write buf =>
      rw [run] at h
      rw [ih hc' h, written, List.append_assoc]
    | read size =>
      rw [run] at h
      split at h
      · rw [Option.map_eq_some_iff] at h
        obtain ⟨⟨answers', rest'⟩, h', heq⟩ := h
        cases heq
        rw [List.flatten_cons, List.append_assoc, ih hc' h', written, ← List.append_assoc,
          List.take_append_drop]
      · cases h
    | clear => exact absurd List.mem_cons_self hc

/-- How many elements were written and read since the last `clear`. -/
structure Counts where
  written : Nat
  read : Nat

namespace Counts

/-- A read of more than there is changes nothing. -/
def step (c : Counts) : Op α → Counts
  | .write buf => { c with written := c.written + buf.length }
  | .read size => if size ≤ c.written - c.read then { c with read := c.read + size } else c
  | .clear => { written := 0, read := 0 }

def after (c : Counts) (ops : List (Op α)) : Counts := ops.foldl step c

@[simp] theorem after_nil (c : Counts) : c.after ([] : List (Op α)) = c := rfl

@[simp] theorem after_cons (c : Counts) (op : Op α) (ops : List (Op α)) :
    c.after (op :: ops) = (c.step op).after ops := rfl

theorem read_le_step {c : Counts} (h : c.read ≤ c.written) (op : Op α) :
    (c.step op).read ≤ (c.step op).written := by
  cases op with
  | write buf =>
    show c.read ≤ c.written + buf.length
    omega
  | read size =>
    unfold step
    dsimp only
    split
    · show c.read + size ≤ c.written
      omega
    · exact h
  | clear => exact Nat.le_refl 0

/-- No more is read than was written. -/
theorem read_le_after {c : Counts} (h : c.read ≤ c.written) (ops : List (Op α)) :
    (c.after ops).read ≤ (c.after ops).written := by
  induction ops generalizing c with
  | nil => exact h
  | cons op ops ih => exact ih (read_le_step h op)

end Counts

/-- The counts after all of `ops`. -/
def counts (ops : List (Op α)) : Counts := Counts.after { written := 0, read := 0 } ops

end Infra.Fifo
