import Nemo.Infra.Custody
import Nemo.Coroutine.Moves

/-!
# Who owns a task

A task is owned through a queue, through `runningTask_` or `nextTask_`, through the list in the
hands of `addNewTask` or of the balancer, or through the control block of a suspension.
`State.held` is this distribution. `Owned` is the invariant of the runs in which the balancer
leaves running tasks alone:

* no task is owned twice, and every task that has not ended is owned
* between `Suspend` and `Yield` a task is owned by its suspension and not by `runningTask_`;
  once woken, it waits on the `runQue_` of the processor that still runs it
* `nextTask_` holds a task only in this window
* the owners of a control block are its element of `waitSet_` and the `WakeUp` calls in progress
-/

namespace Nemo.Coroutine

open Function (update)
open Infra

/-! ## The places -/

/-- The places of one processor. -/
inductive Slot
  | newQue | runQue | inHand | runningTask | nextTask
  deriving DecidableEq

inductive Place
  | proc (p : ProcId) (i : Slot)
  | suspension (e : SuspendId)
  | transfer
  deriving DecidableEq

/-- `t` runs on a processor in the state `P`, has called `Suspend`, and is not yet released. -/
def Processor.Suspended (P : Processor) (task : TaskId → Task) (t : TaskId) : Prop :=
  (P.pc = .running ∨ P.pc = .switching) ∧ P.runningTask = some t ∧ (task t).state = .block

instance (P : Processor) (task : TaskId → Task) (t : TaskId) : Decidable (P.Suspended task t) :=
  inferInstanceAs (Decidable (_ ∧ _))

/-- What one processor owns. Its `runningTask_` does not own a suspended task. -/
def Processor.held (P : Processor) (task : TaskId → Task) : Slot → List TaskId
  | .newQue => P.newQue
  | .runQue => P.runQue
  | .inHand => P.inHand
  | .runningTask => P.runningTask.toList.filter fun t => ¬ P.Suspended task t
  | .nextTask => P.nextTask.toList

/-- A control block owns its task as long as it has an owner itself. -/
def Suspension.held (b : Suspension) : List TaskId := if b.owners = ∅ then [] else [b.task]

/-- Which tasks each place owns. -/
def State.held (s : State) : Place → List TaskId
  | .proc p i => (s.proc p).held s.task i
  | .suspension e => (s.suspension e).elim [] Suspension.held
  | .transfer => s.transfer

/-! ## The invariant -/

def TaskState.ended (x : TaskState) : Prop := x = .done ∨ x = .except

/-- A processor and the task it runs agree on where they are. -/
structure Processor.Agrees (P : Processor) (p : ProcId) (task : TaskId → Task) : Prop where
  processor : ∀ t, P.pc = .running → P.runningTask = some t → (task t).processor = some p
  running : ∀ t, P.pc = .running → P.runningTask = some t →
    (task t).state = .running ∨ (task t).state = .block
  switching : ∀ t, P.pc = .switching → P.runningTask = some t →
    (task t).state = .running ∨ (task t).state = .block ∨ (task t).state.ended
  erase : ∀ t, P.pc = .erase ∨ P.pc = .popNew .erase ∨ P.pc = .pushNew .erase →
    P.runningTask = some t → (task t).state.ended
  nextTask : P.nextTask ≠ none → ∃ t, P.Suspended task t

/-- What each processor keeps by itself. -/
structure Processor.Local (P : Processor) : Prop where
  runningSet : P.RunningSet
  inHand : P.inHand ≠ [] → ∃ k, P.pc = .pushNew k

/-- The control block `b` of `e` and the `shared_ptr`s that the rest of the state holds. -/
structure SuspensionOk (s : State) (e : SuspendId) (b : Suspension) : Prop where
  taskPtr : .taskPtr ∉ b.owners
  waitSet : .waitSet ∈ b.owners → (s.proc b.processor).waitSet b.task = some e
  caller : ∀ c, .caller c ∈ b.owners ↔ ∃ st, s.call c = some ⟨e, st⟩
  locked : ∀ c, .caller c ∈ b.owners → b.locked = true
  unlocked : b.locked = false → .waitSet ∈ b.owners
  erasing : b.locked = true → .waitSet ∈ b.owners → ∃ c, s.call c = some ⟨e, .locked⟩
  processor : b.owners ≠ ∅ → (s.task b.task).processor = some b.processor
  pushes : b.pushes = if b.owners = ∅ then 1 else 0

structure SuspensionsOk (s : State) : Prop where
  fresh : ∀ e, s.nextSuspension ≤ e → s.suspension e = none
  ok : ∀ e b, s.suspension e = some b → SuspensionOk s e b
  waitSet : ∀ p t e, (s.proc p).waitSet t = some e →
    ∃ b, s.suspension e = some b ∧ b.task = t ∧ b.processor = p ∧ .waitSet ∈ b.owners
  call : ∀ c e st, s.call c = some ⟨e, st⟩ → ∃ b, s.suspension e = some b

/-- A task that is suspended on `p` can only come back through the `runQue_` of `p`. -/
def State.Returns (s : State) (p : ProcId) (t : TaskId) : Prop :=
  t ∈ (s.proc p).runQue ∨
    ∃ e b, s.suspension e = some b ∧ b.owners ≠ ∅ ∧ b.task = t ∧ b.processor = p

structure Owned (s : State) : Prop where
  exclusive : Exclusive s.held
  added : ∀ t, Held s.held t → s.added t = true
  held : ∀ t, s.added t = true → ¬ (s.task t).state.ended → Held s.held t
  agrees : ∀ p, (s.proc p).Agrees p s.task
  returns : ∀ p t, (s.proc p).Suspended s.task t → s.Returns p t
  suspensions : SuspensionsOk s

/-! ## Consequences -/

theorem held_runningTask_of_not_suspended {P : Processor} {task : TaskId → Task} {t : TaskId}
    (ht : P.runningTask = some t) (hs : ¬ P.Suspended task t) :
    P.held task .runningTask = [t] := by
  simp [Processor.held, ht, hs]

theorem held_runningTask_of_suspended {P : Processor} {task : TaskId → Task} {t : TaskId}
    (hs : P.Suspended task t) : P.held task .runningTask = [] := by
  simp [Processor.held, hs.2.1, hs]

theorem held_suspension {s : State} {e : SuspendId} {b : Suspension}
    (hb : s.suspension e = some b) (ho : b.owners ≠ ∅) : s.held (.suspension e) = [b.task] := by
  simp [State.held, hb, Suspension.held, ho]

/-- A running task is owned by its processor, or comes back to it. -/
theorem Owned.place {s : State} (h : Owned s) {p : ProcId} {t : TaskId}
    (ht : (s.proc p).runningTask = some t) :
    (t ∈ s.held (.proc p .runningTask)) ∨ t ∈ s.held (.proc p .runQue) ∨
      ∃ e b, s.suspension e = some b ∧ b.processor = p ∧ t ∈ s.held (.suspension e) := by
  by_cases hs : (s.proc p).Suspended s.task t
  · rcases h.returns p t hs with hr | ⟨e, b, hb, ho, hbt, hbp⟩
    · exact Or.inr (Or.inl hr)
    · refine Or.inr (Or.inr ⟨e, b, hb, hbp, ?_⟩)
      rw [held_suspension hb ho, hbt]
      exact List.mem_singleton.mpr rfl
  · refine Or.inl ?_
    show t ∈ (s.proc p).held s.task .runningTask
    rw [held_runningTask_of_not_suspended ht hs]
    exact List.mem_singleton.mpr rfl

/-- **A task is the running task of at most one processor.** -/
theorem Owned.runningTask_unique {s : State} (h : Owned s) {p q : ProcId} {t : TaskId}
    (hp : (s.proc p).runningTask = some t) (hq : (s.proc q).runningTask = some t) : p = q := by
  have hu := h.exclusive.unique
  rcases h.place hp with hp | hp | ⟨e, b, hb, hbp, hp⟩ <;>
    rcases h.place hq with hq | hq | ⟨e', b', hb', hbq, hq⟩ <;>
    have hpl := hu _ _ _ hp hq <;> simp_all

/-- What a processor that is not in the window runs, nobody else owns. -/
theorem Owned.not_mem_of_running {s : State} (h : Owned s) {p : ProcId} {t : TaskId}
    (ht : (s.proc p).runningTask = some t) (hs : ¬ (s.proc p).Suspended s.task t) {i : Place}
    (hi : i ≠ .proc p .runningTask) : t ∉ s.held i := by
  intro hm
  refine hi (h.exclusive.unique _ _ t hm ?_)
  show t ∈ (s.proc p).held s.task .runningTask
  rw [held_runningTask_of_not_suspended ht hs]
  exact List.mem_singleton.mpr rfl

/-- Two control blocks that still have owners do not share a task. -/
theorem Owned.suspension_unique {s : State} (h : Owned s) {e e' : SuspendId} {b b' : Suspension}
    (hb : s.suspension e = some b) (hb' : s.suspension e' = some b') (ho : b.owners ≠ ∅)
    (ho' : b'.owners ≠ ∅) (ht : b.task = b'.task) : e = e' := by
  have h1 : b.task ∈ s.held (.suspension e) := by simp [held_suspension hb ho]
  have h2 : b.task ∈ s.held (.suspension e') := by simp [held_suspension hb' ho', ht]
  have hpl := h.exclusive.unique _ _ _ h1 h2
  cases hpl
  rfl

end Nemo.Coroutine
