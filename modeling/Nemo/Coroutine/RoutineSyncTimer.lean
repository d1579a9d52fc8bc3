import Mathlib.Order.Defs.LinearOrder
import Mathlib.Data.Int.Order.Basic
import Mathlib.Logic.Function.Basic
import Nemo.Infra.Lts
import Nemo.Infra.OrderedSet

/-!
# `RoutineSyncTimer`

A `TimerId` is found by its number, which stands for the `shared_ptr` to it, and `timerIds_` is the
`std::set` of these pointers. Its comparison looks at the time points only, so it is an ordered
set whose key is the time point.

## Runs

The calls are one step each, and the thread of `run()` makes two: it examines the set and takes the
first timer out if it is due, and then, with `mutex_` released, invokes the callback. Other calls
come in between. Notifying `cond_` only shortens the wait before the next examination and is left
out.

The state carries two records of the history that the code does not have: `armed` is the latest
time point of each timer that was armed and not taken out since, and `invoked` lists the callbacks
that were invoked.
-/

namespace Nemo.Coroutine

open Infra
open Function (update)

abbrev TimePoint := Int
abbrev Callback := Nat
abbrev TimerPtr := Nat

/-- A `TimerId` with its `CallbackWrapper`. -/
structure TimerId where
  tp : TimePoint
  cb : Callback
  canceled : Bool := false
  done : Bool := false

namespace TimerId

def setTimePoint (id : TimerId) (tp : TimePoint) : TimerId := { id with tp := tp }

/-- `CallbackWrapper::reset` -/
def reset (id : TimerId) : TimerId := { id with done := false }

/-- `CallbackWrapper::cancel` stores `false`. -/
def cancel (id : TimerId) : TimerId := { id with canceled := false }

def setDone (id : TimerId) : TimerId := { id with done := true }

/-- `CallbackWrapper::invoke`: whether the callback is called. -/
def invoke (id : TimerId) : Bool × TimerId :=
  if id.canceled then (false, id) else (true, id.setDone)

end TimerId

structure RoutineSyncTimer where
  timerIds : List TimerPtr := []
  /-- The `TimerId` objects; the first `made` of them exist. -/
  timer : TimerPtr → TimerId := fun _ => { tp := 0, cb := 0 }
  made : Nat := 0

namespace RoutineSyncTimer

/-- What `TimerIdCompare` looks at. -/
def tpOf (t : RoutineSyncTimer) (id : TimerPtr) : TimePoint := (t.timer id).tp

def eraseTimerId (t : RoutineSyncTimer) (target : TimerPtr) : Bool × RoutineSyncTimer :=
  let (n, timerIds) := OrderedSet.erase t.tpOf target t.timerIds
  (n == 1, { t with timerIds := timerIds })

def insertTimerId (t : RoutineSyncTimer) (id : TimerPtr) : RoutineSyncTimer :=
  { t with timerIds := OrderedSet.insert t.tpOf id t.timerIds }

/-- `std::make_shared<TimerId>(tp, cb)` -/
def make (t : RoutineSyncTimer) (tp : TimePoint) (cb : Callback) : RoutineSyncTimer :=
  { t with
    timer := update t.timer t.made { tp := tp, cb := cb }
    made := t.made + 1 }

def add (t : RoutineSyncTimer) (tp : TimePoint) (cb : Callback) : TimerPtr × RoutineSyncTimer :=
  let id := t.made
  let t := t.make tp cb
  (id, t.insertTimerId id)

def reset (t : RoutineSyncTimer) (id : TimerPtr) (tp : TimePoint) :
    Option TimerPtr × RoutineSyncTimer :=
  let (erased, t) := t.eraseTimerId id
  if erased then
    let newId := id
    let t := { t with timer := update t.timer newId ((t.timer newId).setTimePoint tp).reset }
    (some newId, t.insertTimerId newId)
  else (none, t)

def cancel (t : RoutineSyncTimer) (id : TimerPtr) : Bool × RoutineSyncTimer :=
  let t := { t with timer := update t.timer id (t.timer id).cancel }
  let (_, t) := t.eraseTimerId id
  ((t.timer id).done, t)

/-- One examination by `run()`: the first timer, if it is due, and the set without it. -/
def takeDue (t : RoutineSyncTimer) (nowTp : TimePoint) : Option (TimerPtr × RoutineSyncTimer) :=
  match t.timerIds with
  | id :: _ => if nowTp ≥ t.tpOf id then some (id, (t.eraseTimerId id).2) else none
  | [] => none

/-- `invoke` on the wrapper of `id`. -/
def invoke (t : RoutineSyncTimer) (id : TimerPtr) : Bool × RoutineSyncTimer :=
  let (called, wrapper) := (t.timer id).invoke
  (called, { t with timer := update t.timer id wrapper })

end RoutineSyncTimer

namespace Timing

/-- The timer, the clock, and what `run()` has taken out and not yet invoked. -/
structure State where
  timer : RoutineSyncTimer := {}
  now : TimePoint := 0
  invoking : Option TimerPtr := none
  armed : TimerPtr → Option TimePoint := fun _ => none
  invoked : List TimerPtr := []

inductive Action
  | add (tp : TimePoint) (cb : Callback)
  | reset (id : TimerPtr) (tp : TimePoint)
  | cancel (id : TimerPtr)
  | advance (tp : TimePoint)
  | examine
  | invoke

/-- `run()` examines the set: a timer that is taken out is no longer armed. -/
def examine (s : State) : State :=
  match s.timer.takeDue s.now with
  | some (id, t) => { s with timer := t, invoking := some id, armed := update s.armed id none }
  | none => s

def invoke (s : State) (id : TimerPtr) : State :=
  let (called, t) := s.timer.invoke id
  { s with
    timer := t
    invoking := none
    invoked := if called then s.invoked ++ [id] else s.invoked }

def step (s : State) : Action → Option State
  | .add tp cb =>
    let (id, t) := s.timer.add tp cb
    some { s with timer := t, armed := update s.armed id (some tp) }
  | .reset id tp =>
    if id < s.timer.made then
      let (_, t) := s.timer.reset id tp
      -- a timer that is armed is armed for the new time point, another one stays as it is
      some { s with timer := t, armed := update s.armed id ((s.armed id).map fun _ => tp) }
    else none
  | .cancel id =>
    if id < s.timer.made then
      let (_, t) := s.timer.cancel id
      some { s with timer := t, armed := update s.armed id none }
    else none
  | .advance tp => if s.now ≤ tp then some { s with now := tp } else none
  | .examine => if s.invoking = none then some (examine s) else none
  | .invoke => s.invoking.map (invoke s)

/-- The runs of a `RoutineSyncTimer`. -/
def system : Lts State Action where
  init := {}
  step := step

end Timing

end Nemo.Coroutine
