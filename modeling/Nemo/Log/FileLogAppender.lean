import Mathlib.Algebra.Group.Nat.Defs
import Mathlib.Logic.Function.Basic
import Nemo.Container.Buffer
import Nemo.Infra.Lts
import Nemo.Log.Logger

/-!
# `FileLogAppender`

`src/log/log_appender.cc`. Any number of threads call `log`, `start` and `stop`, one of them destroys the
appender, and `start` makes the thread that runs `consumeFunc`.

* a call is cut at every access to `running_` and `thread_`, and at the mutex
* `consumeFunc` is cut at its tests of `running_`, at the mutex, and at every buffer it writes
* a failed assertion, or a null pointer that is followed, sets `fault` and ends the run

`logged` records the formatted messages in the order in which `log` has taken the mutex.
-/

namespace Nemo.Log

open Function (update)
open Http

def execPageSize : Nat := 4096

/-- `new Buffer(EXEC_PAGESIZE, true)`. -/
def newBuffer : Buffer := { capacity := execPageSize, fixed := true }

/-! ## Files -/

/-- What an appender is constructed with. -/
structure Config where
  level : LogLevel := .debug
  flushInterval : UInt64 := 3
  rollThreshold : Int := 1000 * 1000 * 1000
  checkThreshold : UInt32 := 1024

/-- The files, oldest first, the one that is open, and when to roll. -/
structure Files where
  closed : List Bytes := []
  current : Bytes := []
  writtenBytes : Nat := 0
  writeCount : UInt32 := 0
  startOfPeriod : Nat := 0
  lastRoll : Nat := 0
  lastFlush : Nat := 0

def kRollPerSeconds : Nat := 60 * 60 * 24

/-- The bytes of all files, in the order of rolling. -/
def Files.contents (f : Files) : Bytes := f.closed.flatten ++ f.current

/-- `rollFile` at the time `now`. -/
def Files.rollFile (f : Files) (now : Nat) : Files :=
  if now > f.lastRoll then
    { f with
      closed := f.closed ++ [f.current]
      current := []
      writtenBytes := 0
      startOfPeriod := now / kRollPerSeconds * kRollPerSeconds
      lastRoll := now
      lastFlush := now }
  else f

/-- One round of `write`: `now` is the time that it reads, and `rollNow` the one that `rollFile` does. -/
def Files.write (f : Files) (cfg : Config) (now rollNow : Nat) (data : Bytes) : Files :=
  let f := { f with current := f.current ++ data, writtenBytes := f.writtenBytes + data.length }
  if (f.writtenBytes : Int) > cfg.rollThreshold then f.rollFile rollNow
  else
    let f := { f with writeCount := f.writeCount + 1 }
    if f.writeCount ≥ cfg.checkThreshold then
      let f := { f with writeCount := 0 }
      if now / kRollPerSeconds * kRollPerSeconds ≠ f.startOfPeriod then f.rollFile rollNow
      else if (now + 2 ^ 64 - f.lastFlush) % 2 ^ 64 > cfg.flushInterval.toNat then
        { f with lastFlush := now }
      else f
    else f

/-! ## States -/

/-- A failed assertion, or a null pointer that is followed. -/
inductive AppenderFault
  /-- `NEMO_ASSERT(running_)` -/
  | notRunning
  /-- one of the three assertions at the head of the loop -/
  | spareBuffers
  /-- `NEMO_ASSERT(!buffsToWrite.empty())`, or a null element taken out of `buffsToWrite` -/
  | nothingToRefill
  /-- `currBuff_` is null in `log` -/
  | nullCurrBuff
  /-- an element of the vector is null in `write` -/
  | nullWritten
  /-- `thread_` is null in `start`, or was started before -/
  | badThread
  /-- `join` of a thread that was not started -/
  | joinNotStarted
  deriving DecidableEq, Repr

/-- The places of `consumeFunc` between two steps. -/
inductive ConsumerPc
  /-- before `NEMO_ASSERT(running_)` -/
  | entry
  /-- before the test of the loop -/
  | head
  /-- before the mutex -/
  | lock
  /-- in `cond_.wait_for` -/
  | waiting
  /-- in `write`, with the buffers that are still to be written; `final` after the loop -/
  | writing (rest : List (Option Buffer)) (final : Bool)
  /-- behind `write` in the loop -/
  | refill
  /-- behind the loop, before the mutex -/
  | drain
  | finished
  deriving DecidableEq

/-- A thread that runs `consumeFunc`. -/
structure Consumer where
  pc : ConsumerPc := .entry
  newBuff1 : Option Buffer := some newBuffer
  newBuff2 : Option Buffer := some newBuffer
  buffsToWrite : List (Option Buffer) := []

/-- A `Thread` object. -/
structure Thread where
  id : Nat
  started : Bool := false
  deriving DecidableEq

/--
The places of a call between two steps. `log` goes through `start` with its formatted message, if
its level is enabled, and the destructor goes through `stop` with `dtor` set.
-/
inductive CallPc
  | idle
  /-- in `start`: before the test of `running_` -/
  | startCheck (str : Option Bytes)
  /-- before `running_ = true` -/
  | startStore (str : Option Bytes)
  /-- before `thread_.reset(new Thread(…))` -/
  | startMake (str : Option Bytes)
  /-- before `thread_->start()` -/
  | startThread (str : Option Bytes)
  /-- in `log`: before the mutex -/
  | logLock (str : Bytes)
  /-- in `stop`: before the test of `running_` -/
  | stopCheck (dtor : Bool)
  /-- before `running_.store(false)` -/
  | stopStore (dtor : Bool)
  /-- before `thread_` is moved out -/
  | stopMove (dtor : Bool)
  /-- before `join` -/
  | stopJoin (thread : Option Thread) (dtor : Bool)
  /-- in the destructor, behind `stop` -/
  | destroy
  /-- in `write` of the destructor, with the buffers that are still to be written -/
  | destroying (rest : List (Option Buffer))
  deriving DecidableEq

/-- Behind `start`. -/
def CallPc.started : Option Bytes → CallPc
  | none => .idle
  | some str => .logLock str

/-- Behind `stop`. -/
def CallPc.stopped (dtor : Bool) : CallPc := if dtor then .destroy else .idle

/-- The appender, its callers, which are the threads `T`, and its consumers. -/
structure Appender (T : Type) where
  currBuff : Option Buffer := some newBuffer
  nextBuff : Option Buffer := some newBuffer
  buffers : List (Option Buffer) := []
  running : Bool := false
  thread : Option Thread := none
  files : Files := {}
  call : T → CallPc := fun _ => .idle
  consumer : Nat → Option Consumer := fun _ => none
  nextThread : Nat := 0
  destroyed : Bool := false
  fault : Option AppenderFault := none
  logged : List Bytes := []

namespace Appender

variable {T : Type} [DecidableEq T] (s : Appender T)

def setCall (k : T) (pc : CallPc) : Appender T := { s with call := update s.call k pc }

def setConsumer (c : Nat) (x : Consumer) : Appender T :=
  { s with consumer := update s.consumer c (some x) }

def fail (e : AppenderFault) : Appender T := { s with fault := some e }

/-! ## Calls -/

/-- The section of `log` under the mutex. -/
def append (str : Bytes) : Appender T :=
  match s.currBuff with
  | none => s.fail .nullCurrBuff
  | some curr =>
    let s := { s with logged := s.logged ++ [str] }
    if curr.avail > str.length then { s with currBuff := some (curr.append str).2 }
    else
      let s := { s with buffers := s.buffers ++ [some curr] }
      match s.nextBuff with
      | some next => { s with currBuff := some (next.append str).2, nextBuff := none }
      | none => { s with currBuff := some (newBuffer.append str).2 }

/-- The buffers that are not empty, at the end of `consumeFunc` and in the destructor. -/
def remaining (b : Option Buffer) : List (Option Buffer) :=
  match b with
  | some x => if x.empty then [] else [some x]
  | none => []

/-- Such a buffer is moved out. -/
def left (b : Option Buffer) : Option Buffer :=
  match b with
  | some x => if x.empty then some x else none
  | none => none

/-- The section behind the loop, and the first part of the destructor. -/
def collect : List (Option Buffer) × Appender T :=
  (s.buffers ++ remaining s.currBuff ++ remaining s.nextBuff,
    { s with buffers := [], currBuff := left s.currBuff, nextBuff := left s.nextBuff })

/-- The next step of a call. The two times are for the files. -/
def stepCall (cfg : Config) (k : T) (now rollNow : Nat) : Option (Appender T) :=
  match s.call k with
  | .idle => none
  | .startCheck str => some (s.setCall k (if s.running then .started str else .startStore str))
  | .startStore str => some ({ s with running := true }.setCall k (.startMake str))
  | .startMake str =>
    some ({ s with thread := some { id := s.nextThread }, nextThread := s.nextThread + 1 }.setCall k
      (.startThread str))
  | .startThread str =>
    match s.thread with
    | none => some (s.fail .badThread)
    | some t =>
      if t.started then some (s.fail .badThread)
      else
        some (({ s with thread := some { t with started := true } }.setConsumer t.id {}).setCall k
          (.started str))
  | .logLock str => some ((s.append str).setCall k .idle)
  | .stopCheck dtor => some (s.setCall k (if s.running then .stopStore dtor else .stopped dtor))
  | .stopStore dtor => some ({ s with running := false }.setCall k (.stopMove dtor))
  | .stopMove dtor => some ({ s with thread := none }.setCall k (.stopJoin s.thread dtor))
  | .stopJoin none dtor => some (s.setCall k (.stopped dtor))
  | .stopJoin (some t) dtor =>
    if t.started then
      match s.consumer t.id with
      | some x => if x.pc = .finished then some (s.setCall k (.stopped dtor)) else none
      | none => none
    else some (s.fail .joinNotStarted)
  | .destroy =>
    let (buffers, s) := s.collect
    some (s.setCall k (.destroying buffers))
  | .destroying [] => some (s.setCall k .idle)
  | .destroying (none :: _) => some (s.fail .nullWritten)
  | .destroying (some b :: rest) =>
    some ({ s with files := s.files.write cfg now rollNow b.bytes }.setCall k (.destroying rest))

/-! ## The consumer -/

/-- The rest of the section under the mutex, behind the wait. -/
def swap (c : Nat) (x : Consumer) : Appender T :=
  let buffers := s.buffers ++ [s.currBuff]
  let s := { s with currBuff := x.newBuff1, buffers := x.buffsToWrite }
  let x := { x with newBuff1 := none, buffsToWrite := buffers, pc := .writing buffers false }
  match s.nextBuff with
  | some _ => s.setConsumer c x
  | none => { s with nextBuff := x.newBuff2 }.setConsumer c { x with newBuff2 := none }

/-- A spare buffer is refilled from the end of `buffsToWrite`. -/
def refillOne (b : Option Buffer) (buffs : List (Option Buffer)) :
    Option (Option Buffer × List (Option Buffer)) :=
  match b with
  | some x => some (some x, buffs)
  | none =>
    match buffs.getLast? with
    | some (some x) => some (some x.clear, buffs.dropLast)
    | _ => none

/-- The part of the loop behind `write`. -/
def refill (c : Nat) (x : Consumer) : Appender T :=
  match refillOne x.newBuff1 (x.buffsToWrite.take 2) with
  | none => s.fail .nothingToRefill
  | some (newBuff1, buffs) =>
    match refillOne x.newBuff2 buffs with
    | none => s.fail .nothingToRefill
    | some (newBuff2, _) =>
      s.setConsumer c { pc := .head, newBuff1 := newBuff1, newBuff2 := newBuff2, buffsToWrite := [] }

def isSpare (b : Option Buffer) : Bool :=
  match b with
  | some x => x.empty
  | none => false

/-- The next step of `consumeFunc`. -/
def stepConsumer (cfg : Config) (c : Nat) (x : Consumer) (now rollNow : Nat) : Option (Appender T) :=
  match x.pc with
  | .entry =>
    some (if s.running then s.setConsumer c { x with pc := .head } else s.fail .notRunning)
  | .head =>
    if s.running then
      if isSpare x.newBuff1 && isSpare x.newBuff2 && x.buffsToWrite.isEmpty then
        some (s.setConsumer c { x with pc := .lock })
      else some (s.fail .spareBuffers)
    else some (s.setConsumer c { x with pc := .drain })
  | .lock =>
    if s.buffers.isEmpty then some (s.setConsumer c { x with pc := .waiting })
    else some (s.swap c x)
  | .waiting => some (s.swap c x)
  | .writing [] final => some (s.setConsumer c { x with pc := if final then .finished else .refill })
  | .writing (none :: _) _ => some (s.fail .nullWritten)
  | .writing (some b :: rest) final =>
    some ({ s with files := s.files.write cfg now rollNow b.bytes }.setConsumer c
      { x with pc := .writing rest final })
  | .refill => some (s.refill c x)
  | .drain =>
    let (buffers, s) := s.collect
    some ({ s with buffers := x.buffsToWrite }.setConsumer c
      { x with buffsToWrite := buffers, pc := .writing buffers true })
  | .finished => none

/-! ## Steps -/

inductive Act (T : Type)
  /-- thread `k` calls `log` with a message of the level, formatted as `str` -/
  | log (k : T) (level : LogLevel) (str : Bytes)
  | start (k : T)
  | stop (k : T)
  /-- thread `k` destroys the appender -/
  | destroy (k : T)
  /-- the next step of the call of thread `k` -/
  | call (k : T) (now rollNow : Nat)
  /-- the next step of the consumer `c` -/
  | consume (c now rollNow : Nat)

/-- A call begins. `log` tests `running_` before anything else. -/
def begin (k : T) (pc : CallPc) : Option (Appender T) :=
  match s.call k with
  | .idle => if s.destroyed then none else some (s.setCall k pc)
  | _ => none

def step (cfg : Config) (a : Act T) : Option (Appender T) :=
  if s.fault.isSome then none
  else
    match a with
    | .log k level str =>
      let str := if cfg.level.toNat ≤ level.toNat then some str else none
      s.begin k (if s.running then .started str else .startCheck str)
    | .start k => s.begin k (.startCheck none)
    | .stop k => s.begin k (.stopCheck false)
    | .destroy k => (s.begin k (.stopCheck true)).map ({ · with destroyed := true })
    | .call k now rollNow => s.stepCall cfg k now rollNow
    | .consume c now rollNow =>
      match s.consumer c with
      | none => none
      | some x => s.stepConsumer cfg c x now rollNow

end Appender

/-- The appender that has been constructed at the time `now`, and is used by the threads `T`. -/
def fileLogAppender (T : Type) [DecidableEq T] (cfg : Config) (now : Nat) :
    Infra.Lts (Appender T) (Appender.Act T) where
  init := { files := Files.rollFile {} now }
  step s a := s.step cfg a

end Nemo.Log
