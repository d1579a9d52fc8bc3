import Mathlib.Logic.Function.Basic
import Nemo.Net.ReactorBookkeeping

/-!
# `Poll` and the reactor thread

Coroutines in `Poll` of `src/net/io/hook.cc`, the reactor thread in `EpollReactor::run`, and the kernel with
its edge-triggered queue, for one descriptor. Calls of `epoll_ctl` succeed, and the descriptor stays open.

What runs with `mutex_` held is one step, as is every system call. Other descriptors of a `Poll`, and its
timer, are seen only as they wake the coroutine.
-/

namespace Nemo.Net

open Function (update)
open Infra.Mask

/-- The `pollfd`s of a `Poll` that are about the descriptor, with their indices. -/
abbrev PollFds := List (Nat × PollEvents)

/-- Where a coroutine is in `Poll`. -/
inductive Phase
  | outside
  /-- before `Suspend` -/
  | polled (fds : PollFds)
  /-- after `Suspend`, with what has been added and what has not -/
  | adding (entry : SuspendEntry) (events : Nat) (added rest : PollFds)
  | yielded (entry : SuspendEntry) (events : Nat) (added : PollFds)

/-- `ready` has the events that the descriptor is ready for, `queue` the events of `epoll`, and `taken` what
`epoll_wait` returned and `trigger` has not seen yet. -/
structure Polls (C : Type) where
  descriptor : Descriptor := {}
  ready : EpollEvents := 0
  queue : List EpollEvents := []
  taken : Option EpollEvents := none
  phase : C → Phase := fun _ => .outside
  nextTask : Nat := 0

namespace Polls

inductive Action (C : Type)
  /-- `other` says whether another descriptor is ready. -/
  | poll (c : C) (fds : PollFds) (nonblocking other : Bool)
  | suspend (c : C) (id : UInt64)
  | add (c : C)
  | yield (c : C)
  | resume (c : C)
  /-- A timer or another descriptor wakes a coroutine. -/
  | expire (task : Nat)
  /-- `epoll_wait` reports the first `n + 1` events of the queue as one. -/
  | wait (n : Nat) (revents : EpollEvents)
  | trigger
  /-- Data, the peer, reads and writes change what the descriptor is ready for. -/
  | change (ready : EpollEvents)

variable {C : Type} (s : Polls C)

/-- The mask that is registered. -/
def registered : EpollEvents := s.descriptor.epoll.getD 0

/-- The kernel has an event, unless it is empty. -/
def notify (event : EpollEvents) : List EpollEvents :=
  if event = 0 then s.queue else s.queue ++ [event]

/-- A call of the element, which may call `epoll_ctl`. An interest that is added or modified gives an event
if the descriptor is ready for it. -/
def call (a : Descriptor.Action) : Polls C :=
  { s with
    descriptor := s.descriptor.step a
    queue :=
      match (s.descriptor.outcome a).request with
      | some request =>
        match request.epollCtl.1 with
        | .add | .mod => s.notify (request.epollCtl.2 &&& s.ready)
        | .del => []
      | none => s.queue }

/-- The system call `poll` with a timeout of 0 finds the descriptor ready. -/
def findsReady (fds : PollFds) : Bool :=
  fds.any fun fd => Meets (fd.2 ||| ReactorElement.errEvent) (epollEvent2PollEvent s.ready)

def union (events : List EpollEvents) : EpollEvents := events.foldr (· ||| ·) 0

variable [DecidableEq C]

def step : Action C → Option (Polls C)
  | .poll c fds nonblocking other =>
    match s.phase c with
    | .outside =>
      if nonblocking && (other || s.findsReady fds) then some s
      else some { s with phase := update s.phase c (.polled fds) }
    | _ => none
  | .suspend c id =>
    match s.phase c with
    | .polled fds =>
      some { s with
        phase := update s.phase c (.adding ⟨id, s.nextTask⟩ s.nextTask [] fds)
        nextTask := s.nextTask + 1 }
    | _ => none
  | .add c =>
    match s.phase c with
    | .adding entry events added (fd :: rest) =>
      let s := s.call (.add fd.2 ⟨fd.1, events, entry⟩ true)
      some { s with phase := update s.phase c (.adding entry events (added ++ [fd]) rest) }
    | _ => none
  | .yield c =>
    match s.phase c with
    | .adding entry events added [] =>
      some { s with phase := update s.phase c (.yielded entry events added) }
    | _ => none
  | .resume c =>
    match s.phase c with
    | .yielded entry _ _ =>
      if s.descriptor.expired entry.task then some { s with phase := update s.phase c .outside }
      else none
    | _ => none
  | .expire task => if task < s.nextTask then some (s.call (.expire task)) else none
  | .wait n revents =>
    let events := union (s.queue.take (n + 1))
    -- the kernel may look again at what the descriptor is ready for
    if s.taken = none ∧ s.queue ≠ [] ∧
        Within (events &&& s.ready &&& s.registered) revents ∧ Within revents (events ||| s.ready) then
      some { s with
        queue := s.queue.drop (n + 1)
        taken := if revents = 0 then none else some revents }
    else none
  | .trigger =>
    match s.taken with
    | some revents =>
      some { s.call (.trigger (epollEvent2PollEvent revents) true) with taken := none }
    | none => none
  | .change ready =>
    some { s with
      ready := ready
      queue := s.notify (ready &&& ~~~s.ready &&& s.registered) }

end Polls

/-- Coroutines that poll a descriptor. -/
def polls (C : Type) [DecidableEq C] : Infra.Lts (Polls C) (Polls.Action C) where
  init := {}
  step := fun s a => s.step a

end Nemo.Net
