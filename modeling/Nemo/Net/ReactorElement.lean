import Nemo.Infra.Mask

/-!
# `ReactorElement` and `EpollReactor`

The waiters of one descriptor, from `src/net/io/reactor_element.cc`, and the calls to `epoll_ctl` that
`src/net/io/epoll_reactor.cc` makes for it. What is done with `mutex_` held is one function. It has the answer of
the reactor as an argument, and says what was asked of the reactor and who was woken.
-/

namespace Nemo.Net

open Infra.Mask

/-! ## Events -/

/-- `short int`, with the flags of `poll` -/
abbrev PollEvents := BitVec 16

def pollIn : PollEvents := 0x01
def pollOut : PollEvents := 0x04
def pollErr : PollEvents := 0x08
def pollHup : PollEvents := 0x10
def pollNval : PollEvents := 0x20

/-- `uint32_t`, with the flags of `epoll` -/
abbrev EpollEvents := BitVec 32

def epollIn : EpollEvents := 0x01
def epollOut : EpollEvents := 0x04
def epollErr : EpollEvents := 0x08
def epollHup : EpollEvents := 0x10
def epollEt : EpollEvents := 0x80000000

def pollEvent2EpollEvent (pollEvent : PollEvents) : EpollEvents :=
  (if Meets pollEvent pollIn then epollIn else 0) |||
  (if Meets pollEvent pollOut then epollOut else 0) |||
  (if Meets pollEvent pollErr then epollErr else 0) |||
  (if Meets pollEvent pollHup then epollHup else 0)

def epollEvent2PollEvent (epollEvent : EpollEvents) : PollEvents :=
  (if Meets epollEvent epollIn then pollIn else 0) |||
  (if Meets epollEvent epollOut then pollOut else 0) |||
  (if Meets epollEvent epollErr then pollErr else 0) |||
  (if Meets epollEvent epollHup then pollHup else 0)

/-! ## Entries -/

/-- `task` names what the weak pointer looks at. It is made anew by every `Suspend`. -/
structure SuspendEntry where
  id : UInt64
  task : Nat
  deriving DecidableEq, Repr

/-- `events` is the address of the array. -/
structure Entry where
  index : Nat
  events : Nat
  suspendEntry : SuspendEntry
  deriving DecidableEq, Repr

/-- `operator==`, which compares the `id_` of the suspensions only -/
def Entry.equal (entry other : Entry) : Bool :=
  entry.index == other.index && entry.events == other.events &&
    entry.suspendEntry.id == other.suspendEntry.id

/-- One of `in_`, `out_`, `inAndOut_` and `error_`. -/
inductive EntryVector
  | in_ | out_ | inAndOut_ | error_
  deriving DecidableEq, Repr

structure ReactorElement where
  inEntries : List Entry := []
  outEntries : List Entry := []
  inAndOutEntries : List Entry := []
  errorEntries : List Entry := []
  event : PollEvents := 0
  deriving DecidableEq, Repr

/-- What an element asks its reactor. -/
inductive Request
  | addEvent (event promiseEvent : PollEvents)
  | delEvent (event promiseEvent : PollEvents)
  deriving DecidableEq, Repr

/-- The element after a call, and what the call did: `woken` has the entries passed to `WakeUp`, each with the
`revent` that was written for it. -/
structure Outcome where
  element : ReactorElement
  request : Option Request := none
  result : Bool := true
  woken : List (Entry × PollEvents) := []

namespace ReactorElement

variable (m : ReactorElement)

def entries : EntryVector → List Entry
  | .in_ => m.inEntries
  | .out_ => m.outEntries
  | .inAndOut_ => m.inAndOutEntries
  | .error_ => m.errorEntries

def modify (selected : EntryVector) (f : List Entry → List Entry) : ReactorElement :=
  match selected with
  | .in_ => { m with inEntries := f m.inEntries }
  | .out_ => { m with outEntries := f m.outEntries }
  | .inAndOut_ => { m with inAndOutEntries := f m.inAndOutEntries }
  | .error_ => { m with errorEntries := f m.errorEntries }

def select (pollEvent : PollEvents) : EntryVector :=
  if Meets pollEvent pollIn ∧ Meets pollEvent pollOut then .inAndOut_
  else if Meets pollEvent pollIn then .in_
  else if Meets pollEvent pollOut then .out_
  else .error_

def rollback (entries : List Entry) (entry : Entry) : List Entry := entries.eraseP (·.equal entry)

def removeExpired (expired : Nat → Bool) (entries : List Entry) : List Entry :=
  entries.filter fun entry => !expired entry.suspendEntry.task

/-- `ok` is the answer of the reactor, if it is asked. -/
def add (expired : Nat → Bool) (pollEvent : PollEvents) (entry : Entry) (ok : Bool) : Outcome :=
  let entryVector := select pollEvent
  let m := m.modify entryVector fun entries => removeExpired expired entries ++ [entry]
  let addEvent := pollEvent &&& (pollIn ||| pollOut)
  let addEvent := if addEvent = 0 then addEvent ||| pollErr else addEvent
  let promiseEvent := m.event ||| addEvent
  let addEvent := promiseEvent &&& ~~~m.event
  if promiseEvent ≠ m.event then
    if ok then
      { element := { m with event := promiseEvent }
        request := some (.addEvent addEvent promiseEvent) }
    else
      { element := m.modify entryVector (rollback · entry)
        request := some (.addEvent addEvent promiseEvent)
        result := false }
  else { element := m }

/-- `errEvent` of `trigger` -/
def errEvent : PollEvents := pollErr ||| pollHup ||| pollNval

/-- What `trigger` has found so far. -/
structure Pass where
  element : ReactorElement
  promiseEvent : PollEvents := 0
  woken : List (Entry × PollEvents) := []

/-- The waiters of one vector are woken, or it keeps its event. -/
def Pass.visit (p : Pass) (pollEvent check interest : PollEvents) (entryVector : EntryVector) : Pass :=
  if Meets pollEvent check then
    { p with
      element := p.element.modify entryVector fun _ => []
      woken := p.woken ++ (p.element.entries entryVector).map fun entry => (entry, pollEvent &&& check) }
  else if p.element.entries entryVector ≠ [] then
    { p with promiseEvent := p.promiseEvent ||| interest }
  else p

/-- The four vectors in turn. -/
def scan (pollEvent : PollEvents) : Pass :=
  let p : Pass := { element := m }
  let p := p.visit pollEvent (pollIn ||| errEvent) pollIn .in_
  let p := p.visit pollEvent (pollOut ||| errEvent) pollOut .out_
  let p := p.visit pollEvent (pollIn ||| pollOut ||| errEvent) (pollIn ||| pollOut) .inAndOut_
  p.visit pollEvent errEvent pollErr .error_

/-- `reactor` says whether there is one, and `ok` is its answer. -/
def trigger (reactor : Bool) (pollEvent : PollEvents) (ok : Bool) : Outcome :=
  let p := m.scan pollEvent
  let delEvent := p.element.event &&& ~~~p.promiseEvent
  if p.promiseEvent ≠ p.element.event ∧ reactor = true then
    { element := if ok then { p.element with event := p.promiseEvent } else p.element
      request := some (.delEvent delEvent p.promiseEvent)
      woken := p.woken }
  else { element := p.element, woken := p.woken }

def onClose : Outcome := m.trigger false pollNval true

end ReactorElement

/-! ## `epoll_ctl` -/

inductive EpollOp
  | add | mod | del
  deriving DecidableEq, Repr

namespace EpollReactor

def addEvent (event promiseEvent : PollEvents) : EpollOp × EpollEvents :=
  (if event = promiseEvent then .add else .mod, pollEvent2EpollEvent promiseEvent ||| epollEt)

def delEvent (_event promiseEvent : PollEvents) : EpollOp × EpollEvents :=
  (if promiseEvent = 0 then .del else .mod, pollEvent2EpollEvent promiseEvent ||| epollEt)

end EpollReactor

namespace Request

/-- The system call for a request. -/
def epollCtl : Request → EpollOp × EpollEvents
  | .addEvent event promiseEvent => EpollReactor.addEvent event promiseEvent
  | .delEvent event promiseEvent => EpollReactor.delEvent event promiseEvent

def promiseEvent : Request → PollEvents
  | .addEvent _ promiseEvent | .delEvent _ promiseEvent => promiseEvent

end Request

/-! ## Specifications of the calls -/

/-- What the waiters of a vector wait for. -/
def EntryVector.interest : EntryVector → PollEvents
  | .in_ => pollIn
  | .out_ => pollOut
  | .inAndOut_ => pollIn ||| pollOut
  | .error_ => pollErr

/-- The events that concern a vector: its interest, and errors. -/
def EntryVector.concern (v : EntryVector) : PollEvents := v.interest ||| ReactorElement.errEvent

namespace ReactorElement

variable {m : ReactorElement}

@[simp] theorem entries_modify (v v' : EntryVector) (f : List Entry → List Entry) :
    (m.modify v f).entries v' = if v' = v then f (m.entries v') else m.entries v' := by
  cases v <;> cases v' <;> rfl

@[simp] theorem event_modify (v : EntryVector) (f : List Entry → List Entry) :
    (m.modify v f).event = m.event := by
  cases v <;> rfl

@[simp] theorem entries_withEvent (event : PollEvents) (v : EntryVector) :
    ({ m with event := event } : ReactorElement).entries v = m.entries v := by
  cases v <;> rfl

/-- The event that `add` asks for is what the selected vector waits for. -/
theorem interest_select (pollEvent : PollEvents) :
    (select pollEvent).interest =
      if pollEvent &&& (pollIn ||| pollOut) = 0 then pollErr
      else pollEvent &&& (pollIn ||| pollOut) := by
  have hin : pollEvent &&& pollIn = if pollEvent.getLsbD 0 then pollIn else 0 :=
    BitVec.and_twoPow pollEvent 0
  have hout : pollEvent &&& pollOut = if pollEvent.getLsbD 2 then pollOut else 0 :=
    BitVec.and_twoPow pollEvent 2
  have hmeetsIn : Meets pollEvent pollIn ↔ pollEvent.getLsbD 0 = true := by
    unfold Meets
    rw [hin]
    cases pollEvent.getLsbD 0 <;> decide
  have hmeetsOut : Meets pollEvent pollOut ↔ pollEvent.getLsbD 2 = true := by
    unfold Meets
    rw [hout]
    cases pollEvent.getLsbD 2 <;> decide
  unfold select
  rw [BitVec.and_or_distrib_left, hin, hout]
  simp only [hmeetsIn, hmeetsOut]
  cases pollEvent.getLsbD 0 <;> cases pollEvent.getLsbD 2 <;> rfl

/-- The element with a new waiter, whatever the reactor will say. -/
def enrol (m : ReactorElement) (expired : Nat → Bool) (pollEvent : PollEvents) (entry : Entry) :
    ReactorElement :=
  m.modify (select pollEvent) fun entries => removeExpired expired entries ++ [entry]

/-- The reactor is asked if the event is new, and the waiter goes again if the reactor fails. -/
theorem add_eq (expired : Nat → Bool) (pollEvent : PollEvents) (entry : Entry) (ok : Bool) :
    m.add expired pollEvent entry ok =
      let v := select pollEvent
      let promiseEvent := m.event ||| v.interest
      let request := Request.addEvent (promiseEvent &&& ~~~m.event) promiseEvent
      let m' := m.enrol expired pollEvent entry
      if Within v.interest m.event then { element := m' }
      else if ok then { element := { m' with event := promiseEvent }, request := some request }
      else { element := m'.modify v (rollback · entry), request := some request, result := false } := by
  have hinterest := interest_select pollEvent
  have hadd : (if pollEvent &&& (pollIn ||| pollOut) = 0 then
      (pollEvent &&& (pollIn ||| pollOut)) ||| pollErr else pollEvent &&& (pollIn ||| pollOut)) =
      (select pollEvent).interest := by
    rw [hinterest]
    split
    · next h =>
      rw [h]
      exact BitVec.zero_or
    · rfl
  have hnew : m.event ||| (select pollEvent).interest ≠ m.event ↔
      ¬ Within (select pollEvent).interest m.event := not_congr or_eq_left_iff
  unfold add
  dsimp only
  rw [hadd, event_modify]
  by_cases h : Within (select pollEvent).interest m.event
  · rw [if_neg fun e => hnew.mp e h, if_pos h]
    rfl
  · rw [if_pos (hnew.mpr h), if_neg h]
    rfl

/-! ### `trigger` -/

theorem visit_entries (p : Pass) (pollEvent check interest : PollEvents) (v v' : EntryVector) :
    (p.visit pollEvent check interest v).element.entries v' =
      if v' = v ∧ Meets pollEvent check then [] else p.element.entries v' := by
  unfold Pass.visit
  by_cases h : Meets pollEvent check
  · rw [if_pos h]
    dsimp only
    rw [entries_modify]
    by_cases e : v' = v
    · rw [if_pos e, if_pos ⟨e, h⟩]
    · rw [if_neg e, if_neg fun h => e h.1]
  · rw [if_neg h, if_neg fun h' : v' = v ∧ Meets pollEvent check => h h'.2]
    split <;> rfl

theorem visit_event (p : Pass) (pollEvent check interest : PollEvents) (v : EntryVector) :
    (p.visit pollEvent check interest v).element.event = p.element.event := by
  unfold Pass.visit
  split
  · exact event_modify ..
  · split <;> rfl

/-- The event that a vector keeps. -/
def keeps (pollEvent check interest : PollEvents) (entries : List Entry) : PollEvents :=
  if Meets pollEvent check ∨ entries = [] then 0 else interest

theorem visit_promiseEvent (p : Pass) (pollEvent check interest : PollEvents) (v : EntryVector) :
    (p.visit pollEvent check interest v).promiseEvent =
      p.promiseEvent ||| keeps pollEvent check interest (p.element.entries v) := by
  unfold Pass.visit keeps
  by_cases h : Meets pollEvent check
  · rw [if_pos h, if_pos (.inl h)]
    exact BitVec.or_zero.symm
  · rw [if_neg h]
    by_cases hv : p.element.entries v = []
    · rw [if_neg (not_not_intro hv), if_pos (.inr hv)]
      exact BitVec.or_zero.symm
    · rw [if_pos hv, if_neg (not_or.mpr ⟨h, hv⟩)]

/-- The calls that are made for a vector. -/
def wakes (pollEvent check : PollEvents) (entries : List Entry) : List (Entry × PollEvents) :=
  if Meets pollEvent check then entries.map fun entry => (entry, pollEvent &&& check) else []

theorem visit_woken (p : Pass) (pollEvent check interest : PollEvents) (v : EntryVector) :
    (p.visit pollEvent check interest v).woken =
      p.woken ++ wakes pollEvent check (p.element.entries v) := by
  unfold Pass.visit wakes
  split
  · rfl
  · split <;> exact (List.append_nil _).symm

/-- The vectors in the order of `trigger`. -/
def vectors : List EntryVector := [.in_, .out_, .inAndOut_, .error_]

theorem scan_eq (m : ReactorElement) (pollEvent : PollEvents) :
    m.scan pollEvent =
      vectors.foldl (fun p v => p.visit pollEvent v.concern v.interest v) { element := m } := by
  have herror : errEvent = EntryVector.error_.concern := by decide
  unfold scan
  dsimp only
  rw [show Pass.visit _ pollEvent errEvent pollErr .error_ =
    Pass.visit _ pollEvent EntryVector.error_.concern pollErr .error_ by rw [← herror]]
  rfl

theorem scan_entries (m : ReactorElement) (pollEvent : PollEvents) (v : EntryVector) :
    (m.scan pollEvent).element.entries v = if Meets pollEvent v.concern then [] else m.entries v := by
  rw [scan_eq]
  cases v <;> simp [vectors, visit_entries]

theorem scan_event (m : ReactorElement) (pollEvent : PollEvents) :
    (m.scan pollEvent).element.event = m.event := by
  rw [scan_eq]
  simp only [vectors, List.foldl_cons, List.foldl_nil, visit_event]

theorem getLsbD_keeps {pollEvent check interest : PollEvents} {entries : List Entry} {i : Nat} :
    (keeps pollEvent check interest entries).getLsbD i = true ↔
      ¬ Meets pollEvent check ∧ entries ≠ [] ∧ interest.getLsbD i = true := by
  unfold keeps
  by_cases h : Meets pollEvent check ∨ entries = []
  · rw [if_pos h]
    constructor
    · intro hi
      rw [show (0 : PollEvents).getLsbD i = false from BitVec.getLsbD_zero] at hi
      cases hi
    · rintro ⟨hmeets, hne, -⟩
      exact absurd h (not_or.mpr ⟨hmeets, hne⟩)
  · rw [if_neg h]
    obtain ⟨hmeets, hne⟩ := not_or.mp h
    exact ⟨fun hi => ⟨hmeets, hne, hi⟩, fun hi => hi.2.2⟩

/-- The reactor is to keep the events of the vectors that keep their waiters. -/
theorem scan_promiseEvent (m : ReactorElement) (pollEvent : PollEvents) (i : Nat) :
    (m.scan pollEvent).promiseEvent.getLsbD i = true ↔
      ∃ v : EntryVector, ¬ Meets pollEvent v.concern ∧ m.entries v ≠ [] ∧
        v.interest.getLsbD i = true := by
  let kept (v : EntryVector) : PollEvents := keeps pollEvent v.concern v.interest (m.entries v)
  have hpromise : (m.scan pollEvent).promiseEvent =
      kept .in_ ||| kept .out_ ||| kept .inAndOut_ ||| kept .error_ := by
    rw [scan_eq]
    simp [vectors, visit_promiseEvent, visit_entries, kept]
  rw [hpromise]
  simp only [kept, BitVec.getLsbD_or, Bool.or_eq_true, getLsbD_keeps]
  constructor
  · rintro (((h | h) | h) | h)
    · exact ⟨_, h⟩
    · exact ⟨_, h⟩
    · exact ⟨_, h⟩
    · exact ⟨_, h⟩
  · rintro ⟨v, h⟩
    cases v with
    | in_ => exact .inl (.inl (.inl h))
    | out_ => exact .inl (.inl (.inr h))
    | inAndOut_ => exact .inl (.inr h)
    | error_ => exact .inr h

theorem scan_woken (m : ReactorElement) (pollEvent : PollEvents) :
    (m.scan pollEvent).woken =
      vectors.flatMap fun v => wakes pollEvent v.concern (m.entries v) := by
  rw [scan_eq]
  simp [vectors, visit_woken, visit_entries]

/-! The outcome of `trigger` -/

theorem trigger_entries (m : ReactorElement) (reactor : Bool) (pollEvent : PollEvents) (ok : Bool)
    (v : EntryVector) :
    (m.trigger reactor pollEvent ok).element.entries v =
      if Meets pollEvent v.concern then [] else m.entries v := by
  rw [← scan_entries]
  unfold trigger
  dsimp only
  split
  · cases ok
    · rfl
    · exact entries_withEvent ..
  · rfl

theorem trigger_woken (m : ReactorElement) (reactor : Bool) (pollEvent : PollEvents) (ok : Bool) :
    (m.trigger reactor pollEvent ok).woken =
      vectors.flatMap fun v => wakes pollEvent v.concern (m.entries v) := by
  rw [← scan_woken]
  unfold trigger
  dsimp only
  split <;> rfl

end ReactorElement

end Nemo.Net
