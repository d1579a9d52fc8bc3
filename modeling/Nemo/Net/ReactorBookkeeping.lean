import Nemo.Infra.Lts
import Nemo.Net.ReactorElement

/-!
# The bookkeeping of `ReactorElement`

Over any sequence of calls, with any answers of the kernel, `event_` is the mask that the kernel has, it covers
the waiters, and `epoll_ctl` is called with the operation that fits.
-/

namespace Nemo.Net

open Infra.Mask

/-- The element of a descriptor, the weak pointers that have expired, and what the kernel knows: the mask that
was registered last, and the entry of the descriptor in the set of `epoll`. -/
structure Descriptor where
  element : ReactorElement := {}
  expired : Nat → Bool := fun _ => false
  mask : PollEvents := 0
  epoll : Option EpollEvents := none

namespace Descriptor

inductive Action
  | add (pollEvent : PollEvents) (entry : Entry) (ok : Bool)
  | trigger (pollEvent : PollEvents) (ok : Bool)
  | onClose
  | expire (task : Nat)

/-- The answer of the reactor, if it is asked. -/
def Action.ok : Action → Bool
  | .add _ _ ok | .trigger _ ok => ok
  | .onClose | .expire _ => true

variable (d : Descriptor)

def outcome : Action → Outcome
  | .add pollEvent entry ok => d.element.add d.expired pollEvent entry ok
  | .trigger pollEvent ok => d.element.trigger true pollEvent ok
  | .onClose => d.element.onClose
  | .expire _ => { element := d.element }

/-- The kernel after a system call that succeeded. -/
def register (request : Request) : Descriptor :=
  { d with
    mask := request.promiseEvent
    epoll :=
      match request.epollCtl.1 with
      | .add | .mod => some request.epollCtl.2
      | .del => none }

/-- A weak pointer expires when its task is woken, here or by another descriptor or a timer. -/
def expireAll (tasks : List Nat) : Descriptor :=
  { d with expired := fun task => d.expired task || tasks.contains task }

def step (a : Action) : Descriptor :=
  let o := d.outcome a
  let d := { d with element := o.element }
  let d :=
    match o.request with
    | some request => if a.ok then d.register request else d
    | none => d
  match a with
  | .expire task => d.expireAll [task]
  | _ => d.expireAll (o.woken.map fun woken => woken.1.suspendEntry.task)

end Descriptor

/-- A descriptor that is not registered, and its calls. -/
def calls : Infra.Lts Descriptor Descriptor.Action where
  init := {}
  step := fun d a => some (d.step a)

namespace Descriptor

/-! ## The books -/

structure Bookkeeping (d : Descriptor) : Prop where
  /-- `event_` is the mask that was registered last. -/
  registered : d.element.event = d.mask
  /-- Whoever waits is registered. -/
  interested : ∀ v, d.element.entries v ≠ [] → Within v.interest d.element.event
  /-- `trigger` wakes and removes the waiters that an event is for, and no others. -/
  wakes : ∀ reactor pollEvent ok,
    (d.element.trigger reactor pollEvent ok).woken =
      ReactorElement.vectors.flatMap (fun v =>
        if Meets pollEvent v.concern then
          (d.element.entries v).map fun entry => (entry, pollEvent &&& v.concern)
        else []) ∧
    ∀ v, (d.element.trigger reactor pollEvent ok).element.entries v =
      if Meets pollEvent v.concern then [] else d.element.entries v
  /-- `add` that fails leaves the waiters. -/
  rollsBack : ∀ pollEvent entry ok,
    (d.element.add d.expired pollEvent entry ok).result = false →
    ∀ v, (d.element.add d.expired pollEvent entry ok).element.entries v = d.element.entries v
  /-- `epoll_ctl` adds what is not there, and modifies or deletes what is there. -/
  directs : ∀ a request, (d.outcome a).request = some request →
    (request.epollCtl.1 = .add ↔ d.epoll = none)

/-- What every call keeps. -/
structure Inv (d : Descriptor) : Prop where
  registered : d.element.event = d.mask
  interested : ∀ v, d.element.entries v ≠ [] → Within v.interest d.element.event
  epoll : d.epoll = if d.mask = 0 then none else some (pollEvent2EpollEvent d.mask ||| epollEt)

variable {d : Descriptor}

/-! ## `add` -/

open ReactorElement

theorem entries_enrol (m : ReactorElement) (expired : Nat → Bool) (pollEvent : PollEvents)
    (entry : Entry) (v : EntryVector) :
    (m.enrol expired pollEvent entry).entries v =
      if v = select pollEvent then removeExpired expired (m.entries v) ++ [entry]
      else m.entries v :=
  entries_modify ..

/-- The new event is not 0, and it is all of the mask if nothing was registered. -/
theorem promiseEvent_ne_zero {event interest : PollEvents} (h : ¬ Within interest event) :
    event ||| interest ≠ 0 := fun h0 =>
  h ((within_or_right event interest).trans (h0 ▸ zero_within event))

theorem equal_self (entry : Entry) : entry.equal entry = true := by
  simp [Entry.equal]

theorem rollback_cons (other entry : Entry) (rest : List Entry) :
    rollback (other :: rest) entry =
      if other.equal entry then rest else other :: rollback rest entry := by
  unfold rollback
  rw [List.eraseP_cons]
  cases other.equal entry <;> rfl

/-- If a waiter is left after a rollback, there was one before. -/
theorem ne_nil_of_rollback {expired : Nat → Bool} {entries : List Entry} {entry : Entry}
    (h : rollback (removeExpired expired entries ++ [entry]) entry ≠ []) : entries ≠ [] := by
  rintro rfl
  refine h ?_
  show rollback [entry] entry = []
  rw [rollback_cons, if_pos (equal_self entry)]

/--
The waiters after a failed `add` are those before. It fails only if its event is new, and then nobody waits in
its vector but the entry that was put there.
-/
theorem add_rollsBack (h : ∀ v, d.element.entries v ≠ [] → Within v.interest d.element.event)
    {pollEvent : PollEvents} {entry : Entry} {ok : Bool}
    (hfail : (d.element.add d.expired pollEvent entry ok).result = false) (v : EntryVector) :
    (d.element.add d.expired pollEvent entry ok).element.entries v = d.element.entries v := by
  rw [add_eq] at hfail ⊢
  dsimp only at hfail ⊢
  split at hfail
  · cases hfail
  · next hnew =>
    rw [if_neg hnew]
    cases ok with
    | true => cases hfail
    | false =>
      simp only [Bool.false_eq_true, if_false, entries_modify, entries_enrol]
      split
      · next hv =>
        have hempty : d.element.entries v = [] := of_not_not fun hne => hnew (hv ▸ h v hne)
        rw [hempty]
        show rollback [entry] entry = []
        rw [rollback_cons, if_pos (equal_self entry)]
      · rfl

/-- The waiters after `add`, if some vector has any. -/
theorem add_entries_ne_nil {pollEvent : PollEvents} {entry : Entry} {ok : Bool} {v : EntryVector}
    (h : (d.element.add d.expired pollEvent entry ok).element.entries v ≠ []) :
    d.element.entries v ≠ [] ∨
      v = select pollEvent ∧ (d.element.add d.expired pollEvent entry ok).result = true := by
  by_cases hv : v = select pollEvent
  · rw [add_eq] at h ⊢
    dsimp only at h ⊢
    split at h
    · next hold =>
      rw [if_pos hold]
      exact .inr ⟨hv, rfl⟩
    · next hnew =>
      rw [if_neg hnew]
      cases ok with
      | true => exact .inr ⟨hv, rfl⟩
      | false =>
        left
        simp only [Bool.false_eq_true, if_false, entries_modify, entries_enrol, if_pos hv] at h
        exact ne_nil_of_rollback h
  · left
    have hsame : (d.element.add d.expired pollEvent entry ok).element.entries v =
        d.element.entries v := by
      rw [add_eq]
      dsimp only
      split
      · rw [entries_enrol, if_neg hv]
      · split
        · rw [entries_withEvent, entries_enrol, if_neg hv]
        · rw [entries_modify, if_neg hv, entries_enrol, if_neg hv]
    rwa [hsame] at h

/-- What an element with this `event_` asks its reactor. -/
def Fits (event : PollEvents) : Request → Prop
  | .addEvent new promiseEvent =>
    new = promiseEvent &&& ~~~event ∧ Within event promiseEvent ∧ promiseEvent ≠ 0
  | .delEvent _ _ => event ≠ 0

/-- An element asks for what fits, and takes what is promised if the answer is yes. -/
def Asks (d : Descriptor) (o : Outcome) (ok : Bool) : Prop :=
  (o.request = none ∧ o.element.event = d.element.event) ∨
    ∃ request, o.request = some request ∧ Fits d.element.event request ∧
      o.element.event = if ok then request.promiseEvent else d.element.event

theorem add_asks (pollEvent : PollEvents) (entry : Entry) (ok : Bool) :
    d.Asks (d.element.add d.expired pollEvent entry ok) ok := by
  rw [add_eq]
  dsimp only
  split
  · exact .inl ⟨rfl, event_modify ..⟩
  · next hnew =>
    have hfits : Fits d.element.event
        (.addEvent _ (d.element.event ||| (select pollEvent).interest)) :=
      ⟨rfl, within_or_left _ _, promiseEvent_ne_zero hnew⟩
    cases ok with
    | true => exact .inr ⟨_, rfl, hfits, rfl⟩
    | false => exact .inr ⟨_, rfl, hfits, (event_modify ..).trans (event_modify ..)⟩

/-- The events that are kept were registered. -/
theorem scan_within (h : ∀ v, d.element.entries v ≠ [] → Within v.interest d.element.event)
    (pollEvent : PollEvents) : Within (d.element.scan pollEvent).promiseEvent d.element.event := by
  refine within_iff.mpr fun i hi => ?_
  obtain ⟨v, -, hne, hv⟩ := (scan_promiseEvent ..).mp hi
  exact within_iff.mp (h v hne) i hv

theorem trigger_asks (h : ∀ v, d.element.entries v ≠ [] → Within v.interest d.element.event)
    (reactor : Bool) (pollEvent : PollEvents) (ok : Bool) :
    d.Asks (d.element.trigger reactor pollEvent ok) ok := by
  unfold trigger
  dsimp only
  rw [scan_event]
  split
  · next hne =>
    refine .inr ⟨_, rfl, fun h0 => ?_, ?_⟩
    · have hwithin := scan_within h pollEvent
      rw [h0] at hwithin
      exact hne.1 (hwithin.eq_zero.trans h0.symm)
    · cases ok
      · exact scan_event ..
      · rfl
  · exact .inl ⟨rfl, scan_event ..⟩

theorem outcome_asks (h : ∀ v, d.element.entries v ≠ [] → Within v.interest d.element.event)
    (a : Action) : d.Asks (d.outcome a) a.ok := by
  cases a with
  | add pollEvent entry ok => exact add_asks pollEvent entry ok
  | trigger pollEvent ok => exact trigger_asks h true pollEvent ok
  | onClose => exact trigger_asks h false pollNval true
  | expire task => exact .inl ⟨rfl, rfl⟩

/-- The operation is `EPOLL_CTL_ADD` just for an element that had no event. -/
theorem Fits.op_eq_add_iff {event : PollEvents} {request : Request} (h : Fits event request) :
    request.epollCtl.1 = .add ↔ event = 0 := by
  cases request with
  | addEvent new promiseEvent =>
    obtain ⟨rfl, hwithin, -⟩ := h
    rw [← diff_eq_self_iff hwithin]
    unfold Request.epollCtl EpollReactor.addEvent
    dsimp only
    split
    · next e => exact iff_of_true rfl e
    · next e => exact iff_of_false EpollOp.noConfusion e
  | delEvent old promiseEvent =>
    refine iff_of_false ?_ h
    unfold Request.epollCtl EpollReactor.delEvent
    dsimp only
    split <;> exact EpollOp.noConfusion

/-- What is registered after a call that succeeds is the promised mask, or nothing if that is 0. -/
theorem Fits.register_epoll {event : PollEvents} {request : Request} (h : Fits event request) :
    (d.register request).epoll =
      if request.promiseEvent = 0 then none
      else some (pollEvent2EpollEvent request.promiseEvent ||| epollEt) := by
  unfold register Request.epollCtl Request.promiseEvent
  cases request with
  | addEvent new promiseEvent =>
    obtain ⟨-, -, hne⟩ := h
    unfold EpollReactor.addEvent
    dsimp only
    rw [if_neg hne]
    split
    · rfl
    · rfl
    · next e =>
      split at e <;> cases e
  | delEvent old promiseEvent =>
    unfold EpollReactor.delEvent
    dsimp only
    by_cases h0 : promiseEvent = 0
    · rw [if_pos h0, if_pos h0]
    · rw [if_neg h0, if_neg h0]

/-! ## Who waits is registered -/

theorem add_interested (h : ∀ v, d.element.entries v ≠ [] → Within v.interest d.element.event)
    (pollEvent : PollEvents) (entry : Entry) (ok : Bool) (v : EntryVector)
    (hv : (d.element.add d.expired pollEvent entry ok).element.entries v ≠ []) :
    Within v.interest (d.element.add d.expired pollEvent entry ok).element.event := by
  have hevent : (d.element.add d.expired pollEvent entry ok).element.event =
      if (d.element.add d.expired pollEvent entry ok).result then
        d.element.event ||| (select pollEvent).interest
      else d.element.event := by
    rw [add_eq]
    dsimp only
    split
    · next hold =>
      rw [if_pos rfl, or_eq_left_iff.mpr hold]
      exact event_modify ..
    · cases ok
      · exact (event_modify ..).trans (event_modify ..)
      · rfl
  rw [hevent]
  rcases add_entries_ne_nil hv with hold | ⟨rfl, hresult⟩
  · split
    · exact (h v hold).trans (within_or_left _ _)
    · exact h v hold
  · rw [if_pos hresult]
    exact within_or_right _ _

theorem trigger_interested (h : ∀ v, d.element.entries v ≠ [] → Within v.interest d.element.event)
    (reactor : Bool) (pollEvent : PollEvents) (ok : Bool) (v : EntryVector)
    (hv : (d.element.trigger reactor pollEvent ok).element.entries v ≠ []) :
    Within v.interest (d.element.trigger reactor pollEvent ok).element.event := by
  rw [trigger_entries] at hv
  split at hv
  · exact absurd rfl hv
  · next hmeets =>
    have hpromise : Within v.interest (d.element.scan pollEvent).promiseEvent :=
      within_iff.mpr fun i hi => (scan_promiseEvent ..).mpr ⟨v, hmeets, hv, hi⟩
    have hevent : Within v.interest (d.element.scan pollEvent).element.event := by
      rw [scan_event]
      exact h v hv
    unfold trigger
    dsimp only
    split
    · cases ok
      · exact hevent
      · exact hpromise
    · exact hevent

theorem outcome_interested (h : ∀ v, d.element.entries v ≠ [] → Within v.interest d.element.event)
    (a : Action) (v : EntryVector) (hv : (d.outcome a).element.entries v ≠ []) :
    Within v.interest (d.outcome a).element.event := by
  cases a with
  | add pollEvent entry ok => exact add_interested h pollEvent entry ok v hv
  | trigger pollEvent ok => exact trigger_interested h true pollEvent ok v hv
  | onClose => exact trigger_interested h false pollNval true v hv
  | expire task => exact h v hv

/-! ## Every call -/

theorem Inv.expireAll (h : d.Inv) (tasks : List Nat) : (d.expireAll tasks).Inv :=
  ⟨h.registered, h.interested, h.epoll⟩

/-- **A call keeps the books.** -/
theorem inv_step (h : d.Inv) (a : Action) : (d.step a).Inv := by
  have hinterested := outcome_interested h.interested a
  have hnext : Inv (match (d.outcome a).request with
      | some request =>
        if a.ok then ({ d with element := (d.outcome a).element } : Descriptor).register request
        else { d with element := (d.outcome a).element }
      | none => { d with element := (d.outcome a).element }) := by
    rcases outcome_asks h.interested a with ⟨hnone, hevent⟩ | ⟨request, hsome, hfits, hevent⟩
    · rw [hnone]
      exact ⟨hevent.trans h.registered, hinterested, h.epoll⟩
    · rw [hsome]
      dsimp only
      split
      · next hok =>
        rw [if_pos hok] at hevent
        exact ⟨hevent, hinterested, hfits.register_epoll⟩
      · next hok =>
        rw [if_neg hok] at hevent
        exact ⟨hevent.trans h.registered, hinterested, h.epoll⟩
  unfold step
  dsimp only
  split
  · exact hnext.expireAll _
  · exact hnext.expireAll _

theorem Inv.bookkeeping (h : d.Inv) : d.Bookkeeping where
  registered := h.registered
  interested := h.interested
  wakes := fun reactor pollEvent ok =>
    ⟨trigger_woken .., fun v => trigger_entries ..⟩
  rollsBack := fun pollEvent entry ok hfail => add_rollsBack h.interested hfail
  directs := by
    intro a request hrequest
    have hepoll : d.epoll = none ↔ d.element.event = 0 := by
      rw [h.epoll, h.registered]
      split
      · next h0 => exact iff_of_true rfl h0
      · next h0 => exact iff_of_false (Option.some_ne_none _) h0
    rcases outcome_asks h.interested a with ⟨hnone, -⟩ | ⟨request', hsome, hfits, -⟩
    · rw [hnone] at hrequest
      cases hrequest
    · rw [hsome] at hrequest
      cases hrequest
      rw [hfits.op_eq_add_iff, hepoll]

/-- **The books are right** after any calls, with any answers. -/
theorem bookkeeping_of_reachable (h : calls.Reachable d) : d.Bookkeeping := by
  have hinv : d.Inv :=
    Infra.Lts.ReachableBy.invariant (I := Inv)
      ⟨rfl, fun v hv => absurd (by cases v <;> rfl) hv, rfl⟩
      (fun _ _ _ hI _ hs => by
        cases hs
        exact inv_step hI _) h
  exact hinv.bookkeeping

/-- A reader and a writer, of whom the reader is woken, and a second reader who is turned away. -/
def readAndWrite : List Action :=
  [.add pollIn ⟨0, 1, ⟨0, 1⟩⟩ true, .add pollOut ⟨0, 2, ⟨0, 2⟩⟩ true, .trigger pollIn true,
    .add pollIn ⟨0, 3, ⟨0, 3⟩⟩ false]

theorem bookkeeping_readAndWrite : ∃ d, calls.run calls.init readAndWrite = some d ∧
    d.mask = pollOut ∧ d.element.outEntries ≠ [] ∧ d.Bookkeeping := by
  have hrun : (calls.run calls.init readAndWrite).map
      (fun d => (d.mask, d.element.outEntries)) = some (pollOut, [⟨0, 2, ⟨0, 2⟩⟩]) := by
    decide +kernel
  obtain ⟨d, hd, hq⟩ := Option.map_eq_some_iff.mp hrun
  rw [Prod.mk.injEq] at hq
  refine ⟨d, hd, hq.1, ?_, bookkeeping_of_reachable (Infra.Lts.reachable_of_run hd)⟩
  rw [hq.2]
  exact List.cons_ne_nil _ _

end Descriptor

end Nemo.Net
