import Nemo.Net.EpollWait

/-!
# No readiness is missed

A descriptor that is ready for a registered interest has an event that the reactor thread has not processed.
So has one that a coroutine waits for, as what is waited for is registered.
-/

namespace Nemo.Net

open Infra.Mask ReactorElement

/-! ## Events of `poll` and of `epoll` -/

/-- What `epoll` reports for an interest meets the interest. -/
theorem meets_convert {interest : PollEvents} {revents : EpollEvents}
    (h : Meets (pollEvent2EpollEvent interest) revents) :
    Meets interest (epollEvent2PollEvent revents) := by
  obtain ⟨i, hinterest, hrevents⟩ := meets_iff.mp h
  -- a flag of `poll` in the interest goes with the flag of `epoll` that is reported
  have hflag : ∀ {pollFlag : PollEvents} {epollFlag : EpollEvents},
      (if Meets interest pollFlag then epollFlag else 0).getLsbD i = true →
      Within (if Meets revents epollFlag then pollFlag else 0) (epollEvent2PollEvent revents) →
      Meets interest (epollEvent2PollEvent revents) := by
    intro pollFlag epollFlag hi hwithin
    split at hi
    · next hmeets =>
      rw [if_pos (meets_iff.mpr ⟨i, hrevents, hi⟩)] at hwithin
      obtain ⟨j, hj, hj'⟩ := meets_iff.mp hmeets
      exact meets_iff.mpr ⟨j, hj, within_iff.mp hwithin j hj'⟩
    · rw [show (0 : EpollEvents).getLsbD i = false from BitVec.getLsbD_zero] at hi
      cases hi
  unfold pollEvent2EpollEvent at hinterest
  simp only [BitVec.getLsbD_or, Bool.or_eq_true] at hinterest
  unfold epollEvent2PollEvent at hflag ⊢
  rcases hinterest with ((h | h) | h) | h
  · exact hflag h (((within_or_left _ _).trans (within_or_left _ _)).trans (within_or_left _ _))
  · exact hflag h (((within_or_right _ _).trans (within_or_left _ _)).trans (within_or_left _ _))
  · exact hflag h ((within_or_right _ _).trans (within_or_left _ _))
  · exact hflag h (within_or_right _ _)

theorem convert_mono {a b : PollEvents} (h : Within a b) :
    Within (pollEvent2EpollEvent a) (pollEvent2EpollEvent b) := by
  have hflag : ∀ (pollFlag : PollEvents) (epollFlag : EpollEvents),
      Within (if Meets a pollFlag then epollFlag else 0) (if Meets b pollFlag then epollFlag else 0) := by
    intro pollFlag epollFlag
    split
    · next hmeets =>
      obtain ⟨i, hi, hi'⟩ := meets_iff.mp hmeets
      rw [if_pos (meets_iff.mpr ⟨i, within_iff.mp h i hi, hi'⟩)]
      exact Within.refl _
    · exact zero_within _
  have hor : ∀ {x y x' y' : EpollEvents}, Within x x' → Within y y' → Within (x ||| y) (x' ||| y') :=
    fun hx hy => or_within (hx.trans (within_or_left _ _)) (hy.trans (within_or_right _ _))
  exact hor (hor (hor (hflag _ _) (hflag _ _)) (hflag _ _)) (hflag _ _)

/-! ## Waiters stay until they are woken -/

namespace Descriptor

variable {d : Descriptor} {a : Action}

/-- The tasks that a call wakes. -/
def wokenBy (d : Descriptor) : Action → List Nat
  | .expire task => [task]
  | a => (d.outcome a).woken.map fun woken => woken.1.suspendEntry.task

theorem step_element (d : Descriptor) (a : Action) : (d.step a).element = (d.outcome a).element := by
  unfold step register expireAll
  dsimp only
  split <;> (split <;> (try split) <;> rfl)

theorem step_expired (d : Descriptor) (a : Action) (task : Nat) :
    (d.step a).expired task = (d.expired task || (d.wokenBy a).contains task) := by
  unfold step register expireAll
  cases a <;> (dsimp only; split <;> (try split) <;> rfl)

/-- The mask after a call that is answered with yes. -/
theorem step_mask (d : Descriptor) (ha : a.ok = true) :
    (d.step a).mask =
      match (d.outcome a).request with
      | some request => request.promiseEvent
      | none => d.mask := by
  unfold step
  dsimp only
  rw [ha]
  cases (d.outcome a).request with
  | none => cases a <;> rfl
  | some request => cases a <;> rfl

theorem add_entries (m : ReactorElement) (expired : Nat → Bool) (pollEvent : PollEvents)
    (entry : Entry) (v : EntryVector) :
    (m.add expired pollEvent entry true).element.entries v =
      (m.enrol expired pollEvent entry).entries v := by
  rw [add_eq]
  dsimp only
  split
  · rfl
  · exact entries_withEvent ..

/-- **A waiter stays until it is woken**, if the answer is yes. -/
theorem stays (ha : a.ok = true) {v : EntryVector} {entry : Entry}
    (hmem : entry ∈ d.element.entries v)
    (hlive : (d.step a).expired entry.suspendEntry.task = false) :
    entry ∈ (d.step a).element.entries v := by
  rw [step_expired, Bool.or_eq_false_iff] at hlive
  obtain ⟨hlive, hasleep⟩ := hlive
  rw [step_element]
  have htrigger : ∀ reactor pollEvent ok,
      ((d.element.trigger reactor pollEvent ok).woken.map
        fun woken => woken.1.suspendEntry.task).contains entry.suspendEntry.task = false →
      entry ∈ (d.element.trigger reactor pollEvent ok).element.entries v := by
    intro reactor pollEvent ok hasleep
    rw [trigger_entries]
    split
    · next hmeets =>
      have hwoken : (entry, pollEvent &&& v.concern) ∈
          (d.element.trigger reactor pollEvent ok).woken := by
        rw [trigger_woken]
        refine List.mem_flatMap.mpr ⟨v, by cases v <;> decide, ?_⟩
        unfold wakes
        rw [if_pos hmeets]
        exact List.mem_map_of_mem hmem
      have hcontains := List.contains_iff_mem.mpr
        (List.mem_map_of_mem (f := fun woken : Entry × PollEvents => woken.1.suspendEntry.task) hwoken)
      rw [hcontains] at hasleep
      cases hasleep
    · exact hmem
  cases a with
  | add pollEvent other ok =>
    cases ha
    show entry ∈ (d.element.add d.expired pollEvent other true).element.entries v
    rw [add_entries, entries_enrol]
    split
    · refine List.mem_append_left _ (List.mem_filter.mpr ⟨hmem, ?_⟩)
      rw [hlive]
      rfl
    · exact hmem
  | trigger pollEvent ok => exact htrigger true pollEvent ok hasleep
  | onClose => exact htrigger false pollNval true hasleep
  | expire task => exact hmem

/-- What is added is there. -/
theorem mem_add (d : Descriptor) (pollEvent : PollEvents) (entry : Entry) :
    entry ∈ (d.step (.add pollEvent entry true)).element.entries (select pollEvent) := by
  rw [step_element]
  show entry ∈ (d.element.add d.expired pollEvent entry true).element.entries _
  rw [add_entries, entries_enrol, if_pos rfl]
  exact List.mem_append_right _ (List.mem_singleton_self entry)

/-- If `trigger` has nothing to ask, the events that it was called with are not registered. -/
theorem not_meets_of_unasked (d : Descriptor) {pollEvent : PollEvents} {ok : Bool}
    (h : (d.element.trigger true pollEvent ok).request = none) :
    ¬ Meets d.element.event pollEvent := by
  intro hmeets
  obtain ⟨i, hevent, hi⟩ := meets_iff.mp hmeets
  unfold trigger at h
  dsimp only at h
  rw [scan_event] at h
  split at h
  · cases h
  · next hsame =>
    have hpromise : (d.element.scan pollEvent).promiseEvent = d.element.event := by
      by_contra hne
      exact hsame ⟨hne, rfl⟩
    rw [← hpromise] at hevent
    obtain ⟨v, hunmet, -, hv⟩ := (scan_promiseEvent ..).mp hevent
    exact hunmet (meets_iff.mpr ⟨i, hi, within_iff.mp (within_or_left _ _) i hv⟩)

end Descriptor

/-! ## Events that are pending -/

namespace Polls

variable {C : Type} {s s' : Polls C}

/-- What the reactor thread has taken, and what it has not. -/
def pending (s : Polls C) : List EpollEvents := s.taken.toList ++ s.queue

/-- All that is ready of an interest is in an event that is pending. -/
def Covered (s : Polls C) (interest : PollEvents) : Prop :=
  ∀ i, (pollEvent2EpollEvent interest &&& s.ready).getLsbD i = true →
    ∃ event ∈ s.pending, event.getLsbD i = true

/-- No coroutine sleeps on a descriptor that is ready. -/
structure Attentive (s : Polls C) : Prop where
  stored : ∀ v, ∀ entry ∈ s.descriptor.element.entries v,
    s.descriptor.expired entry.suspendEntry.task = false → s.Covered v.interest
  yielded : ∀ c entry events added, s.phase c = .yielded entry events added →
    s.descriptor.expired entry.task = false →
    ∀ fd ∈ added, s.Covered (select fd.2).interest

/-- The waiters that a coroutine has added. -/
def waiters : Phase → List (EntryVector × Entry)
  | .adding entry events added _ | .yielded entry events added =>
    added.map fun fd => (select fd.2, ⟨fd.1, events, entry⟩)
  | _ => []

/-- The invariant. -/
structure Inv (s : Polls C) : Prop where
  books : s.descriptor.Inv
  covered : s.Covered s.descriptor.mask
  stored : ∀ c, ∀ waiter ∈ waiters (s.phase c),
    s.descriptor.expired waiter.2.suspendEntry.task = false →
    waiter.2 ∈ s.descriptor.element.entries waiter.1

theorem Covered.mono {a b : PollEvents} (h : s.Covered b) (hab : Within a b) : s.Covered a := by
  intro i hi
  refine h i ?_
  rw [BitVec.getLsbD_and, Bool.and_eq_true] at hi ⊢
  exact ⟨within_iff.mp (convert_mono hab) i hi.1, hi.2⟩

theorem Inv.attentive (h : s.Inv) : s.Attentive := by
  have hstored : ∀ v, ∀ entry ∈ s.descriptor.element.entries v, s.Covered v.interest := by
    intro v entry hmem
    have hinterest := h.books.interested v (List.ne_nil_of_mem hmem)
    rw [h.books.registered] at hinterest
    exact h.covered.mono hinterest
  refine ⟨fun v entry hmem _ => hstored v entry hmem, ?_⟩
  intro c entry events added hphase hlive fd hfd
  refine hstored _ ⟨fd.1, events, entry⟩ ?_
  have hwaiter : (select fd.2, (⟨fd.1, events, entry⟩ : Entry)) ∈ waiters (s.phase c) := by
    rw [hphase]
    exact List.mem_map_of_mem (f := fun fd : Nat × PollEvents => (select fd.2, Entry.mk fd.1 events entry)) hfd
  exact h.stored c _ hwaiter hlive

/-! ### Calls of the element -/

theorem epollCtl_events (request : Request) :
    request.epollCtl.2 = pollEvent2EpollEvent request.promiseEvent ||| epollEt := by
  cases request <;> rfl

/-- Only an empty mask is deleted. -/
theorem promiseEvent_of_del {request : Request} (h : request.epollCtl.1 = .del) :
    request.promiseEvent = 0 := by
  cases request with
  | addEvent new promiseEvent =>
    unfold Request.epollCtl EpollReactor.addEvent at h
    dsimp only at h
    split at h <;> cases h
  | delEvent old promiseEvent =>
    unfold Request.epollCtl EpollReactor.delEvent at h
    dsimp only at h
    split at h
    · next h0 => exact h0
    · cases h

theorem mem_notify {event : EpollEvents} {i : Nat} (h : event.getLsbD i = true) :
    event ∈ s.notify event := by
  unfold notify
  split
  · next h0 =>
    rw [h0, show (0 : EpollEvents).getLsbD i = false from BitVec.getLsbD_zero] at h
    cases h
  · exact List.mem_append_right _ (List.mem_singleton_self event)

theorem mem_notify_of_mem {event event' : EpollEvents} (h : event' ∈ s.queue) :
    event' ∈ s.notify event := by
  unfold notify
  split
  · exact h
  · exact List.mem_append_left _ h

/-- Whoever asks `epoll_ctl` has an event for all that is ready, whatever was pending before. -/
theorem call_asked {a : Descriptor.Action} (ha : a.ok = true) {request : Request}
    (hrequest : (s.descriptor.outcome a).request = some request) (i : Nat)
    (hi : (pollEvent2EpollEvent (s.call a).descriptor.mask &&& s.ready).getLsbD i = true) :
    ∃ event ∈ (s.call a).queue, event.getLsbD i = true := by
  have hmask : (s.call a).descriptor.mask = request.promiseEvent := by
    show (s.descriptor.step a).mask = _
    rw [Descriptor.step_mask _ ha, hrequest]
  rw [hmask] at hi
  have hevent : (request.epollCtl.2 &&& s.ready).getLsbD i = true := by
    rw [epollCtl_events, BitVec.getLsbD_and, Bool.and_eq_true]
    rw [BitVec.getLsbD_and, Bool.and_eq_true] at hi
    exact ⟨within_iff.mp (within_or_left _ _) i hi.1, hi.2⟩
  cases hop : request.epollCtl.1 with
  | add | mod =>
    have hqueue : (s.call a).queue = s.notify (request.epollCtl.2 &&& s.ready) := by
      simp only [call, hrequest, hop]
    rw [hqueue]
    exact ⟨_, mem_notify hevent, hevent⟩
  | del =>
    rw [promiseEvent_of_del hop] at hi
    have hzero : pollEvent2EpollEvent 0 = 0 := by decide
    rw [hzero, BitVec.getLsbD_and, show (0 : EpollEvents).getLsbD i = false from BitVec.getLsbD_zero]
      at hi
    cases hi

theorem call_unasked {a : Descriptor.Action} (ha : a.ok = true)
    (hrequest : (s.descriptor.outcome a).request = none) :
    (s.call a).descriptor.mask = s.descriptor.mask ∧ (s.call a).queue = s.queue := by
  constructor
  · show (s.descriptor.step a).mask = _
    rw [Descriptor.step_mask _ ha, hrequest]
  · unfold call
    rw [hrequest]

/-- A call that leaves what is taken keeps the mask covered. -/
theorem call_covered (h : s.Covered s.descriptor.mask) {a : Descriptor.Action} (ha : a.ok = true) :
    (s.call a).Covered (s.call a).descriptor.mask := by
  intro i hi
  cases hrequest : (s.descriptor.outcome a).request with
  | some request =>
    obtain ⟨event, hmem, hevent⟩ := call_asked ha hrequest i hi
    exact ⟨event, List.mem_append_right _ hmem, hevent⟩
  | none =>
    obtain ⟨hmask, hqueue⟩ := call_unasked ha hrequest
    rw [hmask] at hi
    obtain ⟨event, hmem, hevent⟩ := h i hi
    refine ⟨event, ?_, hevent⟩
    unfold pending
    rw [hqueue]
    exact hmem

/-- The event that `trigger` is called with is not needed any more. -/
theorem trigger_covered (h : s.Inv) {revents : EpollEvents} (htaken : s.taken = some revents) :
    Covered { s.call (.trigger (epollEvent2PollEvent revents) true) with taken := none }
      (s.call (.trigger (epollEvent2PollEvent revents) true)).descriptor.mask := by
  intro i hi
  cases hrequest : (s.descriptor.outcome (.trigger (epollEvent2PollEvent revents) true)).request with
  | some request => exact call_asked rfl hrequest i hi
  | none =>
    obtain ⟨hmask, hqueue⟩ := call_unasked rfl hrequest
    rw [hmask] at hi
    obtain ⟨event, hmem, hevent⟩ := h.covered i hi
    refine ⟨event, ?_, hevent⟩
    show event ∈ (s.call _).queue
    rw [hqueue]
    unfold pending at hmem
    rw [htaken] at hmem
    rcases List.mem_cons.mp hmem with rfl | hmem
    · -- it is registered, so `trigger` had something to ask
      rw [BitVec.getLsbD_and, Bool.and_eq_true] at hi
      have hmeets := meets_convert (meets_iff.mpr ⟨i, hi.1, hevent⟩)
      rw [← h.books.registered] at hmeets
      exact absurd hmeets (Descriptor.not_meets_of_unasked _ hrequest)
    · exact hmem

theorem Inv.call_books (h : s.Inv) (a : Descriptor.Action) : (s.call a).descriptor.Inv :=
  Descriptor.inv_step h.books a

/-- Waiters that were added stay, or have been woken. -/
theorem call_stored (h : s.Inv) {a : Descriptor.Action} (ha : a.ok = true) {waiter : EntryVector × Entry}
    {c : C} (hmem : waiter ∈ waiters (s.phase c))
    (hlive : (s.call a).descriptor.expired waiter.2.suspendEntry.task = false) :
    waiter.2 ∈ (s.call a).descriptor.element.entries waiter.1 := by
  have hbefore : s.descriptor.expired waiter.2.suspendEntry.task = false := by
    have hexpired := Descriptor.step_expired s.descriptor a waiter.2.suspendEntry.task
    rw [show (s.descriptor.step a).expired _ = false from hlive] at hexpired
    exact (Bool.or_eq_false_iff.mp hexpired.symm).1
  exact Descriptor.stays ha (h.stored c waiter hmem hbefore) hlive

/-! ### The reactor thread and the kernel -/

theorem getLsbD_union {events : List EpollEvents} {event : EpollEvents} {i : Nat}
    (hmem : event ∈ events) (hi : event.getLsbD i = true) : (union events).getLsbD i = true := by
  induction events with
  | nil => cases hmem
  | cons other rest ih =>
    show (other ||| union rest).getLsbD i = true
    rw [BitVec.getLsbD_or, Bool.or_eq_true]
    rcases List.mem_cons.mp hmem with rfl | hrest
    · exact .inl hi
    · exact .inr (ih hrest)

/-- What is in the mask is registered with `epoll`. -/
theorem Inv.mask_registered (h : s.Inv) {i : Nat}
    (hi : (pollEvent2EpollEvent s.descriptor.mask).getLsbD i = true) :
    s.registered.getLsbD i = true := by
  unfold registered
  rw [h.books.epoll]
  split
  · next h0 =>
    rw [h0, show pollEvent2EpollEvent 0 = 0 from by decide,
      show (0 : EpollEvents).getLsbD i = false from BitVec.getLsbD_zero] at hi
    cases hi
  · exact within_iff.mp (within_or_left _ _) i hi

/-- `epoll_wait` takes what it reports, or what is not ready. -/
theorem wait_covered (h : s.Inv) {n : Nat} {revents : EpollEvents} (htaken : s.taken = none)
    (hreport : Within (union (s.queue.take (n + 1)) &&& s.ready &&& s.registered) revents) :
    Covered { s with
      queue := s.queue.drop (n + 1)
      taken := if revents = 0 then none else some revents } s.descriptor.mask := by
  intro i hi
  obtain ⟨event, hmem, hevent⟩ := h.covered i hi
  have hqueue : event ∈ s.queue := by
    unfold pending at hmem
    rw [htaken] at hmem
    exact hmem
  rw [← List.take_append_drop (n + 1) s.queue] at hqueue
  rcases List.mem_append.mp hqueue with hfirst | hrest
  · rw [BitVec.getLsbD_and, Bool.and_eq_true] at hi
    have hbit : revents.getLsbD i = true := within_iff.mp hreport i (by
      rw [BitVec.getLsbD_and, BitVec.getLsbD_and, getLsbD_union hfirst hevent, hi.2,
        h.mask_registered hi.1]
      rfl)
    have hne : revents ≠ 0 := fun h0 => by
      rw [eq_zero_iff.mp h0 i] at hbit
      cases hbit
    refine ⟨revents, List.mem_append_left _ ?_, hbit⟩
    rw [if_neg hne]
    exact List.mem_singleton_self revents
  · exact ⟨event, List.mem_append_right _ hrest, hevent⟩

/-- What the descriptor becomes ready for gives an event if it is registered. -/
theorem change_covered (h : s.Inv) (ready : EpollEvents) :
    Covered { s with
      ready := ready
      queue := s.notify (ready &&& ~~~s.ready &&& s.registered) } s.descriptor.mask := by
  intro i hi
  rw [BitVec.getLsbD_and, Bool.and_eq_true] at hi
  cases hold : s.ready.getLsbD i with
  | true =>
    obtain ⟨event, hmem, hevent⟩ := h.covered i (by rw [BitVec.getLsbD_and, hi.1, hold]; rfl)
    refine ⟨event, ?_, hevent⟩
    rcases List.mem_append.mp hmem with htaken | hqueue
    · exact List.mem_append_left _ htaken
    · exact List.mem_append_right _ (mem_notify_of_mem hqueue)
  | false =>
    have hevent : (ready &&& ~~~s.ready &&& s.registered).getLsbD i = true := by
      rw [BitVec.getLsbD_and, BitVec.getLsbD_and, BitVec.getLsbD_not, hold, hi.2,
        h.mask_registered hi.1, decide_eq_true (BitVec.lt_of_getLsbD hi.2)]
      rfl
    exact ⟨_, List.mem_append_right _ (mem_notify hevent), hevent⟩

/-! ### Every step -/

variable [DecidableEq C]

/-- A step of one coroutine, outside of the element. -/
theorem Inv.update (h : s.Inv) (c : C) (phase : Phase) (nextTask : Nat)
    (hphase : ∀ waiter ∈ waiters phase, waiter ∈ waiters (s.phase c)) :
    Inv { s with phase := Function.update s.phase c phase, nextTask := nextTask } := by
  refine ⟨h.books, h.covered, fun c' waiter hmem hlive => ?_⟩
  have hbefore : waiter ∈ waiters (Function.update s.phase c phase c') := hmem
  rw [Function.update_apply] at hbefore
  split at hbefore
  · exact h.stored c waiter (hphase waiter hbefore) hlive
  · exact h.stored c' waiter hbefore hlive

/-- A coroutine adds a waiter. -/
theorem add_inv (h : s.Inv) {c : C} {entry : SuspendEntry} {events : Nat} {added rest : PollFds}
    {fd : Nat × PollEvents} (hphase : s.phase c = .adding entry events added (fd :: rest)) :
    Inv { s.call (.add fd.2 ⟨fd.1, events, entry⟩ true) with
      phase := Function.update s.phase c (.adding entry events (added ++ [fd]) rest) } := by
  refine ⟨h.call_books (.add fd.2 ⟨fd.1, events, entry⟩ true), call_covered h.covered rfl,
    fun c' waiter hmem hlive => ?_⟩
  have hafter : waiter ∈
      waiters (Function.update s.phase c (.adding entry events (added ++ [fd]) rest) c') := hmem
  rw [Function.update_apply] at hafter
  split at hafter
  · obtain ⟨fd', hfd', rfl⟩ := List.mem_map.mp hafter
    rcases List.mem_append.mp hfd' with hold | hnew
    · refine call_stored h rfl (c := c) ?_ hlive
      rw [hphase]
      exact List.mem_map_of_mem hold
    · cases List.mem_singleton.mp hnew
      exact Descriptor.mem_add ..
  · exact call_stored h rfl hafter hlive

/-- **A step misses no readiness.** -/
theorem inv_step {a : Action C} (h : s.Inv) (hs : s.step a = some s') : s'.Inv := by
  cases a with
  | poll c fds nonblocking other =>
    rw [step] at hs
    split at hs
    · split at hs
      · cases hs
        exact h
      · cases hs
        exact h.update c _ s.nextTask fun waiter hmem => by cases hmem
    · cases hs
  | suspend c id =>
    rw [step] at hs
    split at hs
    · cases hs
      exact h.update c _ (s.nextTask + 1) fun waiter hmem => by cases hmem
    · cases hs
  | add c =>
    rw [step] at hs
    split at hs
    · next hphase =>
      cases hs
      exact add_inv h hphase
    · cases hs
  | yield c =>
    rw [step] at hs
    split at hs
    · next hphase =>
      cases hs
      refine h.update c _ s.nextTask fun waiter hmem => ?_
      rw [hphase]
      exact hmem
    · cases hs
  | resume c =>
    rw [step] at hs
    split at hs
    · split at hs
      · cases hs
        exact h.update c _ s.nextTask fun waiter hmem => by cases hmem
      · cases hs
    · cases hs
  | expire task =>
    rw [step] at hs
    split at hs
    · cases hs
      exact ⟨h.call_books _, call_covered h.covered rfl,
        fun c waiter hmem hlive => call_stored h rfl hmem hlive⟩
    · cases hs
  | wait n revents =>
    rw [step] at hs
    split at hs
    · next hwait =>
      cases hs
      exact ⟨h.books, wait_covered h hwait.1 hwait.2.2.1, h.stored⟩
    · cases hs
  | trigger =>
    rw [step] at hs
    split at hs
    · next revents htaken =>
      cases hs
      exact ⟨h.call_books (.trigger (epollEvent2PollEvent revents) true), trigger_covered h htaken,
        fun c waiter hmem hlive => call_stored h rfl hmem hlive⟩
    · cases hs
  | change ready =>
    rw [step] at hs
    cases hs
    exact ⟨h.books, change_covered h ready, h.stored⟩

/-- **No coroutine sleeps on a descriptor that is ready**, unless an event for it is pending. -/
theorem attentive_of_reachable (h : (polls C).Reachable s) : s.Attentive := by
  have hinit : Covered (polls C).init (polls C).init.descriptor.mask := by
    intro i hi
    rw [BitVec.getLsbD_and, show (polls C).init.ready.getLsbD i = false from BitVec.getLsbD_zero,
      Bool.and_false] at hi
    cases hi
  have hinv : s.Inv :=
    Infra.Lts.ReachableBy.invariant (I := Inv)
      ⟨⟨rfl, fun v hv => absurd (by cases v <;> rfl) hv, rfl⟩, hinit, fun _ _ hmem => by cases hmem⟩
      (fun _ _ _ hI _ hs => inv_step hI hs) h
  exact hinv.attentive

/-- A second reader adds itself when the data has arrived, and the reactor thread has taken the event. -/
def lateReader : List (Action Bool) :=
  [.poll true [(0, pollIn)] true false, .suspend true 0, .add true, .yield true, .change epollIn,
    .poll false [(0, pollIn ||| pollOut)] false false, .suspend false 0, .add false, .yield false,
    .wait 0 epollIn]

theorem attentive_lateReader : ∃ s, (polls Bool).run (polls Bool).init lateReader = some s ∧
    s.taken = some epollIn ∧ s.queue = [epollIn] ∧ s.Attentive := by
  have hrun : ((polls Bool).run (polls Bool).init lateReader).map (fun s => (s.taken, s.queue)) =
      some (some epollIn, [epollIn]) := by
    decide +kernel
  obtain ⟨s, hs, hq⟩ := Option.map_eq_some_iff.mp hrun
  rw [Prod.mk.injEq] at hq
  exact ⟨s, hs, hq.1, hq.2, attentive_of_reachable (Infra.Lts.reachable_of_run hs)⟩

end Polls

end Nemo.Net
