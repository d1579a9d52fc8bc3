import Nemo.Log.AppenderInvariant

/-!
# A `FileLogAppender` does not work on a missing buffer

Every orderly step keeps `Inv`: the steps of the consumer, in the loop and behind it, and those of the
calls. A state with `Inv` has no fault.
-/

namespace Nemo.Log.Appender

open Http

variable {T : Type} {s s' : Appender T} {k : T} {pc : CallPc} {c : Nat} {x : Consumer}

/-! ## What is done with the buffers -/

/-- `log` appends to the buffers that are there. -/
theorem append_stocked (h : s.IsStocked) (str : Bytes) :
    ∃ currBuff nextBuff buffers, Stocked currBuff nextBuff buffers ∧ s.append str =
      { s with
        currBuff := currBuff
        nextBuff := nextBuff
        buffers := buffers
        logged := s.logged ++ [str] } := by
  obtain ⟨curr, hcurr, hc, hf⟩ := h.curr
  unfold append
  rw [hcurr]
  dsimp only
  have hsheet : Sheet (some curr) := ⟨curr, rfl, hc, hf⟩
  split
  · exact ⟨_, _, _, ⟨hsheet.append str, h.next, h.full, h.buffers⟩, rfl⟩
  · have hbuffers : ∀ b ∈ s.buffers ++ [some curr], Sheet b := by
      intro b hb
      rcases List.mem_append.mp hb with hb | hb
      · exact h.buffers b hb
      · rw [List.mem_singleton.mp hb]
        exact hsheet
    have hne : s.buffers ++ [some curr] ≠ [] := List.append_ne_nil_of_right_ne_nil _ (by simp)
    have hnew : Stocked (some (newBuffer.append str).2) none (s.buffers ++ [some curr]) :=
      ⟨sheet_newBuffer.append str, .inl rfl, fun _ => hne, hbuffers⟩
    rcases h.next with hnext | hnext <;>
    · cases s
      cases hnext
      exact ⟨_, _, _, hnew, rfl⟩

/-- The destructor finds nothing to write. -/
theorem collect_drained (h : s.IsDrained) : s.collect = ([], s) := by
  obtain ⟨hcurr, hnext, hbuffers⟩ := h
  cases s
  cases hbuffers
  rcases hcurr with rfl | rfl <;> rcases hnext with rfl | rfl <;> rfl

/-- What `collect` leaves, and what it takes. -/
theorem collect_stocked (hst : s.IsStocked) :
    ∃ currBuff nextBuff, s.collect.2 =
        { s with currBuff := currBuff, nextBuff := nextBuff, buffers := [] } ∧
      Drained currBuff nextBuff [] ∧ ∀ b ∈ s.collect.1, Sheet b := by
  obtain ⟨curr, hcurr, hc, hf⟩ := hst.curr
  have hnext : remaining s.nextBuff = [] ∧ left s.nextBuff = s.nextBuff := by
    rcases hst.next with e | e <;> rw [e] <;> exact ⟨rfl, rfl⟩
  refine ⟨_, _, rfl, ⟨?_, ?_, rfl⟩, ?_⟩
  · rw [hcurr, left]
    split
    · next he => exact .inr (congrArg some (eq_newBuffer hc hf he))
    · exact .inl rfl
  · rw [hnext.2]
    exact hst.next
  · intro b hb
    unfold collect at hb
    rw [hnext.1, List.append_nil, hcurr, remaining] at hb
    rcases List.mem_append.mp hb with hb | hb
    · exact hst.buffers b hb
    · split at hb
      · cases hb
      · rw [List.mem_singleton.mp hb]
        exact ⟨curr, rfl, hc, hf⟩

/-! ## What the invariant says about a state -/

/-- The buffers of a phase in which something is running. -/
theorem Phase.Holds.stocked {ph : Phase T} (h : ph.Holds s) (hr : s.running = true) :
    s.IsStocked ∧ ∀ currBuff nextBuff buffers logged, Stocked currBuff nextBuff buffers →
      ph.Holds { s with
        currBuff := currBuff
        nextBuff := nextBuff
        buffers := buffers
        logged := logged } := by
  cases ph with
  | quiet =>
    rw [h.1] at hr
    cases hr
  | starting j => exact ⟨h.2.2.1, fun _ _ _ _ hs => ⟨h.1, h.2.1, hs, h.2.2.2⟩⟩
  | «on» c => exact ⟨h.2.2.2.1, fun _ _ _ _ hs => ⟨h.1, h.2.1, h.2.2.1, hs, h.2.2.2.2⟩⟩
  | stopping j c =>
    rw [h.1] at hr
    cases hr

theorem Inv.running_of_logLock (h : Inv s) {str : Bytes} (hk : s.call k = .logLock str) :
    s.running = true := by
  have hexp := (h.calls.ok k).expects
  rwa [hk] at hexp

/-- `log` finds the buffers that it works on. -/
theorem Inv.stocked (h : Inv s) {str : Bytes} (hk : s.call k = .logLock str) : s.IsStocked := by
  obtain ⟨ph, hph, -⟩ := h.phase
  exact (hph.stocked (h.running_of_logLock hk)).1

/-- A busy call is the owner of its phase. -/
theorem Inv.owner (h : Inv s) (hb : (s.call k).busy = true) :
    (∃ ph : Phase T, ph = .starting k ∧ ph.Holds s) ∨
      ∃ c, ∃ ph : Phase T, ph = .stopping k c ∧ ph.Holds s := by
  obtain ⟨ph, hph, hbusy⟩ := h.phase
  have ho := hbusy k hb
  cases ph with
  | quiet => cases ho
  | «on» c => cases ho
  | starting j =>
    cases ho
    exact .inl ⟨_, rfl, hph⟩
  | stopping j c =>
    cases ho
    exact .inr ⟨c, _, rfl, hph⟩

/-- Only the owner of the phase is busy. -/
theorem Inv.others_not_busy (h : Inv s) (hb : (s.call k).busy = true) {j : T} (hj : j ≠ k) :
    (s.call j).busy = false := by
  obtain ⟨ph, -, hbusy⟩ := h.phase
  rw [Bool.eq_false_iff]
  intro hjb
  have := (hbusy j hjb).symm.trans (hbusy k hb)
  exact hj (Option.some.inj this)

/-- Nothing is running when `running_` is not set and no call has changed it. -/
theorem Inv.quiet (h : Inv s) (hr : s.running = false) (hb : ∀ j, (s.call j).busy = false) :
    Phase.quiet.Holds s := by
  obtain ⟨ph, hph, -⟩ := h.phase
  cases ph with
  | quiet => exact hph
  | starting j => exact absurd hph.1 (by rw [hr]; decide)
  | «on» c => exact absurd hph.1 (by rw [hr]; decide)
  | stopping j c => exact absurd (hph.busy rfl) (by rw [hb]; decide)

/-- Where the one consumer that is not finished stands. -/
theorem Inv.live (h : Inv s) (hx : s.consumer c = some x) (hlive : x.pc ≠ .finished) :
    OthersFinished s c ∧
      ((s.running = true ∧ Turning x ∧ s.IsStocked) ∨ (s.running = false ∧ Ending s x)) := by
  obtain ⟨ph, hph, -⟩ := h.phase
  cases ph with
  | quiet => exact absurd (hph.2.1 c x hx) hlive
  | starting j => exact absurd (hph.2.1 c x hx) hlive
  | «on» c' =>
    obtain ⟨hr, -, hothers, hst, x', hx', hturn⟩ := hph
    by_cases e : c = c'
    · subst e
      cases hx.symm.trans hx'
      exact ⟨hothers, .inl ⟨hr, hturn, hst⟩⟩
    · exact absurd (hothers c x e hx) hlive
  | stopping j c' =>
    obtain ⟨hr, -, hothers, x', hx', hend⟩ := hph
    by_cases e : c = c'
    · subst e
      cases hx.symm.trans hx'
      exact ⟨hothers, .inr ⟨hr, hend⟩⟩
    · exact absurd (hothers c x e hx) hlive

/-- A consumer in the loop goes on to its end when it is told to. -/
theorem ending_of_turning {x : Consumer} (h : Turning x) (hst : s.IsStocked)
    (hne : x.pc ≠ .entry) : Ending s x := by
  obtain ⟨pc, newBuff1, newBuff2, buffsToWrite⟩ := x
  cases pc with
  | entry => exact absurd rfl hne
  | head | lock | waiting | refill => exact ⟨hne, h, hst⟩
  | writing rest final =>
    cases final with
    | false => exact ⟨hne, h, hst⟩
    | true => exact h.elim
  | drain => exact h.elim
  | finished => exact h.elim

/-! ## Steps of the consumer -/

/-- A step of the consumer that keeps what its phase says about the buffers. -/
theorem Inv.setConsumer (h : Inv s) (hx : s.consumer c = some x) (hlive : x.pc ≠ .finished)
    {x' : Consumer} {currBuff nextBuff : Option Buffer} {buffers : List (Option Buffer)}
    {files : Files}
    (hon : s.running = true → Turning x → s.IsStocked →
      Turning x' ∧ Stocked currBuff nextBuff buffers)
    (hend : s.running = false → Ending s x → Ending { s with
      currBuff := currBuff, nextBuff := nextBuff, buffers := buffers, files := files } x') :
    Inv ({ s with
      currBuff := currBuff, nextBuff := nextBuff, buffers := buffers, files := files }.setConsumer
        c x') := by
  have hfresh : ∀ c', s.nextThread ≤ c' → c' ≠ c := fun c' hc' e => by
    rw [e] at hc'
    rw [h.fresh c hc'] at hx
    cases hx
  refine ⟨h.fault, fun c' hc' => ?_, ⟨h.calls.ok, h.calls.alone⟩, ?_⟩
  · exact (Function.update_of_ne (hfresh c' hc') ..).trans (h.fresh c' hc')
  obtain ⟨hothers, -⟩ := h.live hx hlive
  have hothers' : ∀ s' : Appender T, s'.consumer = Function.update s.consumer c (some x') →
      OthersFinished s' c := by
    intro s' hs' c' y hc' hy
    rw [hs', Function.update_of_ne hc'] at hy
    exact hothers c' y hc' hy
  obtain ⟨ph, hph, hbusy⟩ := h.phase
  cases ph with
  | quiet => exact absurd (hph.2.1 c x hx) hlive
  | starting j => exact absurd (hph.2.1 c x hx) hlive
  | «on» c' =>
    obtain ⟨hr, hthread, hoth, hst, y, hy, hturn⟩ := hph
    have e : c = c' := by
      by_contra e
      exact hlive (hoth c x e hx)
    subst e
    cases hx.symm.trans hy
    obtain ⟨hturn', hst'⟩ := hon hr hturn hst
    exact ⟨.on c, ⟨hr, hthread, hothers' _ rfl, hst', x', Function.update_self .., hturn'⟩, hbusy⟩
  | stopping j c' =>
    obtain ⟨hr, hstop, hoth, y, hy, hending⟩ := hph
    have e : c = c' := by
      by_contra e
      exact hlive (hoth c x e hx)
    subst e
    cases hx.symm.trans hy
    exact ⟨.stopping j c, ⟨hr, hstop, hothers' _ rfl, x', Function.update_self ..,
      hend hr hending⟩, hbusy⟩

/-- The consumer takes what there is, and gives its spare buffers. -/
theorem swap_stocked (hsp : Spare x) (hst : s.IsStocked) :
    ∃ currBuff nextBuff buffers x', s.swap c x =
      ({ s with currBuff := currBuff, nextBuff := nextBuff, buffers := buffers }.setConsumer c x') ∧
      Stocked currBuff nextBuff buffers ∧ Carries x' ∧
      x'.pc = .writing (s.buffers ++ [s.currBuff]) false ∧
      ∀ b ∈ s.buffers ++ [s.currBuff], Sheet b := by
  obtain ⟨h1, h2, hw⟩ := hsp
  have hsheets : ∀ b ∈ s.buffers ++ [s.currBuff], Sheet b := by
    intro b hb
    rcases List.mem_append.mp hb with hb | hb
    · exact hst.buffers b hb
    · exact (List.mem_singleton.mp hb) ▸ hst.curr
  have hnil : ∀ b ∈ ([] : List (Option Buffer)), Sheet b := fun b hb => absurd hb List.not_mem_nil
  unfold swap
  dsimp only
  rw [h1, h2, hw]
  rcases hst.next with hnext | hnext
  · have hfull := hst.full hnext
    have hlen : 2 ≤ (s.buffers ++ [s.currBuff]).length := by
      have := List.length_pos_of_ne_nil hfull
      rw [List.length_append, List.length_singleton]
      omega
    rw [hnext]
    exact ⟨_, _, _, _, rfl, ⟨sheet_newBuffer, .inr rfl, fun e => (by cases e), hnil⟩,
      ⟨rfl, .inr ⟨rfl, hlen⟩, hsheets⟩, rfl, hsheets⟩
  · have hlen : 1 ≤ (s.buffers ++ [s.currBuff]).length := by
      rw [List.length_append, List.length_singleton]
      omega
    cases s
    cases hnext
    exact ⟨_, _, _, _, rfl, ⟨sheet_newBuffer, .inr rfl, fun e => (by cases e), hnil⟩,
      ⟨rfl, .inl ⟨rfl, hlen⟩, hsheets⟩, rfl, hsheets⟩

/-- One spare buffer out of a list of buffers. -/
theorem refillOne_none {buffs : List (Option Buffer)} (hne : buffs ≠ [])
    (hs : ∀ b ∈ buffs, Sheet b) : refillOne none buffs = some (some newBuffer, buffs.dropLast) := by
  obtain ⟨y, hy, hc, hf⟩ := hs _ (List.getLast_mem hne)
  unfold refillOne
  rw [List.getLast?_eq_some_getLast hne, hy]
  dsimp only
  rw [clear_eq hc hf]

/-- What was written is enough for the spare buffers. -/
theorem refill_carries (h : Carries x) :
    s.refill c x = s.setConsumer c { pc := .head, buffsToWrite := [] } := by
  obtain ⟨h1, h2, hs⟩ := h
  have hs' : ∀ b ∈ x.buffsToWrite.take 2, Sheet b := fun b hb => hs b (List.mem_of_mem_take hb)
  have hlen : (x.buffsToWrite.take 2).length = min 2 x.buffsToWrite.length := List.length_take ..
  have hne : x.buffsToWrite.take 2 ≠ [] := by
    intro e
    rw [e] at hlen
    rcases h2 with ⟨-, h⟩ | ⟨-, h⟩ <;> simp at hlen <;> omega
  unfold refill
  rw [h1, refillOne_none hne hs']
  dsimp only
  rcases h2 with ⟨h2, -⟩ | ⟨h2, hlen2⟩ <;> rw [h2]
  · rfl
  · have hne' : (x.buffsToWrite.take 2).dropLast ≠ [] := by
      intro e
      have := congrArg List.length e
      rw [List.length_dropLast, hlen, List.length_nil] at this
      omega
    rw [refillOne_none hne' fun b hb => hs' b ((List.dropLast_sublist _).subset hb)]

/-- The consumer goes on, and no buffer moves. -/
theorem Inv.goOn (h : Inv s) (hx : s.consumer c = some x) (hlive : x.pc ≠ .finished)
    {x' : Consumer} (hon : s.running = true → Turning x → Turning x')
    (hend : s.running = false → Ending s x → Ending s x') : Inv (s.setConsumer c x') :=
  h.setConsumer hx hlive (fun hr ht hst => ⟨hon hr ht, hst⟩) hend

/-- Before the section under the mutex, the consumer has its spare buffers. -/
theorem Inv.spare (h : Inv s) (hx : s.consumer c = some x) (hpc : x.pc = .lock ∨ x.pc = .waiting) :
    Spare x ∧ s.IsStocked := by
  have hlive : x.pc ≠ .finished := by rcases hpc with e | e <;> rw [e] <;> decide
  have hspare : Turning x → Spare x := by
    unfold Turning
    rcases hpc with e | e <;> rw [e] <;> exact id
  have hending : Ending s x → Turning x ∧ s.IsStocked := by
    unfold Ending
    rcases hpc with e | e <;> rw [e] <;> exact fun h => h.2
  rcases (h.live hx hlive).2 with ⟨-, ht, hst⟩ | ⟨-, hend⟩
  · exact ⟨hspare ht, hst⟩
  · exact ⟨hspare (hending hend).1, (hending hend).2⟩

/-- Behind `write`, the consumer has what it has written. -/
theorem Inv.carries (h : Inv s) (hx : s.consumer c = some x) (hpc : x.pc = .refill) : Carries x := by
  have hcarries : Turning x → Carries x := by
    unfold Turning
    rw [hpc]
    exact id
  have hending : Ending s x → Turning x := by
    unfold Ending
    rw [hpc]
    exact fun h => h.2.1
  rcases (h.live hx (by rw [hpc]; decide)).2 with ⟨-, ht, -⟩ | ⟨-, hend⟩
  · exact hcarries ht
  · exact hcarries (hending hend)

/-- The section under the mutex in the loop. -/
theorem Inv.swap (h : Inv s) (hx : s.consumer c = some x) (hpc : x.pc = .lock ∨ x.pc = .waiting) :
    Inv (s.swap c x) := by
  have hlive : x.pc ≠ .finished := by rcases hpc with e | e <;> rw [e] <;> decide
  obtain ⟨hspare, hstocked⟩ := h.spare hx hpc
  obtain ⟨currBuff, nextBuff, buffers, x', heq, hst, hcarries, hpc', hsheets⟩ :=
    swap_stocked (c := c) hspare hstocked
  have hturn : Turning x' := by
    unfold Turning
    rw [hpc']
    exact ⟨hcarries, hsheets⟩
  rw [heq]
  refine h.setConsumer hx hlive (fun _ _ _ => ⟨hturn, hst⟩) fun _ _ => ?_
  exact ending_of_turning hturn hst (by rw [hpc']; exact fun e => by cases e)

/-- Every step of a consumer keeps the invariant. -/
theorem Inv.stepConsumer {cfg : Config} {now rollNow : Nat} (h : Inv s)
    (hx : s.consumer c = some x) (hs : s.stepConsumer cfg c x now rollNow = some s') : Inv s' := by
  have hlive : x.pc ≠ .finished := by
    intro e
    unfold Appender.stepConsumer at hs
    rw [e] at hs
    cases hs
  obtain ⟨-, hstate⟩ := h.live hx hlive
  unfold Appender.stepConsumer at hs
  obtain ⟨pc, newBuff1, newBuff2, buffsToWrite⟩ := x
  cases pc with
  | entry =>
    cases hs
    rcases hstate with ⟨hr, -, -⟩ | ⟨-, hend⟩
    · rw [if_pos hr]
      refine h.goOn hx hlive (fun _ ht => Spare.setPc ht _) fun hr' => ?_
      rw [hr] at hr'
      cases hr'
    · exact absurd rfl hend.1
  | head =>
    dsimp only at hs
    rcases hstate with ⟨hr, ht, -⟩ | ⟨hr, -⟩
    · have hspare : Spare _ := ht
      rw [if_pos hr, show newBuff1 = some newBuffer from hspare.newBuff1,
        show newBuff2 = some newBuffer from hspare.newBuff2,
        show buffsToWrite = [] from hspare.buffsToWrite] at hs
      cases hs
      refine h.goOn hx hlive (fun _ _ => ⟨rfl, rfl, rfl⟩) fun hr' => ?_
      rw [hr] at hr'
      cases hr'
    · rw [if_neg (by rw [hr]; decide)] at hs
      cases hs
      refine h.goOn hx hlive (fun hr' => ?_) fun _ hend => ⟨?_, hend.2.2⟩
      · rw [hr] at hr'
        cases hr'
      · exact (show Spare _ from hend.2.1).buffsToWrite
  | lock =>
    dsimp only at hs
    split at hs
    · cases hs
      refine h.goOn hx hlive (fun _ ht => Spare.setPc ht _) fun _ hend => ⟨?_, ?_, hend.2.2⟩
      · exact fun e => by cases e
      · exact Spare.setPc hend.2.1 _
    · cases hs
      exact h.swap hx (.inl rfl)
  | waiting =>
    cases hs
    exact h.swap hx (.inr rfl)
  | writing rest final =>
    cases rest with
    | nil =>
      cases hs
      cases final with
      | false =>
        refine h.goOn hx hlive (fun _ ht => Carries.setPc ht.1 _) fun _ hend => ⟨?_, ?_, hend.2.2⟩
        · exact fun e => by cases e
        · exact Carries.setPc hend.2.1.1 _
      | true => exact h.goOn hx hlive (fun _ ht => ht.elim) fun _ hend => hend.1
    | cons b rest =>
      have hb : ∃ y, b = some y := by
        have hsheet : Sheet b := by
          cases final with
          | false =>
            rcases hstate with ⟨-, ht, -⟩ | ⟨-, hend⟩
            · exact ht.2 b List.mem_cons_self
            · exact hend.2.1.2 b List.mem_cons_self
          | true =>
            rcases hstate with ⟨-, ht, -⟩ | ⟨-, hend⟩
            · exact ht.elim
            · exact hend.2 b List.mem_cons_self
        exact ⟨hsheet.choose, hsheet.choose_spec.1⟩
      obtain ⟨y, rfl⟩ := hb
      cases hs
      cases final with
      | false =>
        refine h.setConsumer hx hlive (fun _ ht hst => ⟨⟨Carries.setPc ht.1 _, ?_⟩, hst⟩)
          fun _ hend => ⟨fun e => (by cases e), ⟨Carries.setPc hend.2.1.1 _, ?_⟩, hend.2.2⟩
        · exact fun b hb => ht.2 b (List.mem_cons_of_mem _ hb)
        · exact fun b hb => hend.2.1.2 b (List.mem_cons_of_mem _ hb)
      | true =>
        refine h.setConsumer hx hlive (fun _ ht => ht.elim) fun _ hend => ⟨hend.1, ?_⟩
        exact fun b hb => hend.2 b (List.mem_cons_of_mem _ hb)
  | refill =>
    cases hs
    rw [refill_carries (h.carries hx rfl)]
    refine h.goOn hx hlive (fun _ _ => ⟨rfl, rfl, rfl⟩) fun _ hend => ⟨?_, ⟨rfl, rfl, rfl⟩, hend.2.2⟩
    exact fun e => by cases e
  | drain =>
    cases hs
    rcases hstate with ⟨-, ht, -⟩ | ⟨hr, hnil, hst⟩
    · exact ht.elim
    · obtain ⟨currBuff, nextBuff, heq, hd, hsheets⟩ := collect_stocked hst
      rw [show buffsToWrite = [] from hnil]
      show Inv ({ s.collect.2 with buffers := [] }.setConsumer c
        (.mk (.writing s.collect.1 true) newBuff1 newBuff2 s.collect.1))
      rw [heq]
      exact h.setConsumer hx hlive (fun _ ht => ht.elim) fun _ _ => ⟨hd, hsheets⟩
  | finished => exact absurd rfl hlive

/-! ## Steps of a call -/

variable [DecidableEq T]

theorem Inv.log (h : Inv s) {str : Bytes} (hk : s.call k = .logLock str) :
    Inv ((s.append str).setCall k .idle) := by
  have hr := h.running_of_logLock hk
  obtain ⟨ph, hph, hbusy⟩ := h.phase
  obtain ⟨hst, hup⟩ := hph.stocked hr
  obtain ⟨currBuff, nextBuff, buffers, hnew, heq⟩ := append_stocked hst str
  rw [heq]
  have hinv : Inv { s with
      currBuff := currBuff, nextBuff := nextBuff, buffers := buffers, logged := s.logged ++ [str] } :=
    ⟨h.fault, h.fresh, ⟨h.calls.ok, h.calls.alone⟩, ph, hup _ _ _ _ hnew, hbusy⟩
  refine hinv.moveOn ?_ ?_ rfl (.of_idle _ _) (fun hd => by cases hd)
  · exact fun e => by rw [show s.call k = .idle from e] at hk; cases hk
  · exact congrArg CallPc.busy hk

/-- A call sets `running_`. -/
theorem Inv.startStore (h : Inv s) {str : Option Bytes} (hk : s.call k = .startStore str)
    (ho : s.running = false ∧ (∀ j, (s.call j).busy = false) ∧ s.currBuff.isSome = true ∧
      s.nextBuff.isSome = true) : Inv ({ s with running := true }.setCall k (.startMake str)) := by
  obtain ⟨hr, hbusy, hcurr, hnext⟩ := ho
  have hne : s.call k ≠ .idle := by rw [hk]; exact fun e => by cases e
  have hcalls : Calls ({ s with running := true }.setCall k (.startMake str)) := by
    refine h.calls.update rfl ⟨fun hd => (by cases hd), trivial⟩ (fun j hj => ?_)
      (fun hd => by cases hd) fun j hj hd => ?_
    · exact (h.calls.ok j).up (h.calls.not_inDestructor hne hj)
    · rw [h.calls.not_inDestructor hne hj] at hd
      cases hd
  refine ⟨h.fault, h.fresh, hcalls, .starting k, ?_, ?_⟩
  · obtain ⟨ph, hph, -⟩ := h.phase
    cases ph with
    | quiet =>
      obtain ⟨-, hall, hd⟩ := hph
      have hcurr' : s.currBuff = some newBuffer := hd.curr.resolve_left fun e => by
        rw [e] at hcurr
        cases hcurr
      have hnext' : s.nextBuff = some newBuffer := hd.next.resolve_left fun e => by
        rw [e] at hnext
        cases hnext
      refine ⟨rfl, hall, ⟨?_, hd.next, ?_, ?_⟩, .inl ⟨str, call_setCall_self⟩⟩
      · exact hcurr' ▸ sheet_newBuffer
      · exact fun e => by rw [show s.nextBuff = none from e] at hnext'; cases hnext'
      · exact fun b hb => by rw [show s.buffers = [] from hd.buffers] at hb; cases hb
    | starting j => exact absurd hph.1 (by rw [hr]; decide)
    | «on» c => exact absurd hph.1 (by rw [hr]; decide)
    | stopping j c => exact absurd (hph.busy rfl) (by rw [hbusy]; decide)
  · intro j hj
    by_cases e : j = k
    · rw [e, Phase.owner]
    · rw [call_setCall_of_ne e] at hj
      exact absurd (hbusy j) (by rw [show (s.call j).busy = true from hj]; decide)

/-- The calls, when a busy one moves on. -/
theorem Inv.calls_of_busy (h : Inv s) (hb : (s.call k).busy = true)
    (hcall : s'.call = Function.update s.call k pc) (hr : s'.running = s.running)
    (hdes : s'.destroyed = s.destroyed) (hok : CallOk s.running s.destroyed pc)
    (hd : pc.inDestructor = true → (s.call k).inDestructor = true) : Calls s' := by
  have hne : s.call k ≠ .idle := fun e => by
    rw [e] at hb
    cases hb
  refine h.calls.update hcall (by rw [hr, hdes]; exact hok) (fun j _ => ?_) ?_ fun j hj hd => ?_
  · rw [hr, hdes]
    exact h.calls.ok j
  · exact fun hpc j hj => h.calls.alone k (hd hpc) j hj
  · rw [h.calls.not_inDestructor hne hj] at hd
    cases hd

/-- After the step of a busy call, no other call is busy. -/
theorem Inv.busy_after (h : Inv s) (hb : (s.call k).busy = true)
    (hcall : s'.call = Function.update s.call k pc) {ph : Phase T}
    (hpc : pc.busy = true → ph.owner = some k) :
    ∀ j, (s'.call j).busy = true → ph.owner = some j := by
  intro j hj
  rw [hcall] at hj
  by_cases e : j = k
  · subst e
    rw [Function.update_self] at hj
    exact hpc hj
  · rw [Function.update_of_ne e, h.others_not_busy hb e] at hj
    cases hj

/-- A busy call that has set `running_` is starting a consumer. -/
theorem Inv.startMake (h : Inv s) {str : Option Bytes} (hk : s.call k = .startMake str) :
    Inv ({ s with thread := some { id := s.nextThread }, nextThread := s.nextThread + 1 }.setCall k
      (.startThread str)) := by
  have hb : (s.call k).busy = true := by rw [hk]; rfl
  refine ⟨h.fault, fun c hc => h.fresh c (Nat.le_of_succ_le hc), ?_, .starting k, ?_, ?_⟩
  · exact h.calls_of_busy hb rfl rfl rfl ⟨fun hd => (by cases hd), trivial⟩ fun hd => by cases hd
  · rcases h.owner hb with ⟨_, rfl, hr, hall, hst, -⟩ | ⟨c, _, rfl, -, hstop, -⟩
    · refine ⟨hr, hall, hst, .inr ⟨str, _, call_setCall_self, rfl, rfl, Nat.lt_succ_self _, ?_⟩⟩
      exact h.fresh _ (Nat.le_refl _)
    · rcases hstop with ⟨dtor, hs, -⟩ | ⟨dtor, hs⟩ <;>
      · rw [hk] at hs
        cases hs
  · exact h.busy_after hb rfl fun _ => rfl

/-- The consumer is there, with its two spare buffers. -/
theorem Inv.startThread (h : Inv s) {str : Option Bytes} (hk : s.call k = .startThread str) :
    ∃ t, s.thread = some t ∧ t.started = false ∧
      Inv (({ s with thread := some { t with started := true } }.setConsumer t.id {}).setCall k
        (.started str)) := by
  have hb : (s.call k).busy = true := by rw [hk]; rfl
  rcases h.owner hb with ⟨_, rfl, hr, hall, hst, hstart⟩ | ⟨c, _, rfl, -, hstop, -⟩
  · rcases hstart with ⟨_, hs⟩ | ⟨_, t, -, ht, hnot, hlt, hnone⟩
    · rw [hk] at hs
      cases hs
    refine ⟨t, ht, hnot, h.fault, fun c hc => ?_, ?_, .on t.id, ?_, ?_⟩
    · have hne : c ≠ t.id := fun e => Nat.lt_irrefl _ (Nat.lt_of_lt_of_le (e ▸ hlt) hc)
      exact (Function.update_of_ne hne ..).trans (h.fresh c hc)
    · refine h.calls_of_busy hb rfl rfl rfl ?_ ?_
      · cases str with
        | none => exact .of_idle _ _
        | some str => exact ⟨fun hd => (by cases hd), hr⟩
      · cases str <;> exact fun hd => by cases hd
    · refine ⟨hr, rfl, fun c x hc hx => ?_, hst, {}, Function.update_self .., ⟨rfl, rfl, rfl⟩⟩
      exact hall c x ((Function.update_of_ne hc ..).symm.trans hx)
    · refine h.busy_after hb rfl fun hpc => ?_
      cases str <;> cases hpc
  · rcases hstop with ⟨dtor, hs, -⟩ | ⟨dtor, hs⟩ <;>
    · rw [hk] at hs
      cases hs

/-- A call tells the consumer to stop. -/
theorem Inv.stopStore (h : Inv s) {dtor : Bool} (hk : s.call k = .stopStore dtor)
    (ho : (∀ j, j ≠ k → s.call j = .idle) ∧
      ∀ c, c < s.nextThread → (s.consumer c).map (·.pc) ≠ some .entry) :
    Inv ({ s with running := false }.setCall k (.stopMove dtor)) := by
  obtain ⟨hidle, hentry⟩ := ho
  have hr : s.running = true := by
    have hexp := (h.calls.ok k).expects
    rwa [hk] at hexp
  have hd : dtor = true → s.destroyed = true := fun e => by
    have := (h.calls.ok k).destroyed
    rw [hk, e] at this
    exact this rfl
  have hcalls : Calls ({ s with running := false }.setCall k (.stopMove dtor)) := by
    refine h.calls.update rfl ⟨fun hin => hd ?_, trivial⟩ (fun j hj => ?_) (fun _ => hidle)
      fun j hj hin => ?_
    · cases dtor
      · cases hin
      · rfl
    · rw [hidle j hj]
      exact .of_idle _ _
    · rw [hidle j hj] at hin
      cases hin
  obtain ⟨ph, hph, -⟩ := h.phase
  cases ph with
  | quiet => exact absurd hph.1 (by rw [hr]; decide)
  | stopping j c => exact absurd hph.1 (by rw [hr]; decide)
  | starting j =>
    have hj : j = k := by
      by_contra e
      have hb := hph.busy rfl
      rw [hidle j e] at hb
      cases hb
    have hb := hph.busy (congrArg some hj)
    rw [hk] at hb
    cases hb
  | «on» c =>
    obtain ⟨-, hthread, hothers, hst, x, hx, hturn⟩ := hph
    refine ⟨h.fault, h.fresh, hcalls, .stopping k c, ⟨rfl, ?_, hothers, x, hx, ?_⟩, ?_⟩
    · exact .inl ⟨dtor, call_setCall_self, hthread⟩
    · refine ending_of_turning hturn hst fun e => hentry c ?_ (by rw [hx, Option.map_some, e])
      by_contra hlt
      rw [h.fresh c (Nat.not_lt.mp hlt)] at hx
      cases hx
    · intro j hj
      by_cases e : j = k
      · rw [e, Phase.owner]
      · rw [call_setCall_of_ne e, show ({ s with running := false } : Appender T).call j = .idle from
          hidle j e] at hj
        cases hj

/-- The call takes the thread of the consumer. -/
theorem Inv.stopMove (h : Inv s) {dtor : Bool} (hk : s.call k = .stopMove dtor) :
    Inv ({ s with thread := none }.setCall k (.stopJoin s.thread dtor)) := by
  have hb : (s.call k).busy = true := by rw [hk]; rfl
  rcases h.owner hb with ⟨_, rfl, -, -, -, hstart⟩ | ⟨c, _, rfl, hr, hstop, hothers, x, hx, hend⟩
  · rcases hstart with ⟨_, hs⟩ | ⟨_, _, hs, -⟩ <;>
    · rw [hk] at hs
      cases hs
  · rcases hstop with ⟨dtor', hs, hthread⟩ | ⟨_, hs⟩
    · rw [hthread]
      refine ⟨h.fault, h.fresh, ?_, .stopping k c, ⟨hr, ?_, hothers, x, hx, hend⟩, ?_⟩
      · have hin : (CallPc.stopJoin (some ⟨c, true⟩) dtor).inDestructor =
            (s.call k).inDestructor := by
          rw [hk]
          cases dtor <;> rfl
        refine h.calls_of_busy hb rfl rfl rfl ⟨fun hd => ?_, trivial⟩ fun hd => hin ▸ hd
        exact (h.calls.ok k).destroyed (hin ▸ hd)
      · exact .inr ⟨dtor, call_setCall_self⟩
      · exact h.busy_after hb rfl fun _ => rfl
    · rw [hk] at hs
      cases hs

/-- The consumer that is joined is finished, and leaves nothing. -/
theorem Inv.stopJoin (h : Inv s) {thread : Option Thread} {dtor : Bool}
    (hk : s.call k = .stopJoin thread dtor) :
    ∃ t x, thread = some t ∧ t.started = true ∧ s.consumer t.id = some x ∧
      (x.pc = .finished → Inv (s.setCall k (.stopped dtor))) := by
  have hb : (s.call k).busy = true := by rw [hk]; rfl
  rcases h.owner hb with ⟨_, rfl, -, -, -, hstart⟩ | ⟨c, _, rfl, hr, hstop, hothers, x, hx, hend⟩
  · rcases hstart with ⟨_, hs⟩ | ⟨_, _, hs, -⟩ <;>
    · rw [hk] at hs
      cases hs
  · rcases hstop with ⟨_, hs, -⟩ | ⟨dtor', hs⟩
    · rw [hk] at hs
      cases hs
    · rw [hk] at hs
      cases hs
      refine ⟨_, x, rfl, rfl, hx, fun hfin => ⟨h.fault, h.fresh, ?_, .quiet, ⟨hr, ?_, ?_⟩, ?_⟩⟩
      · refine h.calls_of_busy hb rfl rfl rfl ?_ ?_
        · cases dtor with
          | false => exact .of_idle _ _
          | true =>
            refine ⟨fun _ => (h.calls.ok k).destroyed ?_, hr⟩
            rw [hk]
            rfl
        · rw [hk]
          cases dtor <;> exact fun hd => hd
      · intro c' x' hx'
        by_cases e : c' = c
        · rw [e] at hx'
          cases hx.symm.trans hx'
          exact hfin
        · exact hothers c' x' e hx'
      · unfold Ending at hend
        rw [hfin] at hend
        exact hend
      · refine h.busy_after hb rfl fun hpc => ?_
        cases dtor <;> cases hpc

/-- Nothing is left when the destructor comes behind `stop`. -/
theorem Inv.drained_destroy (h : Inv s) (hk : s.call k = .destroy) : s.IsDrained := by
  have hr : s.running = false := by
    have hexp := (h.calls.ok k).expects
    rwa [hk] at hexp
  refine (h.quiet hr fun j => ?_).2.2
  by_cases e : j = k
  · rw [e, hk]
    rfl
  · rw [h.calls.alone k (by rw [hk]; rfl) j e]
    rfl

theorem Inv.destroy (h : Inv s) (hk : s.call k = .destroy) :
    Inv (s.collect.2.setCall k (.destroying s.collect.1)) := by
  have hin : (s.call k).inDestructor = true := by rw [hk]; rfl
  have hr : s.running = false := by
    have hexp := (h.calls.ok k).expects
    rwa [hk] at hexp
  rw [collect_drained (h.drained_destroy hk)]
  refine h.moveOn ?_ (by rw [hk]; rfl) rfl ⟨fun _ => (h.calls.ok k).destroyed hin, hr, rfl⟩
    fun _ => hin
  rw [hk]
  exact fun e => by cases e

/-- Every step of a call keeps the invariant. -/
theorem Inv.stepCall {cfg : Config} {now rollNow : Nat} (h : Inv s)
    (ho : Orderly s (.call k now rollNow)) (hs : s.stepCall cfg k now rollNow = some s') :
    Inv s' := by
  unfold Appender.stepCall at hs
  unfold Orderly at ho
  dsimp only at ho
  have hne : s.call k ≠ .idle := by
    intro e
    rw [e] at hs
    cases hs
  have hmove : ∀ pc : CallPc, pc.busy = false → (s.call k).busy = false → pc.expects s.running →
      (pc.inDestructor = true → (s.call k).inDestructor = true) → Inv (s.setCall k pc) :=
    fun pc hpc hb hexp hd =>
      h.moveOn hne hb hpc ⟨fun hin => (h.calls.ok k).destroyed (hd hin), hexp⟩ hd
  cases hk : s.call k with
  | idle => exact absurd hk hne
  | startCheck str =>
    rw [hk] at hs hmove
    cases hs
    split
    · next hr =>
      cases str with
      | none => exact hmove _ rfl rfl trivial fun hd => by cases hd
      | some str => exact hmove _ rfl rfl hr fun hd => by cases hd
    · exact hmove _ rfl rfl trivial fun hd => by cases hd
  | startStore str =>
    rw [hk] at hs ho
    cases hs
    exact h.startStore hk ho
  | startMake str =>
    rw [hk] at hs
    cases hs
    exact h.startMake hk
  | startThread str =>
    obtain ⟨t, ht, hnot, hinv⟩ := h.startThread hk
    rw [hk, ht] at hs
    dsimp only at hs
    rw [if_neg (by rw [hnot]; decide)] at hs
    cases hs
    exact hinv
  | logLock str =>
    rw [hk] at hs
    cases hs
    exact h.log hk
  | stopCheck dtor =>
    rw [hk] at hs hmove
    cases hs
    split
    · next hr => exact hmove _ rfl rfl hr fun hd => by cases dtor <;> exact hd
    · next hr =>
      cases dtor with
      | false => exact hmove _ rfl rfl trivial fun hd => by cases hd
      | true => exact hmove _ rfl rfl (Bool.eq_false_iff.mpr hr) fun _ => rfl
  | stopStore dtor =>
    rw [hk] at hs ho
    cases hs
    exact h.stopStore hk ho
  | stopMove dtor =>
    rw [hk] at hs
    cases hs
    exact h.stopMove hk
  | stopJoin thread dtor =>
    obtain ⟨t, x, rfl, hst, hx, hinv⟩ := h.stopJoin hk
    rw [hk] at hs
    dsimp only at hs
    rw [if_pos hst, hx] at hs
    dsimp only at hs
    split at hs
    · next hfin =>
      cases hs
      exact hinv hfin
    · cases hs
  | destroy =>
    rw [hk] at hs
    cases hs
    exact h.destroy hk
  | destroying rest =>
    have hexp := (h.calls.ok k).expects
    rw [hk] at hs hmove hexp
    rw [hexp.2] at hs
    cases hs
    exact hmove _ rfl rfl trivial fun hd => by cases hd

/-! ## Every step -/

/-- **Every orderly step keeps the invariant.** -/
theorem Inv.step {cfg : Config} {a : Act T} (h : Inv s) (ho : Orderly s a)
    (hs : s.step cfg a = some s') : Inv s' := by
  unfold Appender.step at hs
  rw [if_neg (by rw [h.fault]; decide)] at hs
  cases a with
  | log k level str =>
    dsimp only at hs
    generalize (if cfg.level.toNat ≤ level.toNat then some str else none) = str at hs
    by_cases hr : s.running = true
    · rw [if_pos hr] at hs
      cases str with
      | none => exact h.begin hs rfl (.of_idle _ _) rfl
      | some str => exact h.begin hs rfl ⟨fun hd => (by cases hd), hr⟩ rfl
    · rw [if_neg hr] at hs
      exact h.begin hs rfl ⟨fun hd => (by cases hd), trivial⟩ rfl
  | start k => exact h.begin hs rfl ⟨fun hd => (by cases hd), trivial⟩ rfl
  | stop k => exact h.begin hs rfl ⟨fun hd => (by cases hd), trivial⟩ rfl
  | destroy k =>
    have hidle : ∀ j, s.call j = .idle := ho
    dsimp only at hs
    rw [Appender.begin, hidle k] at hs
    dsimp only at hs
    split at hs
    · cases hs
    · cases hs
      exact h.beginDestructor hidle
  | call k now rollNow => exact h.stepCall ho hs
  | consume c now rollNow =>
    dsimp only at hs
    split at hs
    · cases hs
    · next x hx => exact h.stepConsumer hx hs

theorem inv_init (cfg : Config) (now : Nat) : Inv (fileLogAppender T cfg now).init := by
  refine ⟨rfl, fun _ _ => rfl, ⟨fun _ => .of_idle _ _, fun k hd => by cases hd⟩, .quiet, ⟨rfl, ?_, ?_⟩, ?_⟩
  · exact fun c x hx => by cases hx
  · exact ⟨.inr rfl, .inr rfl, rfl⟩
  · exact fun k hb => by cases hb

end Nemo.Log.Appender
