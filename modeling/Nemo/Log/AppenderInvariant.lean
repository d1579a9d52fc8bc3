import Mathlib.Data.Fintype.Basic
import Nemo.Log.FileLogAppender

/-!
# Who holds the buffers of a `FileLogAppender`

As long as calls of `start` and `stop` do not meet, and `start` finds both buffers, the appender is in
one of four phases: nobody is running, a call is starting a consumer, one consumer is running, or
a call has told it to stop and waits for it. `Inv` says so, and says where the buffers are.

The condition under which it is kept is `Orderly`.
-/

namespace Nemo.Log

open Http

/-- The call has changed `running_`, and has not come to the end of `start` or `stop`. -/
def CallPc.busy : CallPc → Bool
  | .startMake _ | .startThread _ | .stopMove _ | .stopJoin _ _ => true
  | _ => false

/-- The call is the destructor. -/
def CallPc.inDestructor : CallPc → Bool
  | .stopCheck true | .stopStore true | .stopMove true | .stopJoin _ true | .destroy
  | .destroying _ => true
  | _ => false

/-- What a place of a call says about `running_`. -/
def CallPc.expects (running : Bool) : CallPc → Prop
  | .logLock _ | .stopStore _ => running = true
  | .destroy => running = false
  | .destroying rest => running = false ∧ rest = []
  | _ => True

namespace Appender

/-! ## Buffers -/

/-- A buffer of the size that all buffers have. -/
def Sheet (b : Option Buffer) : Prop :=
  ∃ x, b = some x ∧ x.capacity = execPageSize ∧ x.fixed = true

theorem sheet_newBuffer : Sheet (some newBuffer) := ⟨_, rfl, rfl, rfl⟩

theorem clear_eq {x : Buffer} (hc : x.capacity = execPageSize) (hf : x.fixed = true) :
    x.clear = newBuffer := by
  obtain ⟨_, _, _⟩ := x
  subst hc hf
  rfl

theorem eq_newBuffer {x : Buffer} (hc : x.capacity = execPageSize) (hf : x.fixed = true)
    (he : x.empty = true) : x = newBuffer := by
  rw [← clear_eq hc hf, Buffer.clear, ← Buffer.bytes_of_empty he]

theorem Sheet.append {x : Buffer} (h : Sheet (some x)) (str : Bytes) :
    Sheet (some (x.append str).2) := by
  obtain ⟨y, hy, hc, hf⟩ := h
  cases hy
  refine ⟨_, rfl, ?_, ?_⟩ <;>
  · unfold Buffer.append
    rw [if_pos hf]
    split <;> assumption

/-- No buffer, or an empty one. -/
def Blank (b : Option Buffer) : Prop := b = none ∨ b = some newBuffer

/-- The buffers that the callers work on: there is a current one, and a next one or a full one. -/
structure Stocked (currBuff nextBuff : Option Buffer) (buffers : List (Option Buffer)) : Prop where
  curr : Sheet currBuff
  next : Blank nextBuff
  full : nextBuff = none → buffers ≠ []
  buffers : ∀ b ∈ buffers, Sheet b

/-- There is nothing in the buffers that are left. -/
structure Drained (currBuff nextBuff : Option Buffer) (buffers : List (Option Buffer)) : Prop where
  curr : Blank currBuff
  next : Blank nextBuff
  buffers : buffers = []

variable {T : Type} (s : Appender T)

/-- The buffers are `Stocked`. -/
def IsStocked : Prop := Stocked s.currBuff s.nextBuff s.buffers

/-- The buffers are `Drained`. -/
def IsDrained : Prop := Drained s.currBuff s.nextBuff s.buffers

/-! ## Consumers -/

/-- What a consumer has taken in the loop and gives back behind `write`. -/
structure Carries (x : Consumer) : Prop where
  newBuff1 : x.newBuff1 = none
  newBuff2 : (x.newBuff2 = some newBuffer ∧ 1 ≤ x.buffsToWrite.length) ∨
    (x.newBuff2 = none ∧ 2 ≤ x.buffsToWrite.length)
  sheets : ∀ b ∈ x.buffsToWrite, Sheet b

/-- The consumer has its two spare buffers, and nothing to write. -/
structure Spare (x : Consumer) : Prop where
  newBuff1 : x.newBuff1 = some newBuffer
  newBuff2 : x.newBuff2 = some newBuffer
  buffsToWrite : x.buffsToWrite = []

theorem Spare.setPc {x : Consumer} (h : Spare x) (pc : ConsumerPc) : Spare { x with pc := pc } :=
  ⟨h.newBuff1, h.newBuff2, h.buffsToWrite⟩

theorem Carries.setPc {x : Consumer} (h : Carries x) (pc : ConsumerPc) :
    Carries { x with pc := pc } :=
  ⟨h.newBuff1, h.newBuff2, h.sheets⟩

/-- The buffers of a consumer in the loop. -/
def Turning (x : Consumer) : Prop :=
  match x.pc with
  | .entry | .head | .lock | .waiting => Spare x
  | .writing rest false => Carries x ∧ ∀ b ∈ rest, Sheet b
  | .refill => Carries x
  | _ => False

/-- A consumer that was told to stop: it ends its round of the loop, drains, and is finished. -/
def Ending (x : Consumer) : Prop :=
  match x.pc with
  | .drain => x.buffsToWrite = [] ∧ s.IsStocked
  | .writing rest true => s.IsDrained ∧ ∀ b ∈ rest, Sheet b
  | .finished => s.IsDrained
  | _ => x.pc ≠ .entry ∧ Turning x ∧ s.IsStocked

/-- All consumers apart from `c` are finished. -/
def OthersFinished (c : Nat) : Prop :=
  ∀ c' x, c' ≠ c → s.consumer c' = some x → x.pc = .finished

def AllFinished : Prop := ∀ c x, s.consumer c = some x → x.pc = .finished

/-! ## Phases -/

/-- What is going on with the consumer. -/
inductive Phase (T : Type)
  | quiet
  | starting (k : T)
  | on (c : Nat)
  | stopping (k : T) (c : Nat)

/-- The call that is busy in a phase. -/
def Phase.owner : Phase T → Option T
  | .starting k | .stopping k _ => some k
  | _ => none

/-- The call of `k` is starting a consumer that is not there yet. -/
def Starting (k : T) : Prop :=
  (∃ str, s.call k = .startMake str) ∨
    ∃ str t, s.call k = .startThread str ∧ s.thread = some t ∧ t.started = false ∧
      t.id < s.nextThread ∧ s.consumer t.id = none

/-- The call of `k` is stopping the consumer `c`. -/
def Stopping (k : T) (c : Nat) : Prop :=
  (∃ dtor, s.call k = .stopMove dtor ∧ s.thread = some ⟨c, true⟩) ∨
    ∃ dtor, s.call k = .stopJoin (some ⟨c, true⟩) dtor

/-- The state is in the phase. -/
def Phase.Holds : Phase T → Prop
  | .quiet => s.running = false ∧ AllFinished s ∧ s.IsDrained
  | .starting k => s.running = true ∧ AllFinished s ∧ s.IsStocked ∧ Starting s k
  | .on c => s.running = true ∧ s.thread = some ⟨c, true⟩ ∧ OthersFinished s c ∧ s.IsStocked ∧
      ∃ x, s.consumer c = some x ∧ Turning x
  | .stopping k c => s.running = false ∧ Stopping s k c ∧ OthersFinished s c ∧
      ∃ x, s.consumer c = some x ∧ Ending s x

/-! ## The invariant -/

/-- What a place of a call says about `running_`, and about the destructor. -/
structure CallOk (running destroyed : Bool) (pc : CallPc) : Prop where
  destroyed : pc.inDestructor = true → destroyed = true
  expects : pc.expects running

/-- The calls of a state, apart from what its phase says about them. -/
structure Calls (s : Appender T) : Prop where
  ok : ∀ k, CallOk s.running s.destroyed (s.call k)
  alone : ∀ k, (s.call k).inDestructor = true → ∀ j, j ≠ k → s.call j = .idle

/-- The invariant of an appender whose calls are `Orderly`. -/
structure Inv : Prop where
  fault : s.fault = none
  fresh : ∀ c, s.nextThread ≤ c → s.consumer c = none
  calls : Calls s
  phase : ∃ ph : Phase T, ph.Holds s ∧ ∀ k, (s.call k).busy = true → ph.owner = some k

/--
`running_` is set by one call at a time, when both buffers are there; it is cleared when no other
call is in progress and the consumer is behind its first assertion; and the appender is
destroyed when no call is in progress.
-/
def Orderly : Act T → Prop
  | .call k _ _ =>
    match s.call k with
    | .startStore _ => s.running = false ∧ (∀ j, (s.call j).busy = false) ∧
        s.currBuff.isSome = true ∧ s.nextBuff.isSome = true
    | .stopStore _ => (∀ j, j ≠ k → s.call j = .idle) ∧
        ∀ c, c < s.nextThread → (s.consumer c).map (·.pc) ≠ some .entry
    | _ => True
  | .destroy _ => ∀ j, s.call j = .idle
  | _ => True

instance [Fintype T] [DecidableEq T] (a : Act T) : Decidable (Orderly s a) :=
  match a with
  | .call k _ _ => by
    unfold Orderly
    dsimp only
    exact match s.call k with
      | .startStore _ | .stopStore _ => inferInstance
      | .idle | .startCheck _ | .startMake _ | .startThread _ | .logLock _ | .stopCheck _ | .stopMove _
      | .stopJoin _ _ | .destroy | .destroying _ => .isTrue trivial
  | .destroy _ => inferInstanceAs (Decidable (∀ _, _))
  | .log _ _ _ | .start _ | .stop _ | .consume _ _ _ => .isTrue trivial

/-! ## Calls that only move on -/

variable {s} {k : T} {pc : CallPc}

theorem CallOk.of_idle (r d : Bool) : CallOk r d .idle := ⟨fun h => (by cases h), trivial⟩

/-- A call outside of the destructor does not mind that `running_` is set. -/
theorem CallOk.up {r d : Bool} (h : CallOk r d pc) (hd : pc.inDestructor = false) :
    CallOk true d pc := by
  refine ⟨h.destroyed, ?_⟩
  cases pc <;> trivial

/-- While a call is in progress, no other one is the destructor. -/
theorem Calls.not_inDestructor (h : Calls s) (hk : s.call k ≠ .idle) {j : T} (hj : j ≠ k) :
    (s.call j).inDestructor = false := by
  rw [Bool.eq_false_iff]
  exact fun hd => hk (h.alone j hd k hj.symm)

/-- The owner of a phase is busy. -/
theorem Phase.Holds.busy {ph : Phase T} (h : ph.Holds s) (hk : ph.owner = some k) :
    (s.call k).busy = true := by
  cases ph with
  | quiet => cases hk
  | «on» c => cases hk
  | starting j =>
    cases hk
    rcases h.2.2.2 with ⟨str, hs⟩ | ⟨str, t, hs, -⟩ <;>
    · rw [hs]
      rfl
  | stopping j c =>
    cases hk
    rcases h.2.1 with ⟨dtor, hs, -⟩ | ⟨dtor, hs⟩ <;>
    · rw [hs]
      rfl

variable [DecidableEq T]

@[simp] theorem call_setCall_self : (s.setCall k pc).call k = pc := Function.update_self ..

theorem call_setCall_of_ne {j : T} (h : j ≠ k) : (s.setCall k pc).call j = s.call j :=
  Function.update_of_ne h ..

theorem Phase.Holds.setCall {ph : Phase T} (h : ph.Holds s)
    (hk : ph.owner ≠ some k) : ph.Holds (s.setCall k pc) := by
  cases ph with
  | quiet => exact h
  | «on» c => exact h
  | starting j =>
    have hj : (s.setCall k pc).call j = s.call j :=
      call_setCall_of_ne fun e => hk (congrArg some e)
    obtain ⟨hr, hf, hst, hs⟩ := h
    refine ⟨hr, hf, hst, ?_⟩
    unfold Starting at hs ⊢
    rwa [hj]
  | stopping j c =>
    have hj : (s.setCall k pc).call j = s.call j :=
      call_setCall_of_ne fun e => hk (congrArg some e)
    obtain ⟨hr, hs, ho, hx⟩ := h
    refine ⟨hr, ?_, ho, hx⟩
    unfold Stopping at hs ⊢
    rwa [hj]

/-- One call moves on to `pc`. -/
theorem Calls.update {s' : Appender T} (h : Calls s) (hcall : s'.call = Function.update s.call k pc)
    (hok : CallOk s'.running s'.destroyed pc)
    (hothers : ∀ j, j ≠ k → CallOk s'.running s'.destroyed (s.call j))
    (halone : pc.inDestructor = true → ∀ j, j ≠ k → s.call j = .idle)
    (hidle : ∀ j, j ≠ k → (s.call j).inDestructor = true → pc = .idle) : Calls s' := by
  have happly : ∀ j, s'.call j = if j = k then pc else s.call j := fun j => by
    rw [hcall, Function.update_apply]
  constructor
  · intro j
    rw [happly]
    split
    · exact hok
    · next e => exact hothers j e
  · intro j hj i hi
    rw [happly] at hj ⊢
    split at hj
    · next e =>
      subst e
      rw [if_neg hi]
      exact halone hj i hi
    · next e =>
      split
      · exact hidle j e hj
      · exact h.alone j hj i hi

/-- A call that is not busy moves on to a place where it is not busy either. -/
theorem Inv.setCall (h : Inv s) (hb : (s.call k).busy = false) (hpc : pc.busy = false)
    (hcalls : Calls (s.setCall k pc)) : Inv (s.setCall k pc) := by
  refine ⟨h.fault, h.fresh, hcalls, ?_⟩
  obtain ⟨ph, hph, hbusy⟩ := h.phase
  have howner : ph.owner ≠ some k := by
    intro ho
    rw [hph.busy ho] at hb
    cases hb
  refine ⟨ph, hph.setCall howner, fun j hj => ?_⟩
  by_cases e : j = k
  · subst e
    rw [call_setCall_self, hpc] at hj
    cases hj
  · rw [call_setCall_of_ne e] at hj
    exact hbusy j hj

/-- A call in progress moves on. -/
theorem Inv.moveOn (h : Inv s) (hk : s.call k ≠ .idle) (hb : (s.call k).busy = false)
    (hpc : pc.busy = false) (hok : CallOk s.running s.destroyed pc)
    (hd : pc.inDestructor = true → (s.call k).inDestructor = true) : Inv (s.setCall k pc) := by
  refine h.setCall hb hpc (h.calls.update rfl hok (fun j _ => h.calls.ok j) ?_ ?_)
  · exact fun hpc j hj => h.calls.alone k (hd hpc) j hj
  · intro j hj hdes
    rw [h.calls.not_inDestructor hk hj] at hdes
    cases hdes

/-- A call begins. -/
theorem Inv.begin {s' : Appender T} (h : Inv s) (hs : s.begin k pc = some s') (hpc : pc.busy = false)
    (hok : CallOk s.running s.destroyed pc) (hd : pc.inDestructor = false) : Inv s' := by
  unfold Appender.begin at hs
  split at hs
  · next hk =>
    split at hs
    · cases hs
    · next hdes =>
      cases hs
      refine h.setCall (by rw [hk]; rfl) hpc
        (h.calls.update rfl hok (fun j _ => h.calls.ok j) ?_ fun j _ hj => ?_)
      · intro hd'
        rw [hd] at hd'
        cases hd'
      · exact absurd ((h.calls.ok j).destroyed hj) hdes
  · cases hs

/-- The destructor begins when no call is in progress. -/
theorem Inv.beginDestructor (h : Inv s) (hidle : ∀ j, s.call j = .idle) :
    Inv { s.setCall k (.stopCheck true) with destroyed := true } := by
  have hcalls : Calls { s.setCall k (.stopCheck true) with destroyed := true } := by
    refine h.calls.update rfl ⟨fun _ => rfl, trivial⟩ (fun j _ => ?_) (fun _ j _ => hidle j) ?_
    · rw [hidle]
      exact .of_idle _ _
    · intro j _ hj
      rw [hidle] at hj
      cases hj
  refine ⟨h.fault, h.fresh, hcalls, ?_⟩
  obtain ⟨ph, hph, -⟩ := h.phase
  have howner : ph.owner = none := by
    cases ho : ph.owner with
    | none => rfl
    | some j =>
      have := hph.busy ho
      rw [hidle] at this
      cases this
  refine ⟨ph, hph.setCall (by rw [howner]; simp), fun j hj => ?_⟩
  by_cases e : j = k
  · subst e
    rw [show ({ s.setCall j (.stopCheck true) with destroyed := true } : Appender T).call j =
      .stopCheck true from call_setCall_self] at hj
    cases hj
  · rw [show ({ s.setCall k (.stopCheck true) with destroyed := true } : Appender T).call j =
      s.call j from call_setCall_of_ne e, hidle] at hj
    cases hj

end Appender

end Nemo.Log
