import Nemo.Log.AppenderSafety

/-!
# One call after another

The runs in which a call of a `FileLogAppender` begins when the one before it has returned. Such a run
can still fail: the end of `consumeFunc` takes the buffers in which there is something, and a
`start` after it does not make new ones.
-/

namespace Nemo.Log.Appender

open Http Infra

variable {T : Type} {s s' : Appender T} {k : T}

/-- A call begins when no call is in progress, and nobody destroys the appender. -/
def OneAtATime (s : Appender T) : Act T → Prop
  | .log _ _ _ | .start _ | .stop _ => ∀ j, s.call j = .idle
  | .destroy _ => False
  | _ => True

/--
`start` finds both buffers where it sets `running_`, and where `stop` clears it, no consumer is before its
first assertion.
-/
def BuffersReady (s : Appender T) : Act T → Prop
  | .call k _ _ =>
    match s.call k with
    | .startStore _ => s.currBuff.isSome = true ∧ s.nextBuff.isSome = true
    | .stopStore _ => ∀ c, c < s.nextThread → (s.consumer c).map (·.pc) ≠ some .entry
    | _ => True
  | _ => True

instance [Fintype T] (a : Act T) : Decidable (OneAtATime s a) :=
  match a with
  | .log _ _ _ | .start _ | .stop _ => inferInstanceAs (Decidable (∀ _, _))
  | .destroy _ => .isFalse id
  | .call _ _ _ | .consume _ _ _ => .isTrue trivial

instance (a : Act T) : Decidable (BuffersReady s a) :=
  match a with
  | .call k _ _ => by
    unfold BuffersReady
    dsimp only
    exact match s.call k with
      | .startStore _ | .stopStore _ => inferInstance
      | .idle | .startCheck _ | .startMake _ | .startThread _ | .logLock _ | .stopCheck _ | .stopMove _
      | .stopJoin _ _ | .destroy | .destroying _ => .isTrue trivial
  | .log _ _ _ | .start _ | .stop _ | .destroy _ | .consume _ _ _ => .isTrue trivial

/-- There is one call at a time, and before it sets `running_`, that is not set. -/
structure Single (s : Appender T) : Prop where
  one : ∀ j k, s.call j ≠ .idle → s.call k ≠ .idle → j = k
  starting : ∀ k str, s.call k = .startStore str → s.running = false

theorem Single.others_idle (h : Single s) (hk : s.call k ≠ .idle) {j : T} (hj : j ≠ k) :
    s.call j = .idle := by
  by_contra e
  exact hj (h.one j k e hk)

variable [DecidableEq T]

/-- One call moves on, or begins, while all others are idle. -/
theorem Single.update {pc : CallPc} (hothers : ∀ j, j ≠ k → s.call j = .idle)
    (hcall : s'.call = Function.update s.call k pc)
    (hstart : ∀ str, pc = .startStore str → s'.running = false) : Single s' := by
  have hidle : ∀ j, j ≠ k → s'.call j = .idle := fun j hj => by
    rw [hcall, Function.update_of_ne hj, hothers j hj]
  have hk : ∀ j, s'.call j ≠ .idle → j = k := fun j hj => by
    by_contra e
    exact hj (hidle j e)
  constructor
  · intro i j hi hj
    rw [hk i hi, hk j hj]
  · intro j str hj
    obtain rfl := hk j (by rw [hj]; exact fun e => by cases e)
    rw [hcall, Function.update_self] at hj
    exact hstart str hj

/-- A step of a call moves that call, and `running_` is not set where it is about to be. -/
theorem call_stepCall {cfg : Config} {now rollNow : Nat}
    (hs : s.stepCall cfg k now rollNow = some s') :
    s.call k ≠ .idle ∧ ∃ pc, s'.call = Function.update s.call k pc ∧
      ∀ str, pc = .startStore str → s'.running = false := by
  unfold stepCall at hs
  have hfail : ∀ e, (s.fail e).call = Function.update s.call k (s.call k) := fun e =>
    (Function.update_eq_self k s.call).symm
  cases hk : s.call k with
  | idle =>
    rw [hk] at hs
    cases hs
  | startCheck str =>
    rw [hk] at hs
    cases hs
    refine ⟨fun e => (by cases e), _, rfl, fun str' h => ?_⟩
    show s.running = false
    cases hr : s.running with
    | false => rfl
    | true =>
      rw [hr, if_pos rfl] at h
      cases str <;> cases h
  | startStore str | startMake str | stopMove dtor =>
    rw [hk] at hs
    cases hs
    exact ⟨fun e => (by cases e), _, rfl, fun str h => by cases h⟩
  | stopStore dtor =>
    rw [hk] at hs
    cases hs
    exact ⟨fun e => (by cases e), _, rfl, fun str h => by cases h⟩
  | startThread str =>
    rw [hk] at hs
    refine ⟨fun e => (by cases e), ?_⟩
    have hstarted : ∀ str', CallPc.started str ≠ .startStore str' := fun str' h => by
      cases str <;> cases h
    cases ht : s.thread with
    | none =>
      rw [ht] at hs
      cases hs
      exact ⟨_, hfail _, fun str' h => by rw [hk] at h; cases h⟩
    | some t =>
      rw [ht] at hs
      dsimp only at hs
      split at hs
      · cases hs
        exact ⟨_, hfail _, fun str' h => by rw [hk] at h; cases h⟩
      · cases hs
        exact ⟨_, rfl, fun str' h => absurd h (hstarted str')⟩
  | logLock str =>
    rw [hk] at hs
    cases hs
    refine ⟨fun e => (by cases e), .idle, ?_, fun str h => by cases h⟩
    have happend : (s.append str).call = s.call := by
      unfold append
      split
      · rfl
      · split
        · rfl
        · dsimp only
          split <;> rfl
    show Function.update (s.append str).call k .idle = _
    rw [happend]
  | stopCheck dtor =>
    rw [hk] at hs
    cases hs
    refine ⟨fun e => (by cases e), _, rfl, fun str h => ?_⟩
    split at h
    · cases h
    · cases dtor <;> cases h
  | stopJoin thread dtor =>
    rw [hk] at hs
    refine ⟨fun e => (by cases e), ?_⟩
    have hstopped : ∀ str', CallPc.stopped dtor ≠ .startStore str' := fun str' h => by
      cases dtor <;> cases h
    cases thread with
    | none =>
      cases hs
      exact ⟨_, rfl, fun str h => absurd h (hstopped str)⟩
    | some t =>
      dsimp only at hs
      split at hs
      · split at hs
        · split at hs
          · cases hs
            exact ⟨_, rfl, fun str h => absurd h (hstopped str)⟩
          · cases hs
        · cases hs
      · cases hs
        exact ⟨_, hfail _, fun str' h => by rw [hk] at h; cases h⟩
  | destroy =>
    rw [hk] at hs
    cases hs
    exact ⟨fun e => (by cases e), _, rfl, fun str h => by cases h⟩
  | destroying rest =>
    rw [hk] at hs
    refine ⟨fun e => (by cases e), ?_⟩
    match rest with
    | [] =>
      cases hs
      exact ⟨_, rfl, fun str h => by cases h⟩
    | none :: _ =>
      cases hs
      exact ⟨_, hfail _, fun str' h => by rw [hk] at h; cases h⟩
    | some b :: rest =>
      cases hs
      exact ⟨_, rfl, fun str h => by cases h⟩

omit [DecidableEq T] in
/-- A step of a consumer leaves the calls and `running_` as they are. -/
theorem call_stepConsumer {cfg : Config} {c now rollNow : Nat} {x : Consumer}
    (hs : s.stepConsumer cfg c x now rollNow = some s') :
    s'.call = s.call ∧ s'.running = s.running := by
  have hswap : (s.swap c x).call = s.call ∧ (s.swap c x).running = s.running := by
    unfold swap
    dsimp only
    split <;> exact ⟨rfl, rfl⟩
  obtain ⟨pc, newBuff1, newBuff2, buffsToWrite⟩ := x
  unfold stepConsumer at hs
  cases pc with
  | entry =>
    cases hs
    split <;> exact ⟨rfl, rfl⟩
  | head =>
    dsimp only at hs
    split at hs
    · split at hs <;>
      · cases hs
        exact ⟨rfl, rfl⟩
    · cases hs
      exact ⟨rfl, rfl⟩
  | lock =>
    dsimp only at hs
    split at hs <;> cases hs
    · exact ⟨rfl, rfl⟩
    · exact hswap
  | waiting =>
    cases hs
    exact hswap
  | writing rest final =>
    match rest with
    | [] | none :: _ | some _ :: _ =>
      cases hs
      exact ⟨rfl, rfl⟩
  | refill =>
    cases hs
    unfold refill
    split
    · exact ⟨rfl, rfl⟩
    · split <;> exact ⟨rfl, rfl⟩
  | drain =>
    cases hs
    exact ⟨rfl, rfl⟩
  | finished => cases hs

theorem Single.begin {pc : CallPc} (hidle : ∀ j, s.call j = .idle) (hs : s.begin k pc = some s')
    (hpc : ∀ str, pc ≠ .startStore str) : Single s' := by
  rw [Appender.begin, hidle k] at hs
  dsimp only at hs
  split at hs
  · cases hs
  · cases hs
    exact .update (fun j _ => hidle j) rfl fun str h => absurd h (hpc str)

/-- A step keeps one call at a time. -/
theorem Single.step {cfg : Config} {a : Act T} (h : Single s) (ha : OneAtATime s a)
    (hs : s.step cfg a = some s') : Single s' := by
  unfold Appender.step at hs
  split at hs
  · cases hs
  · cases a with
    | log k level str =>
      refine .begin ha hs fun str' e => ?_
      split at e
      · split at e <;> cases e
      · cases e
    | start k => exact .begin ha hs fun str e => by cases e
    | stop k => exact .begin ha hs fun str e => by cases e
    | destroy k => exact ha.elim
    | call k now rollNow =>
      obtain ⟨hk, pc, hcall, hstart⟩ := call_stepCall hs
      exact .update (fun j hj => h.others_idle hk hj) hcall hstart
    | consume c now rollNow =>
      dsimp only at hs
      split at hs
      · cases hs
      · obtain ⟨hcall, hr⟩ := call_stepConsumer hs
        exact ⟨hcall ▸ h.one, hr ▸ hcall ▸ h.starting⟩

/-- With one call at a time, the buffers are what an orderly step depends on. -/
theorem Single.orderly {a : Act T} (h : Single s) (ha : OneAtATime s a) (hr : BuffersReady s a) :
    Orderly s a := by
  cases a with
  | log | start | stop | consume => trivial
  | destroy k => exact ha.elim
  | call k now rollNow =>
    unfold Orderly
    unfold BuffersReady at hr
    dsimp only at hr ⊢
    cases hk : s.call k with
    | startStore str =>
      rw [hk] at hr
      refine ⟨h.starting k str hk, fun j => ?_, hr⟩
      by_cases e : j = k
      · rw [e, hk]
        rfl
      · rw [h.others_idle (by rw [hk]; exact fun e => by cases e) e]
        rfl
    | stopStore dtor =>
      rw [hk] at hr
      exact ⟨fun j hj => h.others_idle (by rw [hk]; exact fun e => by cases e) hj, hr⟩
    | _ => trivial

/--
**One call after another works on buffers that are there**, in a run in which `start` finds both of
them and `stop` does not overtake the consumer that it stops.
-/
theorem fault_eq_none_of_buffersReady {cfg : Config} {now : Nat}
    (h : (fileLogAppender T cfg now).ReachableBy (fun s a => OneAtATime s a ∧ BuffersReady s a) s) :
    s.fault = none := by
  have hsingle : ∀ s, (fileLogAppender T cfg now).ReachableBy
      (fun s a => OneAtATime s a ∧ BuffersReady s a) s → Single s := fun s h =>
    h.invariant ⟨fun j k hj => absurd rfl hj, fun k str h => by cases h⟩
      fun _ _ _ hs ha hstep => hs.step ha.1 hstep
  have hinv : Inv s := h.invariant_of hsingle (inv_init cfg now)
    fun _ _ _ hs hi ha hstep => hi.step (hs.orderly ha.1 ha.2) hstep
  exact hinv.fault

/-- `log`, `stop` and `log`. The consumer ends when it has seen one message, which is in `currBuff_`. -/
def logStopLog : List (Act Unit) :=
  [.log () .debug [97]] ++ .replicate 5 (.call () 1 1) ++ [.consume 0 1 1, .stop ()] ++
    .replicate 3 (.call () 1 1) ++ .replicate 4 (.consume 0 1 1) ++ [.call () 1 1] ++
    [.log () .debug [98]] ++ .replicate 5 (.call () 1 1)

/-- `log` after `stop` follows a null pointer. -/
theorem fault_ne_none : ¬ ∀ s, (fileLogAppender Unit {} 1).ReachableBy OneAtATime s →
    s.fault = none := by
  intro h
  have hrun : ((fileLogAppender Unit {} 1).runBy OneAtATime (fileLogAppender Unit {} 1).init
      logStopLog).map Appender.fault = some (some .nullCurrBuff) := by
    decide +kernel
  obtain ⟨s, hs, hf⟩ := Option.map_eq_some_iff.mp hrun
  rw [h s (.of_runBy .init hs)] at hf
  cases hf

/-- One message is written, and the appender stopped and started again when nothing is left in its buffers. -/
def logStopStart : List (Act Unit) :=
  [.log () .debug [97]] ++ .replicate 5 (.call () 1 1) ++ .replicate 7 (.consume 0 1 1) ++ [.stop ()] ++
    .replicate 3 (.call () 1 1) ++ .replicate 3 (.consume 0 1 1) ++ [.call () 1 1] ++
    [.log () .debug [98]] ++ .replicate 5 (.call () 1 1)

theorem fault_eq_none_logStopStart : ∃ s, (fileLogAppender Unit {} 1).runBy
      (fun s a => OneAtATime s a ∧ BuffersReady s a) (fileLogAppender Unit {} 1).init logStopStart =
        some s ∧ s.files.contents = [97] ∧ s.fault = none := by
  have hrun : ((fileLogAppender Unit {} 1).runBy (fun s a => OneAtATime s a ∧ BuffersReady s a)
      (fileLogAppender Unit {} 1).init logStopStart).map (·.files.contents) = some [97] := by
    decide +kernel
  obtain ⟨s, hs, hf⟩ := Option.map_eq_some_iff.mp hrun
  exact ⟨s, hs, hf, fault_eq_none_of_buffersReady (.of_runBy .init hs)⟩

end Nemo.Log.Appender
