import Nemo.Net.NonBlocking
import Nemo.Net.SocketStream

/-!
# The timeouts of sockets

`setsockopt` with `SO_RCVTIMEO` or `SO_SNDTIMEO` keeps the time in the context of the descriptor, in microseconds and
as an `int`; `DoIo` polls with it in milliseconds. The kernel has one pair of times for a socket, and there is a
context for every descriptor.

* `pollTimeout_iff` — one descriptor: the timeout of the poll is exact if the time is below `2 ^ 31` microseconds
* `exact_of_settling` — runs: it is exact for all duplicates if, besides, no duplicate with a context of its own is
  left behind
-/

namespace Nemo.Net

open Function (update)

/-! ## Times -/

/-- `struct timeval` with a time that is not negative. `tv_sec` is a `long`. -/
structure Timeval where
  sec : Nat
  usec : Nat
  sec_lt : sec < 2 ^ 63
  usec_lt : usec < 1000000

/-- The time in microseconds. -/
def Timeval.total (tv : Timeval) : Nat := tv.sec * 1000000 + tv.usec

def Timeval.zero : Timeval := ⟨0, 0, by decide, by decide⟩

/-- The timeout of a poll, in milliseconds, for a time in microseconds: none, and never less than a millisecond. -/
def exactTimeout (microseconds : Int) : Int :=
  if microseconds = 0 then -1 else if microseconds < 1000 then 1 else microseconds / 1000

/-! ## The functions -/

/-- `SO_RCVTIMEO` and `SO_SNDTIMEO` -/
inductive TimeoutType
  | recv | send
  deriving DecidableEq

/--
What the hook of `setsockopt` makes of a time: it is computed as a `long`, which must not overflow, and kept as an
`int`.
-/
def microsecondsOf (tv : Timeval) : Option Int :=
  if tv.total < 2 ^ 63 then some (toInt32 tv.total) else none

namespace FdContext

def getSocketTimeoutMicroSeconds (c : FdContext) : TimeoutType → Int
  | .recv => c.recvTimeout
  | .send => c.sendTimeout

def onSetSocketTimeout (c : FdContext) (timeoutType : TimeoutType) (microseconds : Int) : FdContext :=
  match timeoutType with
  | .recv => { c with recvTimeout := microseconds }
  | .send => { c with sendTimeout := microseconds }

/-- The timeout with which `DoIo` polls. A `long` is read as an `int`. -/
def pollTimeout (c : FdContext) (timeout : TimeoutType) : Int :=
  let socketTimeout := toInt32 (c.getSocketTimeoutMicroSeconds timeout)
  if socketTimeout = 0 then -1 else if socketTimeout < 1000 then 1 else socketTimeout.tdiv 1000

end FdContext

/-- `DoIo` of a function with this timeout: how long it polls, if it does. -/
def World.doIo (w : World) (fd : Nat) (timeout : TimeoutType) : Option Int :=
  if w.suspends fd then (w.manager fd).map (·.pollTimeout timeout) else none

/-! ## The system -/

/-- The descriptors, and for every open file the times that were last stored through a descriptor with a context. -/
structure Timed where
  world : World := {}
  stored : FileId → TimeoutType → Timeval := fun _ _ => .zero

inductive TimedCall
  | call (a : World.Call)
  | setsockopt (fd : Nat) (optname : TimeoutType) (tv : Timeval) (ok : Bool)

namespace Timed

def step (s : Timed) : TimedCall → Option Timed
  | .call a => (s.world.step a).map fun w => { s with world := w }
  | .setsockopt _ _ _ false => some s
  | .setsockopt fd optname tv true =>
    match s.world.kernel.table fd, s.world.manager fd with
    | none, _ => none
    | some _, none => some s
    | some f, some c =>
      (microsecondsOf tv).map fun microseconds =>
        { world := { s.world with
            manager := update s.world.manager fd (some (c.onSetSocketTimeout optname microseconds)) }
          stored := update s.stored f (update (s.stored f) optname tv) }

end Timed

/-- A process without descriptors, its calls, and `setsockopt`. -/
def timedDescriptors : Infra.Lts Timed TimedCall where
  init := {}
  step := Timed.step

namespace Timed

/-- `DoIo` polls for the time that is stored in the socket, whatever the descriptor. -/
def Exact (s : Timed) : Prop :=
  ∀ fd timeout poll, s.world.doIo fd timeout = some poll →
    ∃ f, s.world.kernel.table fd = some f ∧ poll = exactTimeout (s.stored f timeout).total

/-- In milliseconds, the context has the times that are stored in the socket `f`. -/
def SameTimes (stored : FileId → TimeoutType → Timeval) (f : FileId) (c : FdContext) : Prop :=
  ∀ timeout, exactTimeout (c.getSocketTimeoutMicroSeconds timeout) = exactTimeout (stored f timeout).total

/--
The calls that keep the timeouts exact. `dup2` and `dup3` find no context with other times; and what is stored is
below `2 ^ 31` microseconds, and no other context of the socket has another time.
-/
def Settling (s : Timed) : TimedCall → Prop
  | .call (.dup2 oldfd newfd true) | .call (.dup3 oldfd newfd true) =>
    oldfd = newfd ∨ ∀ f c, s.world.kernel.table oldfd = some f → s.world.manager newfd = some c →
      SameTimes s.stored f c
  | .setsockopt fd optname tv true =>
    (s.world.manager fd).isSome = true → tv.total < 2 ^ 31 ∧
      ∀ fd' c, fd' ≠ fd → s.world.kernel.table fd' = s.world.kernel.table fd → s.world.manager fd' = some c →
        exactTimeout (c.getSocketTimeoutMicroSeconds optname) = exactTimeout tv.total
  | _ => True

/-! ## One descriptor -/

theorem exactTimeout_eq_pollTimeout {c : FdContext} {timeout : TimeoutType}
    (hlow : 0 ≤ c.getSocketTimeoutMicroSeconds timeout) (hhigh : c.getSocketTimeoutMicroSeconds timeout < 2 ^ 31) :
    c.pollTimeout timeout = exactTimeout (c.getSocketTimeoutMicroSeconds timeout) := by
  have hint : toInt32 (c.getSocketTimeoutMicroSeconds timeout) = c.getSocketTimeoutMicroSeconds timeout :=
    Int.bmod_eq_of_le (by omega) (by omega)
  unfold FdContext.pollTimeout exactTimeout
  dsimp only
  rw [hint, Int.tdiv_eq_ediv_of_nonneg hlow]

theorem getSocketTimeout_onSet (c : FdContext) (optname timeout : TimeoutType) (microseconds : Int) :
    (c.onSetSocketTimeout optname microseconds).getSocketTimeoutMicroSeconds timeout =
      if timeout = optname then microseconds else c.getSocketTimeoutMicroSeconds timeout := by
  cases optname <;> cases timeout <;> rfl

/-- What is kept of a time that has more than 31 bits is negative, or far too short. -/
theorem toInt32_of_ge {n : Nat} (h : 2 ^ 31 ≤ n) : toInt32 n < 2 ^ 31 ∧ (0 ≤ toInt32 n → toInt32 n < n - 2000) := by
  have hlow := Int.emod_nonneg n (show (4294967296 : Int) ≠ 0 by decide)
  have hdef : toInt32 n = _ := Int.bmod_def n 4294967296
  rw [hdef]
  split <;> omega

/-- **One descriptor is exact** for the times below `2 ^ 31` microseconds, and for no other one. -/
theorem pollTimeout_iff (c : FdContext) (optname : TimeoutType) (tv : Timeval) :
    (∃ microseconds, microsecondsOf tv = some microseconds ∧
      (c.onSetSocketTimeout optname microseconds).pollTimeout optname = exactTimeout tv.total) ↔
      tv.total < 2 ^ 31 := by
  constructor
  · rintro ⟨microseconds, hstored, hpoll⟩
    unfold microsecondsOf at hstored
    split at hstored
    · obtain rfl := Option.some.inj hstored
      unfold FdContext.pollTimeout exactTimeout at hpoll
      rw [getSocketTimeout_onSet, if_pos rfl] at hpoll
      have htwice : toInt32 (toInt32 tv.total) = toInt32 tv.total := by
        unfold toInt32
        rw [Int.bmod_bmod]
      rw [htwice] at hpoll
      by_contra hge
      have hkept := toInt32_of_ge (Nat.not_lt.mp hge)
      generalize toInt32 tv.total = kept at hpoll hkept
      dsimp only at hpoll
      split at hpoll
      · omega
      · split at hpoll
        · omega
        · rw [Int.tdiv_eq_ediv_of_nonneg (by omega)] at hpoll
          omega
    · cases hstored
  · intro hlt
    refine ⟨toInt32 tv.total, if_pos (by omega), ?_⟩
    have hint : toInt32 tv.total = tv.total := Int.bmod_eq_of_le (by omega) (by omega)
    rw [exactTimeout_eq_pollTimeout, getSocketTimeout_onSet, if_pos rfl, hint]
    · rw [getSocketTimeout_onSet, if_pos rfl, hint]
      omega
    · rw [getSocketTimeout_onSet, if_pos rfl, hint]
      omega

/-! ## The invariant -/

/-- The context has the times of `f`, in the range of an `int`. -/
def Fits (stored : FileId → TimeoutType → Timeval) (f : FileId) (c : FdContext) : Prop :=
  SameTimes stored f c ∧
    ∀ timeout, 0 ≤ c.getSocketTimeoutMicroSeconds timeout ∧ c.getSocketTimeoutMicroSeconds timeout < 2 ^ 31

/-- A context is about an open file, and fits it. Nothing is stored for a file that has not been made. -/
structure Fitting (stored : FileId → TimeoutType → Timeval) (w : World) : Prop where
  fits : ∀ fd c, w.manager fd = some c → ∃ f, w.kernel.table fd = some f ∧ Fits stored f c
  fresh : w.Fresh
  unset : ∀ f ≥ w.kernel.nextFile, ∀ timeout, stored f timeout = .zero

variable {stored : FileId → TimeoutType → Timeval} {w w' : World}

theorem Fits.pollTimeout {f : FileId} {c : FdContext} (h : Fits stored f c) (timeout : TimeoutType) :
    c.pollTimeout timeout = exactTimeout (stored f timeout).total := by
  obtain ⟨hlow, hhigh⟩ := h.2 timeout
  rw [exactTimeout_eq_pollTimeout hlow hhigh]
  exact h.1 timeout

theorem Fitting.exact (h : Fitting stored w) : Exact { world := w, stored := stored } := by
  intro fd timeout poll hpoll
  unfold World.doIo at hpoll
  dsimp only at hpoll
  split at hpoll
  · obtain ⟨c, hc, rfl⟩ := Option.map_eq_some_iff.mp hpoll
    obtain ⟨f, hf, hfits⟩ := h.fits fd c hc
    exact ⟨f, hf, hfits.pollTimeout timeout⟩
  · cases hpoll

theorem Fitting.manager_none (h : Fitting stored w) {fd : Nat} (hfd : w.kernel.table fd = none) :
    w.manager fd = none := by
  cases hc : w.manager fd with
  | none => rfl
  | some c =>
    obtain ⟨f, hf, -⟩ := h.fits fd c hc
    rw [hfd] at hf
    cases hf

/-! ## The calls -/

/-- A new file has no times, and neither has the context that it gets. -/
theorem Fitting.create (h : Fitting stored w) {fd : Nat} (hfree : w.kernel.table fd = none) {object : Object}
    {nonBlocking : Bool} {manager : FdManager}
    (hm : manager = w.manager ∨ ∃ c : FdContext, c.fd = fd ∧ c.sendTimeout = 0 ∧ c.recvTimeout = 0 ∧
      manager = w.manager.add c) :
    Fitting stored { w with kernel := w.kernel.create fd object nonBlocking, manager := manager } := by
  have hnone := h.manager_none hfree
  refine ⟨fun x c hc => ?_, World.Fresh.create h.fresh, fun f hf => h.unset f (Nat.le_of_succ_le hf)⟩
  have htable : (w.kernel.create fd object nonBlocking).table x =
      if x = fd then some w.kernel.nextFile else w.kernel.table x := Function.update_apply ..
  have hold : x ≠ fd → w.manager x = some c → ∃ f, (w.kernel.create fd object nonBlocking).table x = some f ∧
      Fits stored f c := by
    intro hne hc
    rw [htable, if_neg hne]
    exact h.fits x c hc
  rcases hm with rfl | ⟨c', rfl, hsend, hrecv, rfl⟩
  · refine hold ?_ hc
    rintro rfl
    rw [hnone] at hc
    cases hc
  · dsimp only at hc
    rw [World.add_of_none hnone, Function.update_apply] at hc
    split at hc
    · next e =>
      cases hc
      have hzero : ∀ timeout, c.getSocketTimeoutMicroSeconds timeout = 0 := by
        rintro (_ | _)
        · exact hrecv
        · exact hsend
      refine ⟨w.kernel.nextFile, htable.trans (if_pos e), fun timeout => ?_, fun timeout => ?_⟩
      · rw [hzero, h.unset _ (Nat.le_refl _)]
        rfl
      · rw [hzero]
        decide
    · next hne => exact hold hne hc

theorem Fitting.createPair (h : Fitting stored w) {fds : Nat × Nat} {object : Object} {nonBlocking : Bool}
    (hs : w.createPair fds object nonBlocking = some w') : Fitting stored w' := by
  unfold World.createPair at hs
  split at hs
  · next hfree =>
    cases hs
    have hsecond : (w.kernel.create fds.1 object nonBlocking).table fds.2 = none :=
      (Function.update_of_ne hfree.2.2.symm ..).trans hfree.2.1
    have h₁ : Fitting stored (w.create fds.1 object nonBlocking true) :=
      h.create hfree.1 (.inr ⟨_, rfl, rfl, rfl, rfl⟩)
    exact h₁.create hsecond (.inr ⟨_, rfl, rfl, rfl, rfl⟩)
  · cases hs

/-- A duplicate gets a clone of the context, or has one that fits. -/
theorem Fitting.duplicate (h : Fitting stored w) {oldfd newfd : Nat} (hopen : (w.kernel.table oldfd).isSome = true)
    (hnew : ∀ f c, w.kernel.table oldfd = some f → w.manager newfd = some c → SameTimes stored f c) :
    Fitting stored (w.duplicate oldfd newfd) := by
  obtain ⟨f, hf⟩ := Option.isSome_iff_exists.mp hopen
  have htable : ∀ x, (w.duplicate oldfd newfd).kernel.table x = if x = newfd then some f else w.kernel.table x :=
    fun x => by
      rw [← hf]
      exact Function.update_apply ..
  have hold : ∀ x c, w.manager x = some c → ∃ f, (w.duplicate oldfd newfd).kernel.table x = some f ∧
      Fits stored f c := by
    intro x c hc
    obtain ⟨f', hf', hfits⟩ := h.fits x c hc
    rw [htable]
    split
    · next e => exact ⟨f, rfl, hnew f c hf (e ▸ hc), hfits.2⟩
    · exact ⟨f', hf', hfits⟩
  refine ⟨fun x c hc => ?_, World.duplicate_fresh h.fresh _ _, h.unset⟩
  unfold World.duplicate at hc
  dsimp only at hc
  cases hold' : w.manager oldfd with
  | none =>
    rw [hold'] at hc
    exact hold x c hc
  | some c' =>
    rw [hold'] at hc
    dsimp only at hc
    cases hm : w.manager newfd with
    | some c'' =>
      rw [World.add_of_some (c := c'.clone newfd) hm] at hc
      exact hold x c hc
    | none =>
      rw [World.add_of_none (c := c'.clone newfd) hm, Function.update_apply] at hc
      split at hc
      · next e =>
        cases hc
        obtain ⟨f', hf', hfits⟩ := h.fits oldfd c' hold'
        obtain rfl : f = f' := Option.some.inj (hf.symm.trans hf')
        -- the clone has both times
        have hclone : ∀ timeout, (c'.clone newfd).getSocketTimeoutMicroSeconds timeout =
            c'.getSocketTimeoutMicroSeconds timeout := by rintro (_ | _) <;> rfl
        refine ⟨f, (htable x).trans (if_pos e), fun timeout => ?_, fun timeout => ?_⟩
        · rw [hclone]
          exact hfits.1 timeout
        · rw [hclone]
          exact hfits.2 timeout
      · exact hold x c hc

theorem Fitting.close (h : Fitting stored w) {fd : Nat} {ok : Bool} (hs : w.close fd ok = some w') :
    Fitting stored w' := by
  unfold World.close at hs
  split at hs
  · cases hs
  · cases hs
    have herase : ∀ x c, (if (w.manager fd).isSome then w.manager.erase fd else w.manager) x = some c →
        x ≠ fd ∧ w.manager x = some c := by
      intro x c hc
      rw [World.erase_apply] at hc
      split at hc
      · cases hc
      · next hne => exact ⟨hne, hc⟩
    have htable : ∀ x, (w.kernel.close fd).table x = if x = fd then none else w.kernel.table x := fun x =>
      Function.update_apply ..
    refine ⟨fun x c hc => ?_, fun x f hf => ?_, h.unset⟩
    · obtain ⟨hne, hc⟩ := herase x c hc
      obtain ⟨f, hf, hfits⟩ := h.fits x c hc
      exact ⟨f, ((htable x).trans (if_neg hne)).trans hf, hfits⟩
    · have hf' : (w.kernel.close fd).table x = some f := hf
      rw [htable] at hf'
      split at hf'
      · cases hf'
      · exact h.fresh x f hf'

/-- The calls that leave the table and the times of the contexts as they are. -/
structure KeepsTimes (w w' : World) : Prop where
  table : w'.kernel.table = w.kernel.table
  nextFile : w'.kernel.nextFile = w.kernel.nextFile
  manager : ∀ fd c', w'.manager fd = some c' → ∃ c, w.manager fd = some c ∧
    ∀ timeout, c'.getSocketTimeoutMicroSeconds timeout = c.getSocketTimeoutMicroSeconds timeout

theorem KeepsTimes.refl (w : World) : KeepsTimes w w := ⟨rfl, rfl, fun _ c' hc => ⟨c', hc, fun _ => rfl⟩⟩

theorem KeepsTimes.trans {w₁ w₂ w₃ : World} (h : KeepsTimes w₁ w₂) (h' : KeepsTimes w₂ w₃) : KeepsTimes w₁ w₃ := by
  refine ⟨h'.table.trans h.table, h'.nextFile.trans h.nextFile, fun fd c₃ hc₃ => ?_⟩
  obtain ⟨c₂, hc₂, heq⟩ := h'.manager fd c₃ hc₃
  obtain ⟨c₁, hc₁, heq'⟩ := h.manager fd c₂ hc₂
  exact ⟨c₁, hc₁, fun timeout => (heq timeout).trans (heq' timeout)⟩

theorem Fitting.keep (h : Fitting stored w) (hkeep : KeepsTimes w w') : Fitting stored w' := by
  refine ⟨fun fd c' hc' => ?_, ?_, ?_⟩
  · obtain ⟨c, hc, heq⟩ := hkeep.manager fd c' hc'
    obtain ⟨f, hf, hfits⟩ := h.fits fd c hc
    refine ⟨f, hkeep.table ▸ hf, fun timeout => ?_, fun timeout => ?_⟩
    · rw [heq]
      exact hfits.1 timeout
    · rw [heq]
      exact hfits.2 timeout
  · unfold World.Fresh
    rw [hkeep.table, hkeep.nextFile]
    exact h.fresh
  · rw [hkeep.nextFile]
    exact h.unset

theorem keepsTimes_onSetNonBlocking (w : World) (fd : Nat) (on : Bool) :
    KeepsTimes w (w.onSetNonBlocking fd on) := by
  refine ⟨by rw [World.onSetNonBlocking_kernel], by rw [World.onSetNonBlocking_kernel], fun x c' hc' => ?_⟩
  rw [World.onSetNonBlocking_manager] at hc'
  split at hc'
  · obtain ⟨c, hc, rfl⟩ := Option.map_eq_some_iff.mp hc'
    exact ⟨c, hc, by rintro (_ | _) <;> rfl⟩
  · exact ⟨c', hc', fun _ => rfl⟩

theorem keepsTimes_setFlag (w : World) (fd : Nat) (on ok : Bool) : KeepsTimes w (w.setFlag fd on ok) := by
  refine (keepsTimes_onSetNonBlocking w fd on).trans ?_
  unfold World.setFlag
  cases ok with
  | false => exact .refl _
  | true =>
    dsimp only
    rw [if_pos rfl]
    unfold Kernel.setNonBlocking
    split <;> exact ⟨rfl, rfl, fun _ c' hc => ⟨c', hc, fun _ => rfl⟩⟩

theorem keepsTimes_setNonBlocking (w : World) (fd : Nat) (on getOk setOk : Bool) :
    KeepsTimes w (w.setNonBlocking fd on getOk setOk) := by
  unfold World.setNonBlocking
  split
  · exact .refl w
  · exact (keepsTimes_setFlag w fd on setOk).trans (keepsTimes_onSetNonBlocking _ fd on)

theorem KeepsTimes.withGuard (h : KeepsTimes w w') (guard : Nat → Option (Nat × Bool)) :
    KeepsTimes w { w' with guard := guard } :=
  ⟨h.table, h.nextFile, h.manager⟩

theorem Fitting.accept (h : Fitting stored w) {s fd : Nat} {inCoroutine : Bool}
    (hs : w.step (.accept s inCoroutine (some fd)) = some w') : Fitting stored w' := by
  rw [World.step] at hs
  cases ho : w.kernel.objectOf s with
  | none =>
    rw [ho] at hs
    cases hs
  | some listener =>
    rw [ho] at hs
    dsimp only at hs
    split at hs
    · cases hs
    · next hfree =>
      have hnone : w.kernel.table fd = none := by
        by_contra hne
        exact hfree (.inr hne)
      cases inCoroutine with
      | false =>
        cases hs
        exact h.create hnone (.inl rfl)
      | true =>
        rw [if_pos rfl] at hs
        cases hc : w.manager s with
        | none =>
          rw [hc] at hs
          cases hs
        | some c =>
          rw [hc] at hs
          cases hs
          refine h.create hnone ?_
          split
          · exact .inr ⟨_, rfl, rfl, rfl, rfl⟩
          · exact .inl rfl

theorem Fitting.dup (h : Fitting stored w) {oldfd newfd : Nat} (hs : w.dup oldfd newfd = some w') :
    Fitting stored w' := by
  unfold World.dup at hs
  split at hs
  · next hok =>
    cases hs
    refine h.duplicate hok.1 fun f c _ hc => ?_
    rw [h.manager_none hok.2] at hc
    cases hc
  · cases hs

theorem Fitting.dup2 (h : Fitting stored w) {oldfd newfd : Nat}
    (hnew : oldfd = newfd ∨ ∀ f c, w.kernel.table oldfd = some f → w.manager newfd = some c → SameTimes stored f c)
    (hs : w.dup2 oldfd newfd = some w') : Fitting stored w' := by
  unfold World.dup2 at hs
  split at hs
  · next hopen =>
    cases hs
    split
    · exact h
    · next hne => exact h.duplicate hopen (hnew.resolve_left hne)
  · cases hs

/-- The calls other than `setsockopt`. -/
theorem Fitting.call (h : Fitting stored w) {a : World.Call}
    (ha : Settling { world := w, stored := stored } (.call a)) (hs : w.step a = some w') : Fitting stored w' := by
  have hsame : some w = some w' → Fitting stored w' := by
    intro e
    cases e
    exact h
  cases a with
  | socket attr answer =>
    cases answer with
    | none => exact hsame hs
    | some fd =>
      rw [World.step] at hs
      split at hs
      · next hfree =>
        cases hs
        refine h.create hfree ?_
        split
        · exact .inr ⟨_, rfl, rfl, rfl, rfl⟩
        · exact .inl rfl
      · cases hs
  | socketpair _ answer | pipe answer | pipe2 _ answer =>
    cases answer with
    | none => exact hsame hs
    | some fds => exact h.createPair hs
  | accept s inCoroutine answer =>
    cases answer with
    | none => exact hsame hs
    | some fd => exact h.accept hs
  | dup oldfd answer | dupfd oldfd answer =>
    cases answer with
    | none => exact hsame hs
    | some newfd => exact h.dup hs
  | dup2 oldfd newfd ok =>
    cases ok with
    | false => exact hsame hs
    | true => exact h.dup2 ha hs
  | dup3 oldfd newfd ok =>
    cases ok with
    | false => exact hsame hs
    | true =>
      rw [World.step] at hs
      split at hs
      · cases hs
      · exact h.dup2 ha hs
  | close fd ok => exact h.close hs
  | setfl fd _ ok | fionbio fd _ ok =>
    rw [World.step] at hs
    split at hs
    · cases hs
    · cases hs
      exact h.keep (keepsTimes_setFlag w fd _ ok)
  | guard g fd getOk setOk =>
    rw [World.step] at hs
    split at hs
    · cases hs
      refine h.keep (KeepsTimes.withGuard ?_ _)
      split
      · exact .refl w
      · exact keepsTimes_setNonBlocking w fd true getOk setOk
    · cases hs
  | unguard g getOk setOk =>
    rw [World.step] at hs
    split at hs
    · next fd nonblocking _ =>
      split at hs
      · cases hs
      · cases hs
        refine h.keep (KeepsTimes.withGuard ?_ _)
        split
        · exact .refl w
        · exact keepsTimes_setNonBlocking w fd false getOk setOk
    · cases hs

/-- A time is stored in the file `f`: a context of it that has this time still fits. -/
theorem SameTimes.update {f : FileId} {c : FdContext} {optname : TimeoutType} {tv : Timeval}
    (h : ∀ timeout ≠ optname,
      exactTimeout (c.getSocketTimeoutMicroSeconds timeout) = exactTimeout (stored f timeout).total)
    (hset : exactTimeout (c.getSocketTimeoutMicroSeconds optname) = exactTimeout tv.total) :
    SameTimes (update stored f (update (stored f) optname tv)) f c := by
  intro timeout
  rw [Function.update_self, Function.update_apply]
  split
  · next e => rw [e, hset]
  · next hne => exact h timeout hne

/-- `setsockopt`: the context gets the time, and the contexts of the duplicates have it. -/
theorem Fitting.setsockopt {s s' : Timed} (h : Fitting s.stored s.world) {fd : Nat} {optname : TimeoutType}
    {tv : Timeval} (ha : s.Settling (.setsockopt fd optname tv true))
    (hs : s.step (.setsockopt fd optname tv true) = some s') : Fitting s'.stored s'.world := by
  rw [step] at hs
  cases hf : s.world.kernel.table fd with
  | none =>
    rw [hf] at hs
    cases hs
  | some f =>
    cases hc : s.world.manager fd with
    | none =>
      rw [hf, hc] at hs
      cases hs
      exact h
    | some c =>
      rw [hf, hc] at hs
      obtain ⟨microseconds, hmicro, rfl⟩ := Option.map_eq_some_iff.mp hs
      obtain ⟨hlt, hothers⟩ := ha (by rw [hc]; rfl)
      have hint : microseconds = tv.total := by
        rw [microsecondsOf, if_pos (by omega)] at hmicro
        rw [← Option.some.inj hmicro]
        exact Int.bmod_eq_of_le (by omega) (by omega)
      refine ⟨fun x c' hc' => ?_, h.fresh, fun f' hf' timeout => ?_⟩
      · change update s.world.manager fd _ x = some c' at hc'
        rw [Function.update_apply] at hc'
        split at hc'
        · next e =>
          cases hc'
          subst e
          obtain ⟨f', hf', hfits⟩ := h.fits x c hc
          obtain rfl : f = f' := Option.some.inj (hf.symm.trans hf')
          refine ⟨f, hf, SameTimes.update (fun timeout hne => ?_) ?_, fun timeout => ?_⟩
          · rw [getSocketTimeout_onSet, if_neg hne]
            exact hfits.1 timeout
          · rw [getSocketTimeout_onSet, if_pos rfl, hint]
          · rw [getSocketTimeout_onSet]
            split
            · omega
            · exact hfits.2 timeout
        · next hne =>
          obtain ⟨f', hf', hfits⟩ := h.fits x c' hc'
          refine ⟨f', hf', ?_, hfits.2⟩
          by_cases hsame : f' = f
          · subst hsame
            exact SameTimes.update (fun timeout _ => hfits.1 timeout)
              (hothers x c' hne (hf'.trans hf.symm) hc')
          · intro timeout
            change _ = exactTimeout (update s.stored f _ f' timeout).total
            rw [Function.update_of_ne hsame]
            exact hfits.1 timeout
      · -- the file of an open descriptor has been made
        have hmade : f < s.world.kernel.nextFile := h.fresh fd f hf
        have hne : f' ≠ f := Nat.ne_of_gt (Nat.lt_of_lt_of_le hmade hf')
        show update s.stored f _ f' timeout = _
        rw [Function.update_of_ne hne]
        exact h.unset f' hf' timeout

/-- **A call that settles keeps the contexts fitting.** -/
theorem Fitting.step {s s' : Timed} {a : TimedCall} (h : Fitting s.stored s.world) (ha : s.Settling a)
    (hs : s.step a = some s') : Fitting s'.stored s'.world := by
  cases a with
  | call a =>
    obtain ⟨w, hw, rfl⟩ := Option.map_eq_some_iff.mp hs
    exact h.call ha hw
  | setsockopt fd optname tv ok =>
    cases ok with
    | false =>
      cases hs
      exact h
    | true => exact h.setsockopt ha hs

theorem fitting_init : Fitting (fun _ _ => .zero) {} where
  fits _ _ hc := nomatch hc
  fresh _ _ hf := nomatch hf
  unset _ _ _ := rfl

/-- **The timeouts are exact** in every run whose calls settle. -/
theorem exact_of_settling {s : Timed} (h : timedDescriptors.ReachableBy Settling s) : s.Exact := by
  have hfitting : Fitting s.stored s.world :=
    h.invariant (I := fun s => Fitting s.stored s.world) fitting_init fun _ _ _ hI ha hs => hI.step ha hs
  exact hfitting.exact

/-- Half a second. -/
def halfSecond : Timeval := ⟨0, 500000, by decide, by decide⟩

theorem step_setsockopt {s : Timed} {fd : Nat} {optname : TimeoutType} {tv : Timeval} {f : FileId} {c : FdContext}
    {microseconds : Int} (hf : s.world.kernel.table fd = some f) (hc : s.world.manager fd = some c)
    (hstored : microsecondsOf tv = some microseconds) :
    timedDescriptors.step s (.setsockopt fd optname tv true) =
      some {
        world := { s.world with
          manager := update s.world.manager fd (some (c.onSetSocketTimeout optname microseconds)) }
        stored := update s.stored f (update (s.stored f) optname tv) } := by
  show s.step (.setsockopt fd optname tv true) = _
  rw [step, hf, hc, hstored]
  rfl

/-- A duplicate of a socket with a timeout of half a second. -/
theorem exact_halfSecond : ∃ s, timedDescriptors.ReachableBy Settling s ∧
    s.world.doIo 4 .recv = some 500 ∧ s.Exact := by
  have hstored : microsecondsOf halfSecond = some 500000 := by decide +kernel
  have hsocket := Infra.Lts.ReachableBy.step (M := timedDescriptors) (P := Settling)
    (a := .call (.socket World.tcp (some 3))) .init (by exact trivial) rfl
  have hset := hsocket.step (a := .setsockopt 3 .recv halfSecond true)
    (by
      intro _
      refine ⟨by decide, fun fd' c hne _ hc => ?_⟩
      change update (fun _ => none) 3 _ fd' = some c at hc
      rw [Function.update_of_ne hne] at hc
      cases hc) (step_setsockopt rfl rfl hstored)
  have hdup := hset.step (a := .call (.dup 3 (some 4))) (by exact trivial) rfl
  exact ⟨_, hdup, by decide +kernel, exact_of_settling hdup⟩

/-- An hour. -/
def hour : Timeval := ⟨3600, 0, by decide, by decide⟩

/-- For a timeout of an hour a socket is polled for a millisecond. -/
theorem not_exact_hour : ¬∀ s, timedDescriptors.Reachable s → s.Exact := by
  intro hall
  have hrun : timedDescriptors.run timedDescriptors.init
      [.call (.socket World.tcp (some 3)), .setsockopt 3 .recv hour true] = some _ := rfl
  obtain ⟨f, hf, hpoll⟩ := hall _ (Infra.Lts.reachable_of_run hrun) 3 .recv 1 (by decide +kernel)
  obtain rfl : 0 = f := Option.some.inj hf
  exact absurd hpoll (by decide +kernel)

end Timed

end Nemo.Net
