import Nemo.Net.FdManager

/-!
# `FdManager` mirrors the descriptor table

There is a context just for the open descriptors, and it describes what the descriptor refers to. This
holds as long as every hook that makes a descriptor registers it, and no descriptor that is open comes to
refer to something else.
-/

namespace Nemo.Net

open Function (update)

/-- What a context says about its descriptor. `tcpConnectTimeout` is not among it: only the hooks know it, and the
kernel has nothing to compare it with. -/
def FdContext.object (c : FdContext) : Object :=
  { type := c.type
    socketAttr := c.socketAttr
    sendTimeout := c.sendTimeout
    recvTimeout := c.recvTimeout }

namespace World

/-- Every descriptor has a context if it is open, and that one is about the object of the descriptor. -/
def Mirrors (w : World) : Prop :=
  ∀ fd, (w.manager fd).map FdContext.object = w.kernel.objectOf fd

/-- The open files are those that have been made. -/
def Fresh (w : World) : Prop := ∀ fd f, w.kernel.table fd = some f → f < w.kernel.nextFile

/--
The calls that register what they make: `socket` and `accept` do so for positive numbers, and `accept` in
a coroutine only; `dup2` and `dup3` do so if the number is free.
-/
def Tracked (w : World) : Call → Prop
  | .socket _ (some fd) => fd > 0
  | .accept _ inCoroutine (some fd) => inCoroutine = true ∧ fd > 0
  | .dup2 oldfd newfd true | .dup3 oldfd newfd true =>
    w.kernel.table newfd = none ∨ w.kernel.objectOf newfd = w.kernel.objectOf oldfd
  | .guard _ _ _ _ | .unguard _ _ _ => False
  | _ => True

variable {w w' : World}

/-! ## Steps of the table -/

theorem Mirrors.manager_none (h : w.Mirrors) {fd : Nat} (hfd : w.kernel.table fd = none) :
    w.manager fd = none := by
  have hmap := h fd
  rw [Kernel.objectOf, hfd] at hmap
  exact Option.map_eq_none_iff.mp hmap

/-- Making a file changes no other descriptor. -/
theorem objectOf_create (hfresh : w.Fresh) (fd : Nat) (object : Object) (nonBlocking : Bool) (x : Nat) :
    (w.kernel.create fd object nonBlocking).objectOf x =
      if x = fd then some object else w.kernel.objectOf x := by
  unfold Kernel.objectOf Kernel.create
  dsimp only
  rw [Function.update_apply]
  split
  · rw [Option.map_some, Function.update_self]
  · refine Option.map_congr fun f hf => ?_
    exact Function.update_of_ne (Nat.ne_of_lt (hfresh x f hf)) ..

theorem fresh_create (hfresh : w.Fresh) {fd : Nat} {object : Object} {nonBlocking : Bool} {x : Nat}
    {f : FileId} (h : (w.kernel.create fd object nonBlocking).table x = some f) :
    f < w.kernel.nextFile + 1 := by
  unfold Kernel.create at h
  dsimp only at h
  rw [Function.update_apply] at h
  split at h
  · cases h
    exact Nat.lt_succ_self _
  · exact Nat.lt_succ_of_lt (hfresh x f h)

theorem objectOf_duplicate (oldfd newfd x : Nat) :
    (w.kernel.duplicate oldfd newfd).objectOf x =
      if x = newfd then w.kernel.objectOf oldfd else w.kernel.objectOf x := by
  unfold Kernel.objectOf Kernel.duplicate
  dsimp only
  rw [Function.update_apply]
  split <;> rfl

theorem add_of_none {m : FdManager} {c : FdContext} (h : m c.fd = none) :
    m.add c = update m c.fd (some c) := by
  rw [FdManager.add, h]

theorem add_of_some {m : FdManager} {c c' : FdContext} (h : m c.fd = some c') : m.add c = m := by
  rw [FdManager.add, h]

/-- A context is added for a number that had none. -/
theorem map_object_update (m : FdManager) (fd : Nat) (c : FdContext) (x : Nat) :
    (update m fd (some c) x).map FdContext.object =
      if x = fd then some c.object else (m x).map FdContext.object := by
  rw [Function.update_apply]
  split <;> rfl

/-- A new open file, with a context about it. -/
theorem Mirrors.create (h : w.Mirrors) (hfresh : w.Fresh) {fd : Nat}
    (hfree : w.kernel.table fd = none) {object : Object} {nonBlocking : Bool} {c : FdContext}
    (hfd : c.fd = fd) (hobject : c.object = object) :
    Mirrors { w with
      kernel := w.kernel.create fd object nonBlocking
      manager := w.manager.add c } := by
  subst hfd hobject
  intro x
  show (w.manager.add c x).map FdContext.object = (w.kernel.create c.fd c.object nonBlocking).objectOf x
  rw [add_of_none (h.manager_none hfree), map_object_update, objectOf_create hfresh, h x]

theorem Fresh.create (hfresh : w.Fresh) {fd : Nat} {object : Object} {nonBlocking : Bool}
    {manager : FdManager} :
    Fresh { w with kernel := w.kernel.create fd object nonBlocking, manager := manager } :=
  fun _ _ hf => fresh_create hfresh hf

theorem createPair_mirrors (h : w.Mirrors) (hfresh : w.Fresh) {fds : Nat × Nat} {object : Object}
    {nonBlocking : Bool} (ht : object.sendTimeout = 0 ∧ object.recvTimeout = 0)
    (hs : w.createPair fds object nonBlocking = some w') : w'.Mirrors ∧ w'.Fresh := by
  obtain ⟨type, attr, _, _⟩ := object
  obtain ⟨rfl, rfl⟩ := ht
  unfold createPair at hs
  split at hs
  · next hfree =>
    cases hs
    have hsecond : (w.kernel.create fds.1 ⟨type, attr, 0, 0⟩ nonBlocking).table fds.2 = none :=
      (Function.update_of_ne hfree.2.2.symm ..).trans hfree.2.1
    have h₁ : (w.create fds.1 ⟨type, attr, 0, 0⟩ nonBlocking true).Mirrors :=
      h.create hfresh hfree.1 rfl rfl
    exact ⟨h₁.create hfresh.create hsecond rfl rfl, hfresh.create.create⟩
  · cases hs

theorem duplicate_mirrors (h : w.Mirrors) {oldfd newfd : Nat}
    (hnew : w.kernel.table newfd = none ∨ w.kernel.objectOf newfd = w.kernel.objectOf oldfd)
    (hopen : (w.kernel.table oldfd).isSome = true) : (w.duplicate oldfd newfd).Mirrors := by
  obtain ⟨f, hf⟩ := Option.isSome_iff_exists.mp hopen
  obtain ⟨c, hc, hobject⟩ : ∃ c, w.manager oldfd = some c ∧ w.kernel.objectOf oldfd = some c.object := by
    have hmap := h oldfd
    rw [show w.kernel.objectOf oldfd = some (w.kernel.object f) by rw [Kernel.objectOf, hf]; rfl] at hmap
    obtain ⟨c, hc, hobject⟩ := Option.map_eq_some_iff.mp hmap
    refine ⟨c, hc, ?_⟩
    rw [hobject, Kernel.objectOf, hf]
    rfl
  intro x
  unfold duplicate
  dsimp only
  rw [hc, objectOf_duplicate, hobject]
  dsimp only
  cases hm : w.manager newfd with
  | none =>
    rw [add_of_none (c := c.clone newfd) hm, map_object_update, h x]
    rfl
  | some c' =>
    rw [add_of_some (c := c.clone newfd) hm, h x]
    split
    · next e =>
      have hmap := h newfd
      rcases hnew with hnew | hnew
      · rw [h.manager_none hnew] at hm
        cases hm
      · rw [e, hnew, hobject]
    · rfl

theorem duplicate_fresh (hfresh : w.Fresh) (oldfd newfd : Nat) : (w.duplicate oldfd newfd).Fresh := by
  intro x f hf
  have hf' : update w.kernel.table newfd (w.kernel.table oldfd) x = some f := hf
  rw [Function.update_apply] at hf'
  split at hf'
  · exact hfresh _ f hf'
  · exact hfresh _ f hf'

theorem dup2_mirrors (h : w.Mirrors) (hfresh : w.Fresh) {oldfd newfd : Nat}
    (hnew : w.kernel.table newfd = none ∨ w.kernel.objectOf newfd = w.kernel.objectOf oldfd)
    (hs : w.dup2 oldfd newfd = some w') : w'.Mirrors ∧ w'.Fresh := by
  unfold dup2 at hs
  split at hs
  · next hopen =>
    cases hs
    split
    · exact ⟨h, hfresh⟩
    · exact ⟨duplicate_mirrors h hnew hopen, duplicate_fresh hfresh _ _⟩
  · cases hs

theorem dup_mirrors (h : w.Mirrors) (hfresh : w.Fresh) {oldfd newfd : Nat}
    (hs : w.dup oldfd newfd = some w') : w'.Mirrors ∧ w'.Fresh := by
  unfold dup at hs
  split at hs
  · next hok =>
    cases hs
    exact ⟨duplicate_mirrors h (.inl hok.2) hok.1, duplicate_fresh hfresh _ _⟩
  · cases hs

/-- A context that is there is erased, and one that is not there is not. -/
theorem erase_apply (m : FdManager) (fd x : Nat) :
    (if (m fd).isSome then m.erase fd else m) x = if x = fd then none else m x := by
  unfold FdManager.erase
  split
  · rw [Function.update_apply]
  · next hnone =>
    split
    · next e => rw [e, Option.not_isSome_iff_eq_none.mp hnone]
    · rfl

/-- The context and the entry of the table go together. -/
theorem close_mirrors (h : w.Mirrors) (hfresh : w.Fresh) {fd : Nat} {ok : Bool}
    (hs : w.close fd ok = some w') : w'.Mirrors ∧ w'.Fresh := by
  unfold close at hs
  split at hs
  · cases hs
  · cases hs
    refine ⟨fun x => ?_, fun x f hf => ?_⟩
    · have hclose : (w.kernel.close fd).objectOf x = if x = fd then none else w.kernel.objectOf x := by
        unfold Kernel.objectOf Kernel.close
        dsimp only
        rw [Function.update_apply]
        split <;> rfl
      show ((if (w.manager fd).isSome then w.manager.erase fd else w.manager) x).map _ =
        (w.kernel.close fd).objectOf x
      rw [erase_apply, hclose]
      split
      · rfl
      · exact h x
    · have hf' : update w.kernel.table fd none x = some f := hf
      rw [Function.update_apply] at hf'
      split at hf'
      · cases hf'
      · exact hfresh x f hf'

/-- Setting the flag of a context or of an open file changes nothing else. -/
theorem setFlag_mirrors (h : w.Mirrors) (hfresh : w.Fresh) (fd : Nat) (on ok : Bool) :
    (w.setFlag fd on ok).Mirrors ∧ (w.setFlag fd on ok).Fresh := by
  have hkernel : ∀ k : Kernel, k = (if ok then w.kernel.setNonBlocking fd on else w.kernel) →
      k.table = w.kernel.table ∧ k.object = w.kernel.object ∧ k.nextFile = w.kernel.nextFile := by
    rintro k rfl
    cases ok
    · exact ⟨rfl, rfl, rfl⟩
    · unfold Kernel.setNonBlocking
      simp only [if_true]
      split <;> exact ⟨rfl, rfl, rfl⟩
  have hmanager : ∀ x, ((w.onSetNonBlocking fd on).manager x).map FdContext.object =
      (w.manager x).map FdContext.object := by
    intro x
    unfold onSetNonBlocking
    cases hm : w.manager fd with
    | none => rfl
    | some c =>
      dsimp only
      rw [map_object_update]
      split
      · next e =>
        rw [e, hm]
        rfl
      · rfl
  have hw : (w.onSetNonBlocking fd on).kernel = w.kernel := by
    unfold onSetNonBlocking
    split <;> rfl
  obtain ⟨htable, hobject, hnext⟩ := hkernel _ rfl
  unfold setFlag
  dsimp only
  rw [hw]
  refine ⟨fun x => ?_, fun x f hf => ?_⟩
  · show ((w.onSetNonBlocking fd on).manager x).map _ = _
    rw [hmanager, h x, Kernel.objectOf, Kernel.objectOf, htable, hobject]
  · rw [show _ = w.kernel.nextFile from hnext]
    exact hfresh x f (by rwa [← htable])

theorem accept_mirrors (h : w.Mirrors) (hfresh : w.Fresh) {s fd : Nat}
    (hs : w.step (.accept s true (some fd)) = some w') (hfd : fd > 0) : w'.Mirrors ∧ w'.Fresh := by
  rw [step] at hs
  have hlistener := h s
  cases ho : w.kernel.objectOf s with
  | none =>
    rw [ho] at hs
    cases hs
  | some listener =>
    rw [ho] at hs hlistener
    obtain ⟨c, hc, rfl⟩ := Option.map_eq_some_iff.mp hlistener
    dsimp only at hs
    split at hs
    · cases hs
    · next hfree =>
      have hnone : w.kernel.table fd = none := by
        by_contra hne
        exact hfree (.inr hne)
      rw [if_pos rfl, hc] at hs
      cases hs
      exact ⟨h.create hfresh hnone rfl rfl, hfresh.create⟩

/-- **A tracked call keeps the mirror.** -/
theorem mirrors_step {a : Call} (h : w.Mirrors) (hfresh : w.Fresh) (ha : Tracked w a)
    (hs : w.step a = some w') : w'.Mirrors ∧ w'.Fresh := by
  have hkeep : some w = some w' → w'.Mirrors ∧ w'.Fresh := by
    intro e
    cases e
    exact ⟨h, hfresh⟩
  cases a with
  | socket attr answer =>
    cases answer with
    | none => exact hkeep hs
    | some fd =>
      rw [step] at hs
      split at hs
      · next hfree =>
        cases hs
        have htracked : decide (fd > 0) = true := decide_eq_true ha
        rw [htracked]
        exact ⟨h.create hfresh hfree rfl rfl, hfresh.create⟩
      · cases hs
  | socketpair attr answer =>
    cases answer with
    | none => exact hkeep hs
    | some fds => exact createPair_mirrors h hfresh ⟨rfl, rfl⟩ hs
  | accept s inCoroutine answer =>
    cases answer with
    | none => exact hkeep hs
    | some fd =>
      obtain ⟨rfl, hfd⟩ := ha
      exact accept_mirrors h hfresh hs hfd
  | pipe answer =>
    cases answer with
    | none => exact hkeep hs
    | some fds => exact createPair_mirrors h hfresh ⟨rfl, rfl⟩ hs
  | pipe2 flags answer =>
    cases answer with
    | none => exact hkeep hs
    | some fds => exact createPair_mirrors h hfresh ⟨rfl, rfl⟩ hs
  | dup oldfd answer | dupfd oldfd answer =>
    cases answer with
    | none => exact hkeep hs
    | some newfd => exact dup_mirrors h hfresh hs
  | dup2 oldfd newfd ok =>
    cases ok with
    | false => exact hkeep hs
    | true => exact dup2_mirrors h hfresh ha hs
  | dup3 oldfd newfd ok =>
    cases ok with
    | false => exact hkeep hs
    | true =>
      rw [step] at hs
      split at hs
      · cases hs
      · exact dup2_mirrors h hfresh ha hs
  | close fd ok => exact close_mirrors h hfresh hs
  | setfl fd flags ok =>
    rw [step] at hs
    split at hs
    · cases hs
    · cases hs
      exact setFlag_mirrors h hfresh ..
  | fionbio fd on ok =>
    rw [step] at hs
    split at hs
    · cases hs
    · cases hs
      exact setFlag_mirrors h hfresh ..
  | guard g fd getOk setOk => exact ha.elim
  | unguard g getOk setOk => exact ha.elim

/-- **`FdManager` mirrors the descriptor table** in every run whose calls are tracked. -/
theorem mirrors_of_tracked (h : descriptors.ReachableBy Tracked w) : w.Mirrors := by
  have hboth : w.Mirrors ∧ w.Fresh :=
    h.invariant (I := fun w => w.Mirrors ∧ w.Fresh)
      ⟨fun _ => rfl, fun _ _ hf => by cases hf⟩
      fun _ _ _ hI ha hs => mirrors_step hI.1 hI.2 ha hs
  exact hboth.1

instance (w : World) (a : Call) : Decidable (Tracked w a) := by
  unfold Tracked
  split <;> infer_instance

/-- A TCP socket. -/
def tcp : SocketAttribute := { family := 2, type := 1, protocol := 0 }

/-- Two connections of which one gets the number of the other, a duplicate of it, and a pipe at 0. -/
def reuse : List Call :=
  [.pipe (some (0, 1)), .socket tcp (some 2), .accept 2 true (some 3), .close 3 true,
    .accept 2 true (some 3), .dup2 3 4 true, .dup2 2 3 true, .close 7 false]

theorem mirrors_reuse : ∃ w, descriptors.runBy Tracked descriptors.init reuse = some w ∧
    (w.manager 4).map FdContext.object = some { type := .socket, socketAttr := tcp } ∧ w.Mirrors := by
  have hrun : (descriptors.runBy Tracked descriptors.init reuse).map
      (fun w => (w.manager 4).map FdContext.object) = some (some { type := .socket, socketAttr := tcp }) := by
    decide +kernel
  obtain ⟨w, hw, hq⟩ := Option.map_eq_some_iff.mp hrun
  exact ⟨w, hw, hq, mirrors_of_tracked (.of_runBy .init hw)⟩

/-- `dup2` of a pipe over a socket leaves the context of the socket. -/
theorem not_mirrors : ¬ ∀ w, descriptors.Reachable w → w.Mirrors := by
  intro h
  have hrun : (descriptors.run descriptors.init
      [.pipe (some (3, 4)), .socket tcp (some 5), .dup2 3 5 true]).map
        (fun w => ((w.manager 5).map FdContext.object, w.kernel.objectOf 5)) =
      some (some { type := .socket, socketAttr := tcp }, some { type := .pipe }) := by
    decide +kernel
  obtain ⟨w, hw, hq⟩ := Option.map_eq_some_iff.mp hrun
  rw [Prod.mk.injEq] at hq
  have hfd := h w (Infra.Lts.reachable_of_run hw) 5
  rw [hq.1, hq.2] at hfd
  cases hfd

end World

end Nemo.Net
