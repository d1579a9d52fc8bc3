import Nemo.Net.FdMirror

/-!
# `isNonBlocking` and `O_NONBLOCK`

The kernel has one flag for an open file, and there is a context for every descriptor. They agree as long as
nothing is made with the flag set, a call that sets it for a descriptor does not fail, and no duplicate
of the descriptor has a context with another flag.
-/

namespace Nemo.Net.World

open Function (update)

/-- The contexts have the flags of the kernel, and `DoIo` waits for the descriptors that block. -/
def Coherent (w : World) : Prop :=
  ∀ fd c, w.manager fd = some c →
    ∃ on, w.kernel.flagOf fd = some on ∧ c.isNonBlocking = on ∧ w.suspends fd = !on

/-- The contexts of the duplicates of `fd` have the flag `on`. -/
def OthersAgree (w : World) (fd : Nat) (on : Bool) : Prop :=
  ∀ fd' c, fd' ≠ fd → w.kernel.table fd' = w.kernel.table fd → w.kernel.table fd ≠ none →
    w.manager fd' = some c → c.isNonBlocking = on

/-- `F_SETFL` and `FIONBIO`: what is set is set for all duplicates, and what is not set was so before. -/
def SetsFlag (w : World) (fd : Nat) (on ok : Bool) : Prop :=
  if ok then w.OthersAgree fd on else ∀ c, w.manager fd = some c → c.isNonBlocking = on

/--
The calls that keep the flags together. A descriptor is made with the flag cleared, or without a context;
`dup2` and `dup3` leave a context that has the flag of the new file; and what sets the flag
sets it for all duplicates.
-/
def Agreeing (w : World) : Call → Prop
  | .socket attr (some fd) => hasNonBlock attr.type = false ∨ fd = 0
  | .socketpair attr (some _) => hasNonBlock attr.type = false
  | .pipe2 flags (some _) => hasNonBlock flags = false
  | .dup2 oldfd newfd true | .dup3 oldfd newfd true =>
    oldfd = newfd ∨ ∀ c, w.manager newfd = some c → w.kernel.flagOf oldfd = some c.isNonBlocking
  | .close _ _ => False
  | .setfl fd flags ok => w.SetsFlag fd (hasNonBlock flags) ok
  | .fionbio fd on ok => w.SetsFlag fd on ok
  | .guard _ fd getOk setOk =>
    ∀ c, w.manager fd = some c → c.isNonBlocking = false → w.getFlag fd getOk = false →
      setOk = true ∧ w.OthersAgree fd true
  | .unguard g getOk setOk =>
    ∀ fd, w.guard g = some (fd, false) → w.getFlag fd getOk = true →
      setOk = true ∧ w.OthersAgree fd false
  | _ => True

/-- The invariant: a context is about an open file, and not about a plain one. -/
structure Matches (w : World) : Prop where
  flag : ∀ fd c, w.manager fd = some c → w.kernel.flagOf fd = some c.isNonBlocking
  type : ∀ fd c, w.manager fd = some c → c.type ≠ .plain
  fresh : w.Fresh

variable {w w' : World}

theorem Matches.coherent (h : w.Matches) : w.Coherent := by
  intro fd c hc
  refine ⟨c.isNonBlocking, h.flag fd c hc, rfl, ?_⟩
  rw [suspends, hc]
  have ht : (c.type != .plain) = true := bne_iff_ne.mpr (h.type fd c hc)
  show (!c.isNonBlocking && c.type != .plain) = _
  rw [ht, Bool.and_true]

theorem Matches.manager_none (h : w.Matches) {fd : Nat} (hfd : w.kernel.table fd = none) :
    w.manager fd = none := by
  cases hc : w.manager fd with
  | none => rfl
  | some c =>
    have hflag := h.flag fd c hc
    rw [Kernel.flagOf, hfd] at hflag
    cases hflag

/-! ## Making descriptors -/

theorem flagOf_create (hfresh : w.Fresh) (fd : Nat) (object : Object) (nonBlocking : Bool) (x : Nat) :
    (w.kernel.create fd object nonBlocking).flagOf x =
      if x = fd then some nonBlocking else w.kernel.flagOf x := by
  unfold Kernel.flagOf Kernel.create
  dsimp only
  rw [Function.update_apply]
  split
  · rw [Option.map_some, Function.update_self]
  · refine Option.map_congr fun f hf => ?_
    exact Function.update_of_ne (Nat.ne_of_lt (hfresh x f hf)) ..

/-- A new descriptor gets no context, or one with its flag. -/
theorem Matches.create (h : w.Matches) {fd : Nat} (hfree : w.kernel.table fd = none)
    {object : Object} {nonBlocking : Bool} {manager : FdManager}
    (hm : manager = w.manager ∨ ∃ c : FdContext, c.fd = fd ∧ c.type ≠ .plain ∧
      c.isNonBlocking = nonBlocking ∧ manager = w.manager.add c) :
    Matches { w with kernel := w.kernel.create fd object nonBlocking, manager := manager } := by
  have hnone := h.manager_none hfree
  have hcontext : ∀ x c, manager x = some c → (x ≠ fd ∧ w.manager x = some c) ∨
      (x = fd ∧ c.isNonBlocking = nonBlocking ∧ c.type ≠ .plain) := by
    intro x c hc
    rcases hm with rfl | ⟨c', rfl, htype, hflag, rfl⟩
    · refine .inl ⟨?_, hc⟩
      rintro rfl
      rw [hnone] at hc
      cases hc
    · rw [add_of_none hnone, Function.update_apply] at hc
      split at hc
      · next e =>
        cases hc
        exact .inr ⟨e, hflag, htype⟩
      · next e => exact .inl ⟨e, hc⟩
  refine ⟨fun x c hc => ?_, fun x c hc => ?_, Fresh.create h.fresh⟩
  · rw [show ({ w with kernel := w.kernel.create fd object nonBlocking, manager := manager } :
      World).kernel.flagOf x = _ from flagOf_create h.fresh ..]
    rcases hcontext x c hc with ⟨hne, hc⟩ | ⟨e, hflag, -⟩
    · rw [if_neg hne]
      exact h.flag x c hc
    · rw [if_pos e, hflag]
  · rcases hcontext x c hc with ⟨-, hc⟩ | ⟨-, -, htype⟩
    · exact h.type x c hc
    · exact htype

theorem createPair_matches (h : w.Matches) {fds : Nat × Nat} {object : Object}
    (htype : object.type ≠ .plain) (hs : w.createPair fds object false = some w') : w'.Matches := by
  unfold createPair at hs
  split at hs
  · next hfree =>
    cases hs
    have hsecond : (w.kernel.create fds.1 object false).table fds.2 = none :=
      (Function.update_of_ne hfree.2.2.symm ..).trans hfree.2.1
    have h₁ : (w.create fds.1 object false true).Matches :=
      h.create hfree.1 (.inr ⟨_, rfl, htype, rfl, rfl⟩)
    exact h₁.create hsecond (.inr ⟨_, rfl, htype, rfl, rfl⟩)
  · cases hs

/-! ## Duplicates -/

theorem duplicate_matches (h : w.Matches) {oldfd newfd : Nat}
    (hnew : ∀ c, w.manager newfd = some c → w.kernel.flagOf oldfd = some c.isNonBlocking) :
    (w.duplicate oldfd newfd).Matches := by
  have hflag : ∀ x, (w.kernel.duplicate oldfd newfd).flagOf x =
      if x = newfd then w.kernel.flagOf oldfd else w.kernel.flagOf x := fun x => by
    unfold Kernel.flagOf Kernel.duplicate
    dsimp only
    rw [Function.update_apply]
    split <;> rfl
  have hcontext : ∀ x c, (w.duplicate oldfd newfd).manager x = some c → w.manager x = some c ∨
      (x = newfd ∧ ∃ c', w.manager oldfd = some c' ∧ c = c'.clone newfd) := by
    intro x c hc
    unfold duplicate at hc
    dsimp only at hc
    cases hold : w.manager oldfd with
    | none =>
      rw [hold] at hc
      exact .inl hc
    | some c' =>
      rw [hold] at hc
      dsimp only at hc
      cases hm : w.manager newfd with
      | some c'' =>
        rw [add_of_some (c := c'.clone newfd) hm] at hc
        exact .inl hc
      | none =>
        rw [add_of_none (c := c'.clone newfd) hm, Function.update_apply] at hc
        split at hc
        · next e =>
          cases hc
          exact .inr ⟨e, c', rfl, rfl⟩
        · exact .inl hc
  refine ⟨fun x c hc => ?_, fun x c hc => ?_, duplicate_fresh h.fresh _ _⟩
  · show (w.kernel.duplicate oldfd newfd).flagOf x = _
    rw [hflag]
    rcases hcontext x c hc with hc | ⟨rfl, c', hc', rfl⟩
    · split
      · next e => exact hnew c (e ▸ hc)
      · exact h.flag x c hc
    · rw [if_pos rfl]
      exact h.flag oldfd c' hc'
  · rcases hcontext x c hc with hc | ⟨-, c', hc', rfl⟩
    · exact h.type x c hc
    · exact h.type oldfd c' hc'

/-! ## Setting the flag -/

theorem onSetNonBlocking_manager (w : World) (fd : Nat) (on : Bool) (x : Nat) :
    (w.onSetNonBlocking fd on).manager x =
      if x = fd then (w.manager x).map (·.onSetNonBlocking on) else w.manager x := by
  unfold onSetNonBlocking
  cases hm : w.manager fd with
  | none =>
    dsimp only
    split
    · next e => rw [e, hm, Option.map_none]
    · rfl
  | some c =>
    dsimp only
    rw [Function.update_apply]
    split
    · next e => rw [e, hm, Option.map_some]
    · rfl

theorem onSetNonBlocking_kernel (w : World) (fd : Nat) (on : Bool) :
    (w.onSetNonBlocking fd on).kernel = w.kernel := by
  unfold onSetNonBlocking
  split <;> rfl

/-- The kernel sets the flag for all duplicates. -/
theorem flagOf_setNonBlocking (k : Kernel) (fd : Nat) (on : Bool) (x : Nat) :
    (k.setNonBlocking fd on).flagOf x =
      if k.table x = k.table fd ∧ k.table fd ≠ none then some on else k.flagOf x := by
  unfold Kernel.setNonBlocking
  cases hf : k.table fd with
  | none => rw [if_neg fun h => h.2 rfl]
  | some f =>
    unfold Kernel.flagOf
    dsimp only
    cases hx : k.table x with
    | none =>
      rw [if_neg fun h => by cases h.1]
      rfl
    | some f' =>
      rw [Option.map_some, Option.map_some, Function.update_apply]
      by_cases e : f' = f
      · rw [if_pos e, if_pos ⟨congrArg some e, Option.some_ne_none f⟩]
      · rw [if_neg e, if_neg fun h => e (Option.some.inj h.1)]

theorem setFlag_matches (h : w.Matches) {fd : Nat} {on ok : Bool} (hset : w.SetsFlag fd on ok) :
    (w.setFlag fd on ok).Matches := by
  have hmanager : (w.setFlag fd on ok).manager = (w.onSetNonBlocking fd on).manager := rfl
  have hkernel : (w.setFlag fd on ok).kernel =
      if ok then w.kernel.setNonBlocking fd on else w.kernel := by
    show (if ok then (w.onSetNonBlocking fd on).kernel.setNonBlocking fd on
      else (w.onSetNonBlocking fd on).kernel) = _
    rw [onSetNonBlocking_kernel]
  have hfresh : (w.setFlag fd on ok).Fresh := by
    unfold Fresh
    rw [hkernel]
    cases ok with
    | false => exact h.fresh
    | true =>
      rw [if_pos rfl]
      unfold Kernel.setNonBlocking
      split <;> exact h.fresh
  refine ⟨fun x c hc => ?_, fun x c hc => ?_, hfresh⟩
  · rw [hmanager, onSetNonBlocking_manager] at hc
    rw [hkernel]
    split at hc
    · next e =>
      subst e
      obtain ⟨c₀, hc₀, rfl⟩ := Option.map_eq_some_iff.mp hc
      have hflag := h.flag x c₀ hc₀
      cases ok with
      | true =>
        have hopen : w.kernel.table x ≠ none := fun hnone => by
          rw [Kernel.flagOf, hnone] at hflag
          cases hflag
        rw [if_pos rfl, flagOf_setNonBlocking, if_pos ⟨rfl, hopen⟩]
        rfl
      | false =>
        have hon : c₀.isNonBlocking = on := hset c₀ hc₀
        rw [hon] at hflag
        exact hflag
    · next hne =>
      cases ok with
      | true =>
        rw [if_pos rfl, flagOf_setNonBlocking]
        split
        · next hsame =>
          have hon : c.isNonBlocking = on := hset x c hne hsame.1 hsame.2 hc
          rw [hon]
        · exact h.flag x c hc
      | false => exact h.flag x c hc
  · rw [hmanager, onSetNonBlocking_manager] at hc
    split at hc
    · obtain ⟨c₀, hc₀, rfl⟩ := Option.map_eq_some_iff.mp hc
      exact h.type x c₀ hc₀
    · exact h.type x c hc

/-- The context has been set before it is set for the second time. -/
theorem onSetNonBlocking_setFlag (w : World) (fd : Nat) (on ok : Bool) :
    (w.setFlag fd on ok).onSetNonBlocking fd on = w.setFlag fd on ok := by
  have hm : ((w.setFlag fd on ok).onSetNonBlocking fd on).manager = (w.setFlag fd on ok).manager := by
    funext x
    show _ = (w.onSetNonBlocking fd on).manager x
    rw [onSetNonBlocking_manager]
    show (if x = fd then ((w.onSetNonBlocking fd on).manager x).map _
      else (w.onSetNonBlocking fd on).manager x) = _
    rw [onSetNonBlocking_manager]
    split
    · rw [Option.map_map]
      rfl
    · rfl
  have hk := onSetNonBlocking_kernel (w.setFlag fd on ok) fd on
  have hg : ((w.setFlag fd on ok).onSetNonBlocking fd on).guard = (w.setFlag fd on ok).guard := by
    unfold onSetNonBlocking
    split <;> rfl
  generalize (w.setFlag fd on ok).onSetNonBlocking fd on = w₁ at hm hk hg
  cases w₁
  cases hm
  cases hk
  cases hg
  rfl

theorem setNonBlocking_matches (h : w.Matches) {fd : Nat} {on getOk setOk : Bool}
    (hset : w.getFlag fd getOk ≠ on → setOk = true ∧ w.OthersAgree fd on) :
    (w.setNonBlocking fd on getOk setOk).Matches := by
  unfold setNonBlocking
  split
  · exact h
  · next hne =>
    obtain ⟨rfl, hothers⟩ := hset fun e => hne e.symm
    rw [onSetNonBlocking_setFlag]
    exact setFlag_matches h hothers

/-! ## Every step -/

theorem accept_matches (h : w.Matches) {s fd : Nat} {inCoroutine : Bool}
    (hs : w.step (.accept s inCoroutine (some fd)) = some w') : w'.Matches := by
  rw [step] at hs
  cases ho : w.kernel.objectOf s with
  | none =>
    rw [ho] at hs
    cases hs
  | some listener =>
    rw [ho] at hs
    dsimp only at hs
    split at hs
    · cases hs
    · next hfree =>
      have hnone : w.kernel.table fd = none := by
        by_contra hne
        exact hfree (.inr hne)
      cases inCoroutine with
      | false =>
        cases hs
        exact h.create hnone (.inl rfl)
      | true =>
        rw [if_pos rfl] at hs
        cases hc : w.manager s with
        | none =>
          rw [hc] at hs
          cases hs
        | some c =>
          rw [hc] at hs
          cases hs
          refine h.create hnone ?_
          split
          · exact .inr ⟨_, rfl, FdType.noConfusion, rfl, rfl⟩
          · exact .inl rfl

theorem dup_matches (h : w.Matches) {oldfd newfd : Nat} (hs : w.dup oldfd newfd = some w') :
    w'.Matches := by
  unfold dup at hs
  split at hs
  · next hok =>
    cases hs
    refine duplicate_matches h fun c hc => ?_
    rw [h.manager_none hok.2] at hc
    cases hc
  · cases hs

/-- The guards themselves are not looked at. -/
theorem Matches.withGuard (h : w.Matches) (guard : Nat → Option (Nat × Bool)) :
    Matches { w with guard := guard } :=
  ⟨h.flag, h.type, h.fresh⟩

theorem guard_matches (h : w.Matches) {g fd : Nat} {getOk setOk : Bool}
    (ha : Agreeing w (.guard g fd getOk setOk)) (hs : w.step (.guard g fd getOk setOk) = some w') :
    w'.Matches := by
  rw [step] at hs
  split at hs
  · next c hc _ =>
    cases hs
    refine Matches.withGuard ?_ _
    split
    · exact h
    · next hblocking =>
      refine setNonBlocking_matches h fun hflag => ?_
      exact ha c hc (Bool.not_eq_true _ ▸ hblocking) (Bool.not_eq_true _ ▸ hflag)
  · cases hs

theorem unguard_matches (h : w.Matches) {g : Nat} {getOk setOk : Bool}
    (ha : Agreeing w (.unguard g getOk setOk)) (hs : w.step (.unguard g getOk setOk) = some w') :
    w'.Matches := by
  rw [step] at hs
  split at hs
  · next fd nonblocking hg =>
    split at hs
    · cases hs
    · cases hs
      refine Matches.withGuard ?_ _
      split
      · exact h
      · next hblocking =>
        refine setNonBlocking_matches h fun hflag => ?_
        refine ha fd ?_ (Bool.not_eq_false _ ▸ hflag)
        rw [hg, eq_false_of_ne_true hblocking]
  · cases hs

/-- **A call that agrees keeps the flags together.** -/
theorem matches_step {a : Call} (h : w.Matches) (ha : Agreeing w a) (hs : w.step a = some w') :
    w'.Matches := by
  have hkeep : some w = some w' → w'.Matches := by
    intro e
    cases e
    exact h
  have hpair : ∀ {fds : Nat × Nat} {object : Object} {nonBlocking : Bool}, object.type ≠ .plain →
      nonBlocking = false → w.createPair fds object nonBlocking = some w' → w'.Matches := by
    rintro fds object _ htype rfl hs
    exact createPair_matches h htype hs
  have hdup2 : ∀ {oldfd newfd : Nat}, (oldfd = newfd ∨ ∀ c, w.manager newfd = some c →
      w.kernel.flagOf oldfd = some c.isNonBlocking) → w.dup2 oldfd newfd = some w' → w'.Matches := by
    intro oldfd newfd hnew hs
    unfold dup2 at hs
    split at hs
    · cases hs
      split
      · exact h
      · next hne => exact duplicate_matches h (hnew.resolve_left hne)
    · cases hs
  cases a with
  | socket attr answer =>
    cases answer with
    | none => exact hkeep hs
    | some fd =>
      rw [step] at hs
      split at hs
      · next hfree =>
        cases hs
        refine h.create hfree ?_
        by_cases hfd : fd > 0
        · right
          refine ⟨_, rfl, ?_, ?_, if_pos (decide_eq_true hfd)⟩
          · exact FdType.noConfusion
          · exact (ha.resolve_right (Nat.ne_of_gt hfd)).symm
        · left
          exact if_neg (by rw [decide_eq_false hfd]; exact Bool.false_ne_true)
      · cases hs
  | socketpair attr answer =>
    cases answer with
    | none => exact hkeep hs
    | some fds => exact hpair FdType.noConfusion ha hs
  | accept s inCoroutine answer =>
    cases answer with
    | none => exact hkeep hs
    | some fd => exact accept_matches h hs
  | pipe answer =>
    cases answer with
    | none => exact hkeep hs
    | some fds => exact hpair FdType.noConfusion rfl hs
  | pipe2 flags answer =>
    cases answer with
    | none => exact hkeep hs
    | some fds => exact hpair FdType.noConfusion ha hs
  | dup oldfd answer | dupfd oldfd answer =>
    cases answer with
    | none => exact hkeep hs
    | some newfd => exact dup_matches h hs
  | dup2 oldfd newfd ok =>
    cases ok with
    | false => exact hkeep hs
    | true => exact hdup2 ha hs
  | dup3 oldfd newfd ok =>
    cases ok with
    | false => exact hkeep hs
    | true =>
      rw [step] at hs
      split at hs
      · cases hs
      · exact hdup2 ha hs
  | close fd ok => exact ha.elim
  | setfl fd flags ok =>
    rw [step] at hs
    split at hs
    · cases hs
    · cases hs
      exact setFlag_matches h ha
  | fionbio fd on ok =>
    rw [step] at hs
    split at hs
    · cases hs
    · cases hs
      exact setFlag_matches h ha
  | guard g fd getOk setOk => exact guard_matches h ha hs
  | unguard g getOk setOk => exact unguard_matches h ha hs

/--
**`isNonBlocking` is the flag of the kernel** in every run whose calls agree, and `DoIo` waits for
the descriptors that block.
-/
theorem coherent_of_agreeing (h : descriptors.ReachableBy Agreeing w) : w.Coherent := by
  have hmatches : w.Matches :=
    h.invariant (I := Matches)
      ⟨fun _ _ hc => (by cases hc), fun _ _ hc => (by cases hc), fun _ _ hf => (by cases hf)⟩
      fun _ _ _ hI ha hs => matches_step hI ha hs
  exact hmatches.coherent

/-- The flag of a descriptor is set while it has no duplicates, and a duplicate is made afterwards. -/
theorem coherent_pipe : ∃ w, descriptors.run descriptors.init
      [.pipe2 0 (some (3, 4)), .setfl 3 oNonBlock true, .dup 3 (some 5)] = some w ∧
    (w.manager 5).map FdContext.isNonBlocking = some true ∧ w.Coherent := by
  obtain ⟨w₁, hw₁⟩ : ∃ w, World.step {} (.pipe2 0 (some (3, 4))) = some w := ⟨_, rfl⟩
  obtain ⟨w₂, hw₂⟩ : ∃ w, w₁.step (.setfl 3 oNonBlock true) = some w := by
    cases hw₁
    exact ⟨_, rfl⟩
  obtain ⟨w₃, hw₃⟩ : ∃ w, w₂.step (.dup 3 (some 5)) = some w := by
    cases hw₁
    cases hw₂
    exact ⟨_, rfl⟩
  have hset : w₁.SetsFlag 3 (hasNonBlock oNonBlock) true := by
    cases hw₁
    -- of all numbers other than 3, only 4 is open, and it is another file
    intro fd c hne hsame _ _
    have htable : update (update (fun _ => none) 3 (some 0)) 4 (some 1) fd = some 0 := hsame
    rw [Function.update_apply, Function.update_of_ne hne] at htable
    split at htable <;> cases htable
  have hreach : descriptors.ReachableBy Agreeing w₃ :=
    .step (a := .dup 3 (some 5))
      (.step (a := .setfl 3 oNonBlock true) (.step (a := .pipe2 0 (some (3, 4))) .init rfl hw₁) hset hw₂)
      trivial hw₃
  refine ⟨w₃, ?_, ?_, coherent_of_agreeing hreach⟩
  · cases hw₁
    cases hw₂
    cases hw₃
    rfl
  · cases hw₁
    cases hw₂
    cases hw₃
    rfl

/-- A pipe is made with the flag, and its contexts are made without. -/
theorem not_coherent : ¬ ∀ w, descriptors.Reachable w → w.Coherent := by
  intro h
  have hrun : (descriptors.run descriptors.init [.pipe2 oNonBlock (some (3, 4))]).map
      (fun w => ((w.manager 3).map FdContext.isNonBlocking, w.kernel.flagOf 3)) =
        some (some false, some true) := by
    decide +kernel
  obtain ⟨w, hw, hq⟩ := Option.map_eq_some_iff.mp hrun
  rw [Prod.mk.injEq] at hq
  obtain ⟨c, hc, hflag⟩ := Option.map_eq_some_iff.mp hq.1
  obtain ⟨on, hon, hsame, -⟩ := h w (Infra.Lts.reachable_of_run hw) 3 c hc
  rw [hq.2] at hon
  cases hon
  rw [hflag] at hsame
  cases hsame

end Nemo.Net.World
