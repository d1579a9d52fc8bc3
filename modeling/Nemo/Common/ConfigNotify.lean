import Mathlib.Data.Fintype.Basic
import Mathlib.Data.Option.Basic
import Mathlib.Logic.Function.Basic
import Nemo.Infra.Lts

/-!
# Concurrent `setValue`

`ConfigVar<T>::setValue` in `include/common/config.h`. The first section holds the mutex shared: it
returns if the value is not changed, else it calls the listeners one after the other; other calls can
be in this section at the same time. The second section holds the mutex alone and stores the value.

A listener hears the values in the order of the first sections, and `value_` gets them in the order of
the second sections. `converged_of_inOrder`: if these orders agree, the listeners have heard the stored
value last when all calls have returned.
-/

namespace Nemo.Config

open Function (update)
open Infra

/-- Where a call of `setValue` is. -/
inductive Progress (T L : Type)
  /-- it holds the mutex shared, and these listeners have not been called yet -/
  | notifying (val : T) (rest : List L)
  /-- it has released the mutex, and has not stored yet -/
  | storing (val : T)

/-- A `ConfigVar`, with the calls that are in progress. -/
structure Var (C T L : Type) where
  value : T
  /-- how many calls hold the mutex shared -/
  readers : Nat := 0
  calls : C → Option (Progress T L) := fun _ => none
  /-- which calls have called a listener, and with what, the newest first -/
  heard : L → List (C × T) := fun _ => []

/-- The steps of a call. -/
inductive SetValue (C T : Type)
  /-- it takes the mutex shared, and compares -/
  | enter (c : C) (val : T)
  /-- it calls the next listener -/
  | notify (c : C)
  /-- it has called all of them, and releases the mutex -/
  | leave (c : C)
  /-- it takes the mutex alone, stores and returns -/
  | store (c : C)

variable {C T L : Type} [DecidableEq C] [DecidableEq L]

/-- One step, for an `operator==` and the listeners in the order in which they are called. -/
def Var.step (eq : T → T → Bool) (cbs : List L) (s : Var C T L) : SetValue C T → Option (Var C T L)
  | .enter c val =>
    match s.calls c with
    | some _ => none
    | none =>
      if eq val s.value then some s
      else
        some { s with
          readers := s.readers + 1
          calls := update s.calls c (some (.notifying val cbs)) }
  | .notify c =>
    match s.calls c with
    | some (.notifying val (l :: rest)) =>
      some { s with
        calls := update s.calls c (some (.notifying val rest))
        heard := update s.heard l ((c, val) :: s.heard l) }
    | _ => none
  | .leave c =>
    match s.calls c with
    | some (.notifying val []) =>
      some { s with readers := s.readers - 1, calls := update s.calls c (some (.storing val)) }
    | _ => none
  | .store c =>
    match s.calls c with
    | some (.storing val) =>
      if s.readers = 0 then some { s with value := val, calls := update s.calls c none } else none
    | _ => none

/-- Any number of calls on a variable that is made with `value`. -/
def setValues (C : Type) [DecidableEq C] (eq : T → T → Bool) (cbs : List L) (value : T) :
    Lts (Var C T L) (SetValue C T) where
  init := { value }
  step := Var.step eq cbs

variable {eq : T → T → Bool} {cbs : List L} {value : T}

/-- All calls have returned. -/
def Var.Quiet (s : Var C T L) : Prop := ∀ c, s.calls c = none

/-- What a listener was called with last. -/
def Var.last (s : Var C T L) (l : L) : Option T := (s.heard l).head?.map Prod.snd

/-- Each listener has heard the value of the variable last, or nothing if this is the first value. -/
def Var.Converged (cbs : List L) (value : T) (s : Var C T L) : Prop :=
  ∀ l ∈ cbs, s.last l = some s.value ∨ s.last l = none ∧ s.value = value

/-! ## The order of the sections -/

def Progress.val : Progress T L → T
  | .notifying val _ => val
  | .storing val => val

/-- The call has called the listener, and will not do so again. -/
def Progress.hasCalled (l : L) : Progress T L → Bool
  | .notifying _ rest => l ∉ rest
  | .storing _ => true

/-- How many calls of the listener are newer than the last one by the call `c`. -/
def Var.since (s : Var C T L) (l : L) (c : C) : Nat := (s.heard l).findIdx (·.1 = c)

/-- Of two calls with different values, the one that calls a listener first stores first: a call does not store
while another one that called some listener before it is in progress, unless it has the same value. -/
def StoresInOrder (cbs : List L) (s : Var C T L) : SetValue C T → Prop
  | .store c => ∀ p ∈ s.calls c, ∀ d, ∀ q ∈ s.calls d, ∀ l ∈ cbs, q.hasCalled l → s.since l c < s.since l d →
      q.val = p.val
  | _ => True

instance [Fintype C] [DecidableEq T] (s : Var C T L) :
    (a : SetValue C T) → Decidable (StoresInOrder cbs s a)
  | .store c => inferInstanceAs (Decidable (∀ p ∈ s.calls c, ∀ d, ∀ q ∈ s.calls d, ∀ l ∈ cbs,
      q.hasCalled l → s.since l c < s.since l d → q.val = p.val))
  | .enter _ _ | .notify _ | .leave _ => instDecidableTrue

/-! ## The invariant -/

/--
Before a listener is called, nothing is stored. The call that called it last is in progress; or it has stored
its value, and so will all others that have called the listener.
-/
structure Follows (cbs : List L) (value : T) (s : Var C T L) (l : L) : Prop where
  unheard : s.heard l = [] → s.value = value ∧ ∀ c, ∀ p ∈ s.calls c, p.hasCalled l = false
  newest : ∀ d val rest, s.heard l = (d, val) :: rest →
    (∃ p ∈ s.calls d, p.val = val) ∨
      s.value = val ∧ ∀ c, ∀ p ∈ s.calls c, p.hasCalled l → p.val = val

variable {s s' : Var C T L} {l : L}

theorem follows_init (l : L) : Follows cbs value (setValues C eq cbs value).init l :=
  ⟨fun _ => ⟨rfl, nofun⟩, nofun⟩

omit [DecidableEq C] in
/-- What is known of a listener stays known while no call has called it newly, and none has returned. -/
theorem Follows.congr (h : Follows cbs value s l) (hvalue : s'.value = s.value) (hheard : s'.heard l = s.heard l)
    (hcalls : ∀ c, ∀ p ∈ s'.calls c, p.hasCalled l → ∃ q ∈ s.calls c, q.val = p.val ∧ q.hasCalled l)
    (hkeep : ∀ c, ∀ q ∈ s.calls c, ∃ p ∈ s'.calls c, p.val = q.val) : Follows cbs value s' l := by
  constructor
  · intro hnil
    rw [hheard] at hnil
    obtain ⟨hfirst, hnone⟩ := h.unheard hnil
    refine ⟨hvalue.trans hfirst, fun c p hp => ?_⟩
    by_contra hcalled
    obtain ⟨q, hq, -, hcalled'⟩ := hcalls c p hp (by simpa using hcalled)
    rw [hnone c q hq] at hcalled'
    cases hcalled'
  · intro d val rest hnewest
    rw [hheard] at hnewest
    rcases h.newest d val rest hnewest with ⟨q, hq, hval⟩ | ⟨hstored, hsame⟩
    · obtain ⟨p, hp, hpq⟩ := hkeep d q hq
      exact .inl ⟨p, hp, hpq.trans hval⟩
    · refine .inr ⟨hvalue.trans hstored, fun c p hp hcalled => ?_⟩
      obtain ⟨q, hq, hpq, hcalled'⟩ := hcalls c p hp hcalled
      exact hpq.symm.trans (hsame c q hq hcalled')

/-- The progress of one call changes, and its value does not. -/
theorem Follows.update (h : Follows cbs value s l) {c : C} {p : Progress T L} (hvalue : s'.value = s.value)
    (hheard : s'.heard l = s.heard l) (hcalls : s'.calls = update s.calls c (some p))
    (hold : ∀ q ∈ s.calls c, q.val = p.val)
    (hcalled : p.hasCalled l → ∃ q ∈ s.calls c, q.hasCalled l) : Follows cbs value s' l := by
  refine h.congr hvalue hheard (fun d p' hp' hd => ?_) (fun d q hq => ?_)
  · rw [hcalls, Function.update_apply] at hp'
    split at hp'
    · next he =>
      obtain rfl := Option.some.inj hp'
      obtain ⟨q, hq, hqcalled⟩ := hcalled hd
      exact ⟨q, he ▸ hq, hold q hq, hqcalled⟩
    · exact ⟨p', hp', rfl, hd⟩
  · rw [hcalls, Function.update_apply]
    split
    · next he => exact ⟨p, rfl, (hold q (he ▸ hq)).symm⟩
    · exact ⟨q, hq, rfl⟩

/-- A call that stores in order. The newest call of a listener is the one that stores, or keeps what is known. -/
theorem Follows.store (h : Follows cbs value s l) (hl : l ∈ cbs) {c : C} {val : T}
    (hc : s.calls c = some (.storing val)) (horder : StoresInOrder cbs s (.store c)) :
    Follows cbs value { s with value := val, calls := Function.update s.calls c none } l := by
  have hothers : ∀ d, ∀ p ∈ Function.update s.calls c none d, d ≠ c ∧ p ∈ s.calls d := by
    intro d p hp
    rw [Function.update_apply] at hp
    split at hp
    · cases hp
    · next hne => exact ⟨hne, hp⟩
  constructor
  · intro hnil
    have hcalled := (h.unheard hnil).2 c _ hc
    cases hcalled
  · intro d w rest hnewest
    have hstored : (∃ p ∈ s.calls d, p.val = w) ∧ d ≠ c ∨
        val = w ∧ ∀ e, ∀ p ∈ s.calls e, e ≠ c → p.hasCalled l → p.val = w := by
      rcases h.newest d w rest hnewest with ⟨p, hp, hval⟩ | ⟨-, hsame⟩
      · by_cases hd : d = c
        · right
          subst hd
          obtain rfl : Progress.storing val = p := Option.some.inj (hc.symm.trans hp)
          refine ⟨hval, fun e q hq he hcalled => ?_⟩
          -- all other calls of the listener are older
          have hzero : s.since l d = 0 := by rw [Var.since, hnewest, List.findIdx_cons]; simp
          have hlater : s.since l d < s.since l e := by
            rw [hzero, Var.since, hnewest, List.findIdx_cons]
            simp [Ne.symm he]
          exact (horder _ hc e q hq l hl hcalled hlater).trans hval
        · exact .inl ⟨⟨p, hp, hval⟩, hd⟩
      · exact .inr ⟨hsame c _ hc rfl, fun e q hq _ hcalled => hsame e q hq hcalled⟩
    rcases hstored with ⟨⟨p, hp, hval⟩, hd⟩ | ⟨hval, hsame⟩
    · exact .inl ⟨p, by simpa [hd] using hp, hval⟩
    · refine .inr ⟨hval, fun e q hq hcalled => ?_⟩
      obtain ⟨hne, hq⟩ := hothers e q hq
      exact hsame e q hq hne hcalled

/-- **What every step keeps**, if stores are in order. -/
theorem Follows.step (h : Follows cbs value s l) (hl : l ∈ cbs) {a : SetValue C T}
    (horder : StoresInOrder cbs s a) (hstep : s.step eq cbs a = some s') : Follows cbs value s' l := by
  cases a with
  | enter c val =>
    simp only [Var.step] at hstep
    split at hstep
    · cases hstep
    next hc =>
    split at hstep
    · cases hstep
      exact h
    · cases hstep
      refine h.update rfl rfl rfl (fun q hq => ?_) fun hcalled => ?_
      · rw [hc] at hq
        cases hq
      · exact absurd hl (of_decide_eq_true hcalled)
  | notify c =>
    simp only [Var.step] at hstep
    split at hstep
    · next val l' rest hc =>
      cases hstep
      by_cases hll : l = l'
      · subst hll
        constructor
        · intro hnil
          simp at hnil
        · intro d w rest' hnewest
          obtain ⟨⟨rfl, rfl⟩, -⟩ : (c = d ∧ val = w) ∧ _ := by simpa using hnewest
          exact .inl ⟨.notifying val rest, Function.update_self .., rfl⟩
      · refine h.update rfl (Function.update_of_ne hll ..) rfl (fun q hq => ?_) fun hcalled => ?_
        · obtain rfl := Option.some.inj (hc.symm.trans hq)
          rfl
        · refine ⟨_, hc, decide_eq_true ?_⟩
          exact List.not_mem_cons_of_ne_of_not_mem hll (of_decide_eq_true hcalled)
    · cases hstep
  | leave c =>
    simp only [Var.step] at hstep
    split at hstep
    · next val hc =>
      cases hstep
      refine h.update rfl rfl rfl (fun q hq => ?_) fun _ => ⟨_, hc, decide_eq_true (List.not_mem_nil (a := l))⟩
      obtain rfl := Option.some.inj (hc.symm.trans hq)
      rfl
    · cases hstep
  | store c =>
    simp only [Var.step] at hstep
    split at hstep
    · next val hc =>
      split at hstep
      · cases hstep
        exact h.store hl hc horder
      · cases hstep
    · cases hstep

/--
**The listeners converge in every run in which the calls store in the order in which they call the
listeners**: when all calls have returned, each listener has heard the value of the variable last.
-/
theorem converged_of_inOrder (h : (setValues C eq cbs value).ReachableBy (StoresInOrder cbs) s)
    (hquiet : s.Quiet) : s.Converged cbs value := by
  intro l hl
  have hfollows : Follows cbs value s l :=
    h.invariant (follows_init l) fun _ _ _ hI horder hstep => Follows.step hI hl horder hstep
  unfold Var.last
  cases hheard : s.heard l with
  | nil => exact .inr ⟨rfl, (hfollows.unheard hheard).1⟩
  | cons newest rest =>
    obtain ⟨d, val⟩ := newest
    rcases hfollows.newest d val rest hheard with ⟨p, hp, -⟩ | ⟨hvalue, -⟩
    · rw [hquiet d] at hp
      cases hp
    · exact .inl (congrArg some hvalue.symm)

/-- Two calls that are in the first section at once, and store in the order in which the listener heard them. -/
theorem converged_overlapping :
    ∃ s, (setValues Bool BEq.beq [()] 0).runBy (StoresInOrder [()]) { value := 0 }
        [.enter false 1, .enter true 2, .notify false, .notify true, .leave true, .leave false, .store false,
          .store true] = some s ∧
      s.last () = some 2 ∧ s.Quiet ∧ s.Converged [()] 0 := by
  obtain ⟨s, hs⟩ : ∃ s, (setValues Bool BEq.beq [()] 0).runBy (StoresInOrder [()]) { value := 0 }
      [.enter false 1, .enter true 2, .notify false, .notify true, .leave true, .leave false, .store false,
        .store true] = some s := ⟨_, rfl⟩
  have hquiet : s.Quiet := by
    cases hs
    exact fun c => by cases c <;> rfl
  refine ⟨s, hs, ?_, hquiet, converged_of_inOrder (.of_runBy .init hs) hquiet⟩
  cases hs
  rfl

/-- Two calls whose sections cross: the listener hears 1 and then 2, and 1 is stored last. -/
theorem not_converged : ¬∀ s, (setValues Bool BEq.beq [()] 0).Reachable s → s.Quiet → s.Converged [()] 0 := by
  intro hall
  obtain ⟨s, hs⟩ : ∃ s, (setValues Bool BEq.beq [()] 0).run { value := 0 }
      [.enter false 1, .notify false, .leave false, .enter true 2, .notify true, .leave true, .store true,
        .store false] = some s := ⟨_, rfl⟩
  have hconverged := hall s (Lts.reachable_of_run hs)
  cases hs
  have hlast := hconverged (fun c => by cases c <;> rfl) () (List.mem_singleton_self _)
  revert hlast
  decide

end Nemo.Config
