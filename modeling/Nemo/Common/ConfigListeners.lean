import Mathlib.Logic.Function.Basic
import Nemo.Infra.Runs

/-!
# The listeners of config variables

`addListener`, `delListener`, `getListener` and `clearListener` of `ConfigVar<T>` in
`include/common/config.h`, on all variables of one type `T`, which share the counter `sFunId`.
`addListener` stores a callback under the counter as it was, and returns the counter as it is after
`sFunId++`: an id stands for the registration that was returned the id after it.

`identified_iff` says in which sequences of calls nobody can tell.
-/

namespace Nemo.Config

open Function (update)
open Infra

variable {V β : Type} [DecidableEq V]

/-- A callback that was passed to `addListener`, with the number of this call. -/
structure Listener (β : Type) where
  number : Nat
  cb : β

/-- The listeners of each variable by a key. -/
abbrev Listeners (V β : Type) := V → UInt64 → Option (Listener β)

/-- The entry of one key of one variable is replaced. -/
def Listeners.put (ls : Listeners V β) (v : V) (key : UInt64) (o : Option (Listener β)) : Listeners V β :=
  update ls v (update (ls v) key o)

theorem Listeners.put_apply (ls : Listeners V β) (v w : V) (key key' : UInt64)
    (o : Option (Listener β)) :
    ls.put v key o w key' = if w = v ∧ key' = key then o else ls w key' := by
  rw [Listeners.put, Function.update_apply]
  by_cases hw : w = v
  · subst hw
    simp only [true_and, if_true, Function.update_apply]
  · rw [if_neg hw, if_neg fun h => hw h.1]

/-- The variables of one type: the counter, and `cbs_` of each variable. -/
structure ConfigVars (V β : Type) where
  sFunId : UInt64 := 0
  cbs : Listeners V β := fun _ _ => none

namespace ConfigVars

variable (s : ConfigVars V β)

def addListener (v : V) (l : Listener β) : ConfigVars V β × UInt64 :=
  let cbs :=
    match s.cbs v s.sFunId with
    -- `emplace` leaves what is there
    | some _ => s.cbs
    | none => s.cbs.put v s.sFunId (some l)
  ({ sFunId := s.sFunId + 1, cbs }, s.sFunId + 1)

def delListener (v : V) (key : UInt64) : ConfigVars V β := { s with cbs := s.cbs.put v key none }

def getListener (v : V) (key : UInt64) : Option β := (s.cbs v key).map Listener.cb

def clearListener (v : V) : ConfigVars V β := { s with cbs := update s.cbs v fun _ => none }

/-- A variable calls the listener when it changes. -/
def Calls (v : V) (l : Listener β) : Prop := ∃ key, s.cbs v key = some l

end ConfigVars

/-! ## Registrations -/

inductive Call (V β : Type)
  | add (v : V) (cb : β)
  | del (v : V) (id : UInt64)
  | get (v : V) (id : UInt64)
  | clear (v : V)

/-- The variables, with the registrations by the ids that were returned. -/
structure State (V β : Type) where
  vars : ConfigVars V β := {}
  /-- the registrations that have not been deleted or cleared -/
  registered : Listeners V β := fun _ _ => none
  /-- the ids that were returned -/
  issued : List (V × UInt64) := []
  /-- how many registrations there were -/
  count : Nat := 0

namespace State

variable (s : State V β)

/-- The id that a registration is returned. -/
def nextId (v : V) (cb : β) : UInt64 := (s.vars.addListener v ⟨s.count, cb⟩).2

def call : Call V β → State V β
  | .add v cb =>
    { vars := (s.vars.addListener v ⟨s.count, cb⟩).1
      registered := s.registered.put v (s.nextId v cb) (some ⟨s.count, cb⟩)
      issued := (v, s.nextId v cb) :: s.issued
      count := s.count + 1 }
  | .del v id => { s with vars := s.vars.delListener v id, registered := s.registered.put v id none }
  | .get _ _ => s
  | .clear v =>
    { s with vars := s.vars.clearListener v, registered := update s.registered v fun _ => none }

end State

/-- The calls one after the other. -/
def calls (V β : Type) [DecidableEq V] : Lts (State V β) (Call V β) where
  init := {}
  step s c := some (s.call c)

/-- A call treats an id as that of the registration it was returned for. -/
structure Identified (s : State V β) (c : Call V β) : Prop where
  get : ∀ v id, c = .get v id → s.vars.getListener v id = (s.registered v id).map Listener.cb
  del : ∀ v id, c = .del v id → ∀ w l,
    (s.call c).vars.Calls w l ↔ s.vars.Calls w l ∧ ¬(w = v ∧ s.registered v id = some l)
  distinct : ∀ v cb, c = .add v cb → (v, s.nextId v cb) ∉ s.issued

/--
An id and the one after it are not told apart: to be looked up they have the same callback, to be deleted
neither is registered. The number of a new registration is no id of the variable modulo 2^64.
-/
def Unnoticed (s : State V β) : Call V β → Prop
  | .add v _ => (v, UInt64.ofNat (s.count + 1)) ∉ s.issued
  | .del v id => s.registered v id = none ∧ s.registered v (id + 1) = none
  | .get v id => (s.registered v id).map Listener.cb = (s.registered v (id + 1)).map Listener.cb
  | .clear _ => True

/-! ## The invariant -/

/-- The callbacks are at the ids before their own. -/
structure Shifted (s : State V β) : Prop where
  cbs : ∀ v key, s.vars.cbs v key = s.registered v (key + 1)
  sFunId : s.vars.sFunId = UInt64.ofNat s.count
  issued : ∀ v id l, s.registered v id = some l → (v, id) ∈ s.issued
  number_lt : ∀ v id l, s.registered v id = some l → l.number < s.count
  unique : ∀ v w id id' l, s.registered v id = some l → s.registered w id' = some l → w = v ∧ id' = id

theorem shifted_init : Shifted (calls V β).init :=
  ⟨fun _ _ => rfl, rfl, fun _ _ _ => nofun, fun _ _ _ => nofun, fun _ _ _ _ _ => nofun⟩

namespace Shifted

variable {s : State V β} (h : Shifted s)
include h

theorem nextId_eq (v : V) (cb : β) : s.nextId v cb = UInt64.ofNat (s.count + 1) := by
  rw [State.nextId, ConfigVars.addListener, h.sFunId, UInt64.ofNat_add]
  rfl

theorem registered_add (v w : V) (cb : β) (id : UInt64) :
    (s.call (.add v cb)).registered w id
      = if w = v ∧ id = UInt64.ofNat (s.count + 1) then some ⟨s.count, cb⟩ else s.registered w id := by
  rw [← h.nextId_eq v cb]
  exact Listeners.put_apply ..

theorem add {v : V} {cb : β} (hnew : (v, UInt64.ofNat (s.count + 1)) ∉ s.issued) :
    Shifted (s.call (.add v cb)) := by
  have hid : UInt64.ofNat (s.count + 1) = s.vars.sFunId + 1 := (h.nextId_eq v cb).symm
  have hfree : s.vars.cbs v s.vars.sFunId = none := by
    rw [h.cbs, ← hid]
    cases hr : s.registered v (UInt64.ofNat (s.count + 1)) with
    | none => rfl
    | some l => exact absurd (h.issued _ _ _ hr) hnew
  -- a registration before this one has a smaller number
  have hold : ∀ w id l, s.registered w id = some l → l ≠ ⟨s.count, cb⟩ := by
    rintro w id l hl rfl
    exact absurd (h.number_lt _ _ _ hl) (Nat.lt_irrefl _)
  refine ⟨fun w key => ?_, ?_, fun w id l hl => ?_, fun w id l hl => ?_, fun w w' id id' l hl hl' => ?_⟩
  · rw [h.registered_add]
    simp only [State.call, ConfigVars.addListener, hfree, hid, Listeners.put_apply, h.cbs,
      UInt64.add_left_inj]
  · simp only [State.call, ConfigVars.addListener]
    rw [← hid]
  · rw [h.registered_add, ← h.nextId_eq v cb] at hl
    split at hl
    · next heq => exact List.mem_cons.mpr (.inl (Prod.ext heq.1 heq.2))
    · exact List.mem_cons_of_mem _ (h.issued _ _ _ hl)
  · rw [h.registered_add] at hl
    split at hl
    · cases hl
      exact Nat.lt_succ_self _
    · exact Nat.lt_succ_of_lt (h.number_lt _ _ _ hl)
  · rw [h.registered_add] at hl hl'
    split at hl
    · next heq =>
      split at hl'
      · next heq' => exact ⟨heq'.1.trans heq.1.symm, heq'.2.trans heq.2.symm⟩
      · exact absurd (Option.some.inj hl).symm (hold _ _ _ hl')
    · split at hl'
      · exact absurd (Option.some.inj hl').symm (hold _ _ _ hl)
      · exact h.unique _ _ _ _ _ hl hl'

/-- An id that is not registered, and neither is the one after it, is not a key either. -/
theorem call_del {v : V} {id : UInt64} (hid : s.registered v id = none)
    (hnext : s.registered v (id + 1) = none) : s.call (.del v id) = s := by
  have hput : ∀ (ls : Listeners V β), ls v id = none → ls.put v id none = ls := by
    intro ls hls
    funext w key
    rw [Listeners.put_apply]
    split
    · next heq => rw [heq.1, heq.2, hls]
    · rfl
  rw [State.call, ConfigVars.delListener, hput _ hid, hput _ ((h.cbs v id).trans hnext)]

theorem clear (v : V) : Shifted (s.call (.clear v)) := by
  have hsub : ∀ w id l, (s.call (.clear v)).registered w id = some l → s.registered w id = some l := by
    intro w id l hl
    by_cases hw : w = v
    · simp [State.call, hw] at hl
    · simpa [State.call, hw] using hl
  refine ⟨fun w key => ?_, h.sFunId, fun w id l hl => h.issued _ _ _ (hsub _ _ _ hl),
    fun w id l hl => h.number_lt _ _ _ (hsub _ _ _ hl),
    fun w w' id id' l hl hl' => h.unique _ _ _ _ _ (hsub _ _ _ hl) (hsub _ _ _ hl')⟩
  by_cases hw : w = v
  · simp [State.call, ConfigVars.clearListener, hw]
  · simpa [State.call, ConfigVars.clearListener, hw] using h.cbs w key

theorem call {c : Call V β} (hc : Unnoticed s c) : Shifted (s.call c) := by
  cases c with
  | add v cb => exact h.add hc
  | del v id =>
    rw [h.call_del hc.1 hc.2]
    exact h
  | get v id => exact h
  | clear v => exact h.clear v

/-- Deleting an id takes out the callback of the id after it. -/
theorem calls_del_iff {v w : V} {id : UInt64} {l : Listener β} :
    (s.call (.del v id)).vars.Calls w l
      ↔ ∃ key, s.registered w (key + 1) = some l ∧ ¬(w = v ∧ key = id) := by
  refine exists_congr fun key => ?_
  rw [← h.cbs]
  change s.vars.cbs.put v id none w key = some l ↔ _
  rw [Listeners.put_apply]
  split
  · next heq => simp [heq]
  · next hne => simp [hne]

omit [DecidableEq V] in
theorem calls_of_registered {v : V} {id : UInt64} {l : Listener β} (hl : s.registered v id = some l) :
    s.vars.Calls v l := by
  refine ⟨id - 1, ?_⟩
  rw [h.cbs, UInt64.sub_add_cancel, hl]

theorem none_of_del {v : V} {id : UInt64}
    (hdel : ∀ w l, (s.call (.del v id)).vars.Calls w l
      ↔ s.vars.Calls w l ∧ ¬(w = v ∧ s.registered v id = some l)) :
    s.registered v id = none ∧ s.registered v (id + 1) = none := by
  constructor
  · cases hl : s.registered v id with
    | none => rfl
    | some l =>
      -- its callback is left
      have hleft : (s.call (.del v id)).vars.Calls v l := by
        refine h.calls_del_iff.mpr ⟨id - 1, by rw [UInt64.sub_add_cancel, hl], fun heq => ?_⟩
        have hone : id = id + 1 := (UInt64.sub_add_cancel id 1).symm.trans (congrArg (· + 1) heq.2)
        simp at hone
      exact absurd ⟨rfl, hl⟩ ((hdel v l).mp hleft).2
  · cases hl : s.registered v (id + 1) with
    | none => rfl
    | some l =>
      have hstays : (s.call (.del v id)).vars.Calls v l := by
        refine (hdel v l).mpr ⟨h.calls_of_registered hl, fun heq => ?_⟩
        have := (h.unique _ _ _ _ _ hl heq.2).2
        simp at this
      -- but it is taken out
      obtain ⟨key, hkey, hne⟩ := h.calls_del_iff.mp hstays
      have hid := (h.unique _ _ _ _ _ hl hkey).2
      exact absurd ⟨rfl, (UInt64.add_left_inj 1).mp hid⟩ hne

theorem unnoticed_iff (c : Call V β) : Identified s c ↔ Unnoticed s c := by
  cases c with
  | add v cb =>
    constructor
    · intro hc
      have hdistinct := hc.distinct v cb rfl
      rwa [h.nextId_eq] at hdistinct
    · intro hc
      refine ⟨fun _ _ => nofun, fun _ _ => nofun, ?_⟩
      rintro _ _ ⟨⟩
      rwa [h.nextId_eq]
  | del v id =>
    constructor
    · intro hc
      exact h.none_of_del (hc.del v id rfl)
    · intro hc
      refine ⟨fun _ _ => nofun, ?_, fun _ _ => nofun⟩
      rintro _ _ ⟨⟩ w l
      rw [h.call_del hc.1 hc.2, hc.1]
      simp
  | get v id =>
    have hget : s.vars.getListener v id = (s.registered v (id + 1)).map Listener.cb :=
      congrArg (Option.map Listener.cb) (h.cbs v id)
    constructor
    · intro hc
      exact (hc.get v id rfl).symm.trans hget
    · intro hc
      refine ⟨?_, fun _ _ => nofun, fun _ _ => nofun⟩
      rintro _ _ ⟨⟩
      exact hget.trans hc.symm
  | clear v =>
    exact ⟨fun _ => trivial, fun _ => ⟨fun _ _ => nofun, fun _ _ => nofun, fun _ _ => nofun⟩⟩

end Shifted

/-- The ids are those of the registrations in exactly the sequences of calls in which nobody can tell. -/
theorem identified_iff (cs : List (Call V β)) :
    (calls V β).Meets Identified (calls V β).init cs ↔ (calls V β).Meets Unnoticed (calls V β).init cs := by
  refine (Lts.meets_iff (I := Shifted) ?_ ?_ shifted_init).symm
  · intro s c s' h _
    exact (h.unnoticed_iff c).symm
  · rintro s c s' h ⟨⟩ hc
    exact h.call hc

/-- A callback is not found by the id that was returned for it. -/
theorem not_identified :
    ¬∀ cs : List (Call Unit Nat), (calls Unit Nat).Meets Identified (calls Unit Nat).init cs := by
  intro hall
  have hrun := hall [.add () 7, .get () 1]
  have hget := ((hrun _ rfl).2 _ rfl).1.get () 1 rfl
  revert hget
  decide

end Nemo.Config
