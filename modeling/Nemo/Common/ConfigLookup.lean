import Mathlib.Logic.Function.Basic
import Nemo.Http.Table
import Nemo.Infra.Runs

/-!
# Concurrent `Config::Lookup`

`Config::Lookup(name, defaultValue, description)` and `LookupBase` in `include/common/config.h`. A call
looks for the name with the mutex held shared, makes a `ConfigVar` without it, and passes it to `emplace`
with the mutex held alone. `emplace` destroys the `unique_ptr` it is passed if the name is there already,
and the call returns the pointer all the same.

`singleAssignment_iff` says in which runs registration is a map that is assigned once.
-/

namespace Nemo.Config

open Function (update)
open Http Infra

/-- `[a-z0-9._]`. -/
def nameChar (b : UInt8) : Bool :=
  (97 ≤ b.toNat && b.toNat ≤ 122) || (48 ≤ b.toNat && b.toNat ≤ 57) || b == 46 || b == 95

/-- `std::regex_search(name, "[^a-z0-9._]")` finds nothing. -/
def validName (name : Bytes) : Bool := name.all nameChar

/-- A `ConfigVar<T>` as it is made: its name, its type and its default value. -/
structure ConfigVar (T V : Type) where
  name : Bytes
  type : T
  defaultValue : V
  description : Bytes := []

/-- A `ConfigVar` by the number of the `new` that made it. -/
abbrev VarId := Nat

/-- Where a call of `Lookup` is. -/
inductive LookupCall (T V : Type)
  /-- it has not found the name, which is valid -/
  | missing (var : ConfigVar T V)
  /-- it has made a `ConfigVar` -/
  | made (id : VarId) (var : ConfigVar T V)
  /-- it has returned the variable, or what was one -/
  | returned (name : Bytes) (id : VarId)
  /-- it has thrown `std::invalid_argument` -/
  | thrown

/-- `GetDatas()`, the variables that have been made and those that have been destroyed, and the calls. -/
structure Registry (C T V : Type) where
  datas : Bytes → Option VarId := fun _ => none
  vars : List (ConfigVar T V) := []
  destroyed : List VarId := []
  calls : C → Option (LookupCall T V) := fun _ => none

/-- `LookupBase`. -/
def Registry.lookupBase {C T V : Type} (s : Registry C T V) (name : Bytes) : Option VarId := s.datas name

/-- The steps of a call. -/
inductive Lookup (C T V : Type)
  | find (c : C) (var : ConfigVar T V)
  | allocate (c : C)
  | emplace (c : C)

section

variable {C T V : Type} [DecidableEq C] [DecidableEq T]

/-- One step. Where the types differ, `down_cast` ends a debug build, and casts in another one. -/
def Registry.step (debug : Bool) (s : Registry C T V) : Lookup C T V → Option (Registry C T V)
  | .find c var =>
    match s.calls c with
    | some _ => none
    | none =>
      match s.datas var.name with
      | some id =>
        if debug && (s.vars[id]?.map ConfigVar.type) != some var.type then none
        else some { s with calls := update s.calls c (some (.returned var.name id)) }
      | none =>
        if validName var.name then some { s with calls := update s.calls c (some (.missing var)) }
        else some { s with calls := update s.calls c (some .thrown) }
  | .allocate c =>
    match s.calls c with
    | some (.missing var) =>
      some { s with
        vars := s.vars ++ [var]
        calls := update s.calls c (some (.made s.vars.length var)) }
    | _ => none
  | .emplace c =>
    match s.calls c with
    | some (.made id var) =>
      match s.datas var.name with
      | some _ =>
        some { s with
          destroyed := id :: s.destroyed
          calls := update s.calls c (some (.returned var.name id)) }
      | none =>
        some { s with
          datas := update s.datas var.name (some id)
          calls := update s.calls c (some (.returned var.name id)) }
    | _ => none

/-- Any number of calls. -/
def lookups (C T V : Type) [DecidableEq C] [DecidableEq T] (debug : Bool) :
    Lts (Registry C T V) (Lookup C T V) where
  init := {}
  step := Registry.step debug

/-- Each call has returned the variable that is found under its name, which the map owns. -/
def Registry.SingleAssignment (s : Registry C T V) : Prop :=
  ∀ c name id, s.calls c = some (.returned name id) →
    s.lookupBase name = some id ∧ id ∉ s.destroyed

omit [DecidableEq C] [DecidableEq T] in
/-- What every call with a name returns is the same. -/
theorem Registry.SingleAssignment.eq {s : Registry C T V} (h : s.SingleAssignment) {c d : C}
    {name : Bytes} {id id' : VarId} (hc : s.calls c = some (.returned name id))
    (hd : s.calls d = some (.returned name id')) : id = id' :=
  Option.some.inj ((h c name id hc).1.symm.trans (h d name id' hd).1)

/-- A step keeps registration a map that is assigned once. -/
def AssignsOnce (debug : Bool) (s : Registry C T V) (a : Lookup C T V) : Prop :=
  ∀ s', s.step debug a = some s' → s'.SingleAssignment

/-- No other call has registered the name between the two sections. -/
def FindsFree (s : Registry C T V) : Lookup C T V → Prop
  | .emplace c => ∀ id var, s.calls c = some (.made id var) → s.datas var.name = none
  | _ => True

/-- What is known between the steps. -/
structure Registered (s : Registry C T V) : Prop where
  single : s.SingleAssignment
  destroyed : s.destroyed = []

theorem registered_init {debug : Bool} : Registered (lookups C T V debug).init :=
  ⟨fun _ _ _ => nofun, rfl⟩

namespace Registered

variable {debug : Bool} {s s' : Registry C T V} (h : Registered s)
include h

omit [DecidableEq T] in
/-- A call goes on; if it returns, it returns what is found under the name. -/
theorem update_calls {t : Registry C T V} {c : C} {call : LookupCall T V}
    (hcalls : t.calls = update s.calls c (some call)) (hdestroyed : t.destroyed = s.destroyed)
    (hdatas : ∀ name id, s.datas name = some id → t.datas name = some id)
    (hreturned : ∀ name id, call = .returned name id → t.datas name = some id) : Registered t := by
  have hnone : t.destroyed = [] := hdestroyed.trans h.destroyed
  refine ⟨fun d name id hd => ⟨?_, by simp [hnone]⟩, hnone⟩
  rw [hcalls, Function.update_apply] at hd
  split at hd
  · exact hreturned name id (Option.some.inj hd)
  · exact hdatas name id (h.single d name id hd).1

theorem find {c : C} {var : ConfigVar T V} (hstep : s.step debug (.find c var) = some s') :
    Registered s' := by
  simp only [Registry.step] at hstep
  split at hstep
  · cases hstep
  split at hstep
  · next id hid =>
    split at hstep
    · cases hstep
    · cases hstep
      refine h.update_calls rfl rfl (fun _ _ hname => hname) ?_
      rintro _ _ ⟨⟩
      exact hid
  · split at hstep
    · cases hstep
      exact h.update_calls rfl rfl (fun _ _ => id) nofun
    · cases hstep
      exact h.update_calls rfl rfl (fun _ _ => id) nofun

theorem allocate {c : C} (hstep : s.step debug (.allocate c) = some s') : Registered s' := by
  simp only [Registry.step] at hstep
  split at hstep
  · cases hstep
    exact h.update_calls rfl rfl (fun _ _ => id) nofun
  · cases hstep

theorem emplace {c : C} (hstep : s.step debug (.emplace c) = some s') (hfree : FindsFree s (.emplace c)) :
    Registered s' := by
  simp only [Registry.step] at hstep
  split at hstep
  · next id var hc =>
    simp only [hfree id var hc] at hstep
    cases hstep
    refine h.update_calls (t := { s with
      datas := update s.datas var.name (some id), calls := update s.calls c (some (.returned var.name id)) })
      rfl rfl (fun name id' hid' => ?_) ?_
    · have hne : name ≠ var.name := by
        rintro rfl
        rw [hfree id var hc] at hid'
        cases hid'
      exact (Function.update_of_ne hne ..).trans hid'
    · rintro _ _ ⟨⟩
      exact Function.update_self ..
  · cases hstep

theorem step {a : Lookup C T V} (hstep : s.step debug a = some s') (hfree : FindsFree s a) :
    Registered s' := by
  cases a with
  | find c var => exact h.find hstep
  | allocate c => exact h.allocate hstep
  | emplace c => exact h.emplace hstep hfree

omit h in
/-- A variable that is passed to `emplace` too late is destroyed, and returned. -/
theorem findsFree_of_single {a : Lookup C T V} (hstep : s.step debug a = some s')
    (hsingle : s'.SingleAssignment) : FindsFree s a := by
  cases a with
  | find c var => trivial
  | allocate c => trivial
  | emplace c =>
    intro id var hc
    cases hid : s.datas var.name with
    | none => rfl
    | some id' =>
      simp only [Registry.step, hc, hid, Option.some.injEq] at hstep
      subst hstep
      exact absurd List.mem_cons_self (hsingle c var.name id (Function.update_self ..)).2

theorem assignsOnce_iff {a : Lookup C T V} (hstep : s.step debug a = some s') :
    AssignsOnce debug s a ↔ FindsFree s a := by
  constructor
  · intro hassigns
    exact findsFree_of_single hstep (hassigns s' hstep)
  · intro hfree t ht
    exact (h.step ht hfree).single

end Registered

/--
Registration is a map that is assigned once in exactly the runs in which no name is registered between
the two sections of another call that registers it.
-/
theorem singleAssignment_iff (debug : Bool) (as : List (Lookup C T V)) :
    (lookups C T V debug).Meets (AssignsOnce debug) (lookups C T V debug).init as
      ↔ (lookups C T V debug).Meets FindsFree (lookups C T V debug).init as := by
  refine (Lts.meets_iff (I := Registered) ?_ ?_ registered_init).symm
  · intro s a s' h hstep
    exact (h.assignsOnce_iff hstep).symm
  · intro s a s' h hstep hfree
    exact h.step hstep hfree

end

/-- Two calls that both miss the name. -/
theorem not_singleAssignment : ¬∀ as : List (Lookup Bool Unit Nat),
    (lookups Bool Unit Nat false).Meets (AssignsOnce false) (lookups Bool Unit Nat false).init as := by
  intro hall
  let var : ConfigVar Unit Nat := { name := ascii "module.path", type := (), defaultValue := 0 }
  have hlast := (hall ([.find false var, .find true var, .allocate false, .allocate true,
    .emplace false] ++ [.emplace true])).last rfl rfl
  have hsame := (hlast _ rfl).eq (c := false) (d := true) rfl rfl
  revert hsame
  decide

end Nemo.Config
