import Mathlib.Data.List.Nodup
import Mathlib.Data.Nat.Basic
import Nemo.Infra.OrderedSet
import Nemo.Infra.Runs
import Nemo.Http.Table

/-!
# The module manager

`src/system/module.cc`. `ModuleSet` is a `std::set` of owning pointers without a comparison of its own,
so it is ordered by the addresses of the modules, and a module is looked up with a temporary module
that has its name. The address of the temporary module is the allocator's choice: it is any address
at which no module is.

`Names` is what the manager is for: the modules by their names. `keyedByName_iff` says in which runs
the manager is that map.
-/

namespace Nemo.System

open Function (update)
open Http Infra

/-- A `Module`. -/
structure Module where
  name : Bytes
  version : Bytes := []
  filename : Bytes := []
  deriving DecidableEq

/-- A `Module::UniquePtr` that is not null. -/
structure ModulePtr where
  address : Nat
  target : Module
  deriving DecidableEq

def ModulePtr.getName (p : ModulePtr) : Bytes := p.target.name

/-- `ModuleManager`. -/
structure ModuleManager where
  modules : List ModulePtr := []

namespace ModuleManager

variable (m : ModuleManager)

/-- `std::make_unique<Module>(name, "", "")`. -/
def tmpModule (name : Bytes) (address : Nat) : ModulePtr := { address, target := { name } }

/-- `modules_.find(tmpModule)`. -/
def find (name : Bytes) (probe : Nat) : Option ModulePtr :=
  OrderedSet.find ModulePtr.address (tmpModule name probe) m.modules

/-- `ModuleManager::get`. -/
def get (name : Bytes) (probe : Nat) : Option ModulePtr := m.find name probe

/-- `ModuleManager::del`, with the modules whose `onUnload` is called. -/
def del (name : Bytes) (probe : Nat) : ModuleManager × List ModulePtr :=
  match m.find name probe with
  | none => (m, [])
  | some p => ({ modules := (OrderedSet.erase ModulePtr.address p m.modules).2 }, [p])

/-- `ModuleManager::add`. -/
def add (p : ModulePtr) (probe : Nat) : ModuleManager × List ModulePtr :=
  let (m, unloaded) := m.del p.getName probe
  ({ modules := OrderedSet.insert ModulePtr.address p m.modules }, unloaded)

/-- `ModuleManager::clear`. -/
def clear : ModuleManager × List ModulePtr := ({ modules := [] }, m.modules)

/-- No module is at the address. -/
def Free (address : Nat) : Prop := ∀ p ∈ m.modules, p.address ≠ address

instance (address : Nat) : Decidable (m.Free address) := List.decidableBAll ..

end ModuleManager

/-- The calls, with the address at which the temporary module is made. -/
inductive Call
  | add (p : ModulePtr) (probe : Nat)
  | del (name : Bytes) (probe : Nat)
  | get (name : Bytes) (probe : Nat)
  | clear

namespace Call

/-- The name under which a call looks for a module. -/
def name : Call → Option Bytes
  | .add p _ => some p.getName
  | .del name _ | .get name _ => some name
  | .clear => none

/-- Modules that are alive at the same time are at different addresses. -/
def Placed (m : ModuleManager) : Call → Prop
  | .add p probe => m.Free p.address ∧ m.Free probe ∧ probe ≠ p.address
  | .del _ probe | .get _ probe => m.Free probe
  | .clear => True

instance (m : ModuleManager) (c : Call) : Decidable (c.Placed m) := by
  unfold Placed
  split <;> infer_instance

end Call

/-- A call, with the modules whose `onUnload` it calls. -/
def ModuleManager.call (m : ModuleManager) : Call → ModuleManager × List ModulePtr
  | .add p probe => m.add p probe
  | .del name probe => m.del name probe
  | .get _ _ => (m, [])
  | .clear => m.clear

/-! ## The map by name -/

/-- The module of each name: the one added last, unless it was deleted since. -/
abbrev Names := Bytes → Option ModulePtr

namespace Names

def call (names : Names) : Call → Names
  | .add p _ => update names p.getName (some p)
  | .del name _ => update names name none
  | .get _ _ => names
  | .clear => fun _ => none

/-- The module is the one of its name. -/
def Holds (names : Names) (p : ModulePtr) : Prop := names p.getName = some p

instance (names : Names) (p : ModulePtr) : Decidable (names.Holds p) := inferInstanceAs (Decidable (_ = _))

/-- A call makes the module leave. -/
def Leaves (names : Names) (c : Call) (p : ModulePtr) : Prop := names.Holds p ∧ ¬(names.call c).Holds p

instance (names : Names) (c : Call) (p : ModulePtr) : Decidable (names.Leaves c p) := instDecidableAnd

end Names

/-- The manager, and the map it should be. -/
structure State where
  manager : ModuleManager := {}
  names : Names := fun _ => none

/-- The calls one after the other. -/
def calls : Lts State Call where
  init := {}
  step s c := if c.Placed s.manager then some ⟨(s.manager.call c).1, s.names.call c⟩ else none

/-- What a call does is what the map by name says. -/
structure KeyedByName (s : State) (c : Call) : Prop where
  get : ∀ name probe, c = .get name probe → s.manager.get name probe = s.names name
  distinct : ((s.manager.call c).1.modules.map ModulePtr.getName).Nodup
  onUnload : ∀ p, (s.manager.call c).2.count p = if s.names.Leaves c p then 1 else 0

/-- A call does not look for the name of a module that is stored. -/
def NamesNoStored (s : State) (c : Call) : Prop :=
  ∀ p ∈ s.manager.modules, c.name ≠ some p.getName

/-! ## Lookups -/

namespace ModuleManager

variable {m : ModuleManager} {name : Bytes} {probe : Nat}

/-- The temporary module is at an address of its own, so nothing is ever found. -/
theorem find_eq_none (h : m.Free probe) : m.find name probe = none := OrderedSet.find_eq_none h

theorem del_eq (h : m.Free probe) : m.del name probe = (m, []) := by
  rw [del, find_eq_none h]

theorem add_eq {p : ModulePtr} (h : m.Free probe) :
    m.add p probe = ({ modules := OrderedSet.insert ModulePtr.address p m.modules }, []) := by
  rw [add, del_eq h]

end ModuleManager

/-- The manager stores the modules of the map. -/
structure Agrees (s : State) : Prop where
  sorted : OrderedSet.Sorted ModulePtr.address s.manager.modules
  names_iff : ∀ name p, s.names name = some p ↔ p ∈ s.manager.modules ∧ p.getName = name

theorem agrees_init : Agrees {} := ⟨.nil, fun name p => by simp⟩

namespace Agrees

variable {s : State} (h : Agrees s)
include h

theorem holds_iff (p : ModulePtr) : s.names.Holds p ↔ p ∈ s.manager.modules := by
  rw [Names.Holds, h.names_iff]
  exact and_iff_left rfl

theorem nodup : s.manager.modules.Nodup :=
  h.sorted.imp fun hlt heq => absurd (congrArg _ heq) (ne_of_lt hlt)

theorem distinct : (s.manager.modules.map ModulePtr.getName).Nodup := by
  refine List.Nodup.map_on ?_ h.nodup
  intro p hp q hq heq
  have hname := (h.holds_iff p).mpr hp
  rw [Names.Holds, heq, (h.holds_iff q).mpr hq] at hname
  exact (Option.some.inj hname).symm

/-- A name that no stored module has is no name of the map. -/
theorem names_eq_none {name : Bytes} (hfree : ∀ p ∈ s.manager.modules, p.getName ≠ name) :
    s.names name = none := by
  cases hname : s.names name with
  | none => rfl
  | some p =>
    obtain ⟨hp, heq⟩ := (h.names_iff name p).mp hname
    exact absurd heq (hfree p hp)

/-- A module that is added under a new name is there besides the others. -/
theorem add {p : ModulePtr} {probe : Nat} (hplaced : (Call.add p probe).Placed s.manager)
    (hnew : NamesNoStored s (.add p probe)) :
    Agrees ⟨(s.manager.add p probe).1, s.names.call (.add p probe)⟩ := by
  obtain ⟨hfree, hprobe, -⟩ := hplaced
  rw [ModuleManager.add_eq hprobe]
  refine ⟨h.sorted.insert p, fun name q => ?_⟩
  rw [OrderedSet.mem_insert_iff h.sorted]
  change update s.names p.getName (some p) name = some q ↔ _
  rw [Function.update_apply]
  split
  · next heq =>
    subst heq
    constructor
    · rintro ⟨⟩
      exact ⟨.inr ⟨rfl, hfree⟩, rfl⟩
    · rintro ⟨hq | ⟨rfl, -⟩, hname⟩
      · exact absurd (congrArg some hname.symm) (hnew q hq)
      · rfl
  · next hne =>
    rw [h.names_iff]
    constructor
    · rintro ⟨hq, rfl⟩
      exact ⟨.inl hq, rfl⟩
    · rintro ⟨hq | ⟨rfl, -⟩, rfl⟩
      · exact ⟨hq, rfl⟩
      · exact absurd rfl hne

/-- Deleting a name that no stored module has changes neither side. -/
theorem del {name : Bytes} {probe : Nat} (hprobe : s.manager.Free probe)
    (hnew : NamesNoStored s (.del name probe)) :
    Agrees ⟨(s.manager.del name probe).1, s.names.call (.del name probe)⟩ := by
  have hnone : s.names name = none :=
    h.names_eq_none fun p hp heq => hnew p hp (congrArg some heq.symm)
  rw [ModuleManager.del_eq hprobe, Names.call, ← hnone, Function.update_eq_self]
  exact h

theorem call {c : Call} (hplaced : c.Placed s.manager) (hnew : NamesNoStored s c) :
    Agrees ⟨(s.manager.call c).1, s.names.call c⟩ := by
  cases c with
  | add p probe => exact h.add hplaced hnew
  | del name probe => exact h.del hplaced hnew
  | get name probe => exact h
  | clear => exact ⟨.nil, fun name p => by simp [Names.call, ModuleManager.call, ModuleManager.clear]⟩

/-- No module leaves by a call that does not look for a stored name, unless all of them do. -/
theorem not_leaves {c : Call} (hclear : c ≠ .clear) (hnew : NamesNoStored s c) (p : ModulePtr) :
    ¬s.names.Leaves c p := by
  rintro ⟨hp, hleft⟩
  have hname : c.name ≠ some p.getName := hnew p ((h.holds_iff p).mp hp)
  refine hleft ?_
  cases c with
  | clear => exact absurd rfl hclear
  | get name probe => exact hp
  | add q probe =>
    rw [Names.Holds, Names.call, Function.update_of_ne fun heq => hname (congrArg some heq.symm)]
    exact hp
  | del name probe =>
    rw [Names.Holds, Names.call, Function.update_of_ne fun heq => hname (congrArg some heq.symm)]
    exact hp

theorem keyedByName {c : Call} (hplaced : c.Placed s.manager) (hnew : NamesNoStored s c) :
    KeyedByName s c := by
  refine ⟨?_, (h.call hplaced hnew).distinct, fun p => ?_⟩
  · rintro name probe rfl
    rw [ModuleManager.get, ModuleManager.find_eq_none hplaced]
    exact (h.names_eq_none fun p hp heq => hnew p hp (congrArg some heq.symm)).symm
  · cases c with
    | add q probe =>
      rw [if_neg (h.not_leaves (c := .add q probe) nofun hnew p), ModuleManager.call,
        ModuleManager.add_eq hplaced.2.1]
      rfl
    | del name probe =>
      rw [if_neg (h.not_leaves (c := .del name probe) nofun hnew p), ModuleManager.call,
        ModuleManager.del_eq hplaced]
      rfl
    | get name probe =>
      rw [if_neg (h.not_leaves (c := .get name probe) nofun hnew p)]
      rfl
    | clear =>
      have hleaves : s.names.Leaves .clear p ↔ p ∈ s.manager.modules := by
        rw [Names.Leaves, h.holds_iff]
        exact and_iff_left nofun
      rw [ModuleManager.call, ModuleManager.clear, List.Nodup.count h.nodup]
      simp only [hleaves]

/-- A stored module whose name is looked for is not found, and does not leave. -/
theorem not_keyedByName {c : Call} (hplaced : c.Placed s.manager) {p : ModulePtr}
    (hp : p ∈ s.manager.modules) (hname : c.name = some p.getName) : ¬KeyedByName s c := by
  intro hkeyed
  have hholds : s.names.Holds p := (h.holds_iff p).mpr hp
  cases c with
  | clear => cases hname
  | get name probe =>
    cases hname
    have hget := hkeyed.get _ _ rfl
    rw [ModuleManager.get, ModuleManager.find_eq_none hplaced, hholds] at hget
    cases hget
  | del name probe =>
    cases hname
    have hleaves : s.names.Leaves (.del p.getName probe) p := ⟨hholds, by simp [Names.Holds, Names.call]⟩
    have hcount := hkeyed.onUnload p
    rw [if_pos hleaves, ModuleManager.call, ModuleManager.del_eq hplaced] at hcount
    cases hcount
  | add q probe =>
    rw [Call.name, Option.some.injEq] at hname
    have hne : q ≠ p := fun heq => hplaced.1 p hp (congrArg _ heq.symm)
    have hleaves : s.names.Leaves (.add q probe) p := by
      refine ⟨hholds, ?_⟩
      simpa [Names.Holds, Names.call, hname] using hne
    have hcount := hkeyed.onUnload p
    rw [if_pos hleaves, ModuleManager.call, ModuleManager.add_eq hplaced.2.1] at hcount
    cases hcount

end Agrees

/-! ## Runs -/

theorem calls_step {s s' : State} {c : Call} (hstep : calls.step s c = some s') :
    c.Placed s.manager ∧ s' = ⟨(s.manager.call c).1, s.names.call c⟩ := by
  simp only [calls, Option.ite_none_right_eq_some, Option.some.injEq] at hstep
  exact ⟨hstep.1, hstep.2.symm⟩

/--
The manager is the map by name in exactly the runs in which no call looks for the name of a module that
is stored: nothing can be replaced, deleted or got.
-/
theorem keyedByName_iff (cs : List Call) :
    calls.Meets KeyedByName calls.init cs ↔ calls.Meets NamesNoStored calls.init cs := by
  refine (Lts.meets_iff (I := Agrees) ?_ ?_ agrees_init).symm
  · intro s c s' h hstep
    obtain ⟨hplaced, -⟩ := calls_step hstep
    constructor
    · exact h.keyedByName hplaced
    · intro hkeyed p hp hname
      exact h.not_keyedByName hplaced hp hname hkeyed
  · intro s c s' h hstep hnew
    obtain ⟨hplaced, rfl⟩ := calls_step hstep
    exact h.call hplaced hnew

/-- A module that was added is not found. -/
theorem not_keyedByName_all : ¬∀ cs : List Call, calls.Meets KeyedByName calls.init cs := by
  intro hall
  have hrun := hall [.add ⟨1, { name := ascii "echo" }⟩ 2, .get (ascii "echo") 2] _ rfl
  have hget := (hrun.2 _ rfl).1.get _ _ rfl
  revert hget
  decide

end Nemo.System
