import Mathlib.Data.Nat.Prime.Basic
import Nemo.Coroutine.Balance
import Nemo.Coroutine.Moves
import Nemo.Infra.Cycle

/-!
# Where a new task is placed

`nextTaskAcceptableProcessor` and the overloads of `Scheduler::addTask` for one task. Which processors are active
does not change while tasks are added.

The overload for `Task&&` asks for a processor only to see that there is one, and leaves the task to the
overload for `Task::UniquePtr&&`, which asks again. So it goes on by two processors, the others by one.
-/

namespace Nemo.Coroutine

open Function (update)
open Infra.Cycle

variable {n : Nat}

/-- What `nextTaskAcceptableProcessor` reads. An index is an index of `processors_`. -/
structure Dispatcher (n : Nat) where
  processors : Fin n → Processor
  active : Fin n → Bool
  lastActiveProcessorIndex : Fin n

/-- `(index + 1) % processorCount` -/
def nextIndex (index : Fin n) : Fin n := ⟨(index + 1) % n, Nat.mod_lt _ index.pos⟩

/-- The rounds of the loop: the index of the processor that it returns. -/
def probe (active : Fin n → Bool) : Nat → Fin n → Option (Fin n)
  | 0, _ => none
  | rounds + 1, index =>
    let index := nextIndex index
    if active index then some index else probe active rounds index

namespace Dispatcher

/-- `nextTaskAcceptableProcessor` -/
def nextTaskAcceptableProcessor (s : Dispatcher n) : Option (Fin n) × Dispatcher n :=
  match probe s.active n s.lastActiveProcessorIndex with
  | some index => (some index, { s with lastActiveProcessorIndex := index })
  | none => (none, s)

/-- `getTaskAcceptableProcessor` -/
def getTaskAcceptableProcessor (s : Dispatcher n) : Option (Fin n) × Dispatcher n :=
  s.nextTaskAcceptableProcessor

/-- The overloads of `addTask` for one task. -/
inductive SingleTask
  /-- `Task&&` -/
  | task
  /-- `Task::UniquePtr&&` -/
  | uniquePtr
  /-- `const Callback&` -/
  | constCallback
  /-- `Callback&&` -/
  | callback
  deriving DecidableEq, Repr

/-- The overload for `Task::UniquePtr&&`. Without a processor there is only a warning. -/
def addUniquePtr (s : Dispatcher n) (t : TaskId) : Dispatcher n :=
  match s.getTaskAcceptableProcessor with
  | (some index, s) => { s with processors := give s.processors index [t] }
  | (none, s) => s

/-- The overload for `Task&&`. -/
def addMoved (s : Dispatcher n) (t : TaskId) : Dispatcher n :=
  match s.getTaskAcceptableProcessor with
  | (some _, s) => s.addUniquePtr t
  | (none, s) => s

/-- The overloads for `const Callback&` and for `Callback&&`. -/
def addCallback (s : Dispatcher n) (t : TaskId) : Dispatcher n :=
  match s.nextTaskAcceptableProcessor with
  | (some index, s) => { s with processors := give s.processors index [t] }
  | (none, s) => s

def addTask (s : Dispatcher n) : SingleTask → TaskId → Dispatcher n
  | .task, t => s.addMoved t
  | .uniquePtr, t => s.addUniquePtr t
  | .constCallback, t => s.addCallback t
  | .callback, t => s.addCallback t

/-- Calls of `addTask`, one after the other. -/
def addTasks (s : Dispatcher n) : List (SingleTask × TaskId) → Dispatcher n
  | [] => s
  | (overload, t) :: calls => (s.addTask overload t).addTasks calls

/-- The number of active processors. -/
def activeCount (s : Dispatcher n) : Nat := (members s.active).length

/--
The tasks are behind what the active processors had in their queues, each of them once, and every active
processor has got its part of them, rounded down or up.
-/
def PlacedEvenly (s s' : Dispatcher n) (tasks : List TaskId) : Prop :=
  ∃ share : Fin n → List TaskId,
    (∀ i, (s'.processors i).newQue = (s.processors i).newQue ++ share i) ∧
      (∀ i, s.active i = false → share i = []) ∧
      ∑ i, (share i : Multiset TaskId) = tasks ∧
      ∀ i, s.active i = true → (share i).length = tasks.length / s.activeCount ∨
        (share i).length = (tasks.length + s.activeCount - 1) / s.activeCount

/-! ## The next processor -/

/-- The loop begins behind the index. -/
theorem rotate_eq_nextIndex_cons (index : Fin n) : ∃ rest,
    (List.finRange n).rotate (index + 1) = nextIndex index :: rest ∧
      (List.finRange n).rotate (nextIndex index + 1) = rest ++ [nextIndex index] := by
  have hlength : 0 < ((List.finRange n).rotate (index + 1)).length := by
    rw [List.length_rotate, List.length_finRange]
    exact index.pos
  obtain ⟨x, rest, hcons⟩ := List.exists_cons_of_length_pos hlength
  have hx : x = nextIndex index := by
    have hget : ((List.finRange n).rotate (index + 1))[0] = nextIndex index := by
      rw [List.getElem_rotate, List.getElem_finRange]
      simp only [Nat.zero_add, List.length_finRange]
      rfl
    simp only [hcons, List.getElem_cons_zero] at hget
    exact hget
  subst hx
  refine ⟨rest, hcons, ?_⟩
  have hmod : (List.finRange n).rotate (nextIndex index) = nextIndex index :: rest := by
    rw [← hcons, ← List.rotate_mod _ (index + 1), List.length_finRange]
    rfl
  rw [← List.rotate_rotate, hmod, List.rotate_cons_succ, List.rotate_zero]

theorem probe_eq_find?_take (active : Fin n → Bool) : ∀ (rounds : Nat) (index : Fin n), rounds ≤ n →
    probe active rounds index = (((List.finRange n).rotate (index + 1)).take rounds).find? active
  | 0, _, _ => rfl
  | rounds + 1, index, hle => by
    obtain ⟨rest, hcons, happend⟩ := rotate_eq_nextIndex_cons index
    have hlength : rest.length + 1 = n := by
      rw [← List.length_cons, ← hcons, List.length_rotate, List.length_finRange]
    have ih := probe_eq_find?_take active rounds (nextIndex index) (by omega)
    rw [happend, List.take_append_of_le_length (by omega)] at ih
    rw [hcons, List.take_succ_cons, List.find?_cons]
    unfold probe
    dsimp only
    split
    · next hactive => rw [hactive]
    · next hactive => rw [Bool.not_eq_true _ |>.mp hactive, ih]

theorem probe_eq_find? (active : Fin n → Bool) (index : Fin n) :
    probe active n index = ((List.finRange n).rotate (index + 1)).find? active := by
  have htake : ((List.finRange n).rotate (index + 1)).take n = (List.finRange n).rotate (index + 1) := by
    refine List.take_of_length_le ?_
    rw [List.length_rotate, List.length_finRange]
  rw [probe_eq_find?_take active n index (Nat.le_refl n), htake]

/-- The next place is the number of members up to the last one. -/
def cursor (s : Dispatcher n) : Nat := upTo s.active s.lastActiveProcessorIndex

theorem nextTaskAcceptableProcessor_eq {s : Dispatcher n} (h : members s.active ≠ []) :
    s.nextTaskAcceptableProcessor = (some (member h s.cursor),
      { s with lastActiveProcessorIndex := member h s.cursor }) := by
  unfold nextTaskAcceptableProcessor
  rw [probe_eq_find?, find?_rotate_eq_member h]
  rfl

/-! ## One call -/

/-- How many processors an overload goes on by. -/
def SingleTask.width : SingleTask → Nat
  | .task => 2
  | _ => 1

theorem SingleTask.width_pos (overload : SingleTask) : 0 < overload.width := by
  cases overload <;> decide

theorem SingleTask.width_eq_one {overload : SingleTask} (h : overload ≠ .task) : overload.width = 1 := by
  cases overload with
  | task => exact absurd rfl h
  | _ => rfl

theorem addUniquePtr_eq {s : Dispatcher n} (h : members s.active ≠ []) (t : TaskId) :
    s.addUniquePtr t = { s with
      processors := give s.processors (member h s.cursor) [t]
      lastActiveProcessorIndex := member h s.cursor } := by
  unfold addUniquePtr getTaskAcceptableProcessor
  rw [nextTaskAcceptableProcessor_eq h]

theorem addMoved_eq {s : Dispatcher n} (h : members s.active ≠ []) (t : TaskId) :
    s.addMoved t = { s with lastActiveProcessorIndex := member h s.cursor }.addUniquePtr t := by
  unfold addMoved getTaskAcceptableProcessor
  rw [nextTaskAcceptableProcessor_eq h]

theorem cursor_member {s : Dispatcher n} (h : members s.active ≠ []) (procs : Fin n → Processor) (r : Nat) :
    { s with processors := procs, lastActiveProcessorIndex := member h r }.cursor % s.activeCount =
      (r + 1) % s.activeCount :=
  upTo_member h r

theorem addUniquePtr_places (s : Dispatcher n) (h : members s.active ≠ []) {r : Nat}
    (hr : r % s.activeCount = s.cursor % s.activeCount) (t : TaskId) :
    (s.addUniquePtr t).active = s.active ∧
      (s.addUniquePtr t).processors = give s.processors (member h r) [t] ∧
      (r + 1) % s.activeCount = (s.addUniquePtr t).cursor % s.activeCount := by
  have hmember : member h s.cursor = member h r := (member_inj h).mpr hr.symm
  rw [addUniquePtr_eq h, hmember]
  exact ⟨rfl, rfl, (cursor_member h _ r).symm⟩

/-- What one call does: it goes on by the width of its overload and places the task there. -/
theorem addTask_places {s : Dispatcher n} (h : members s.active ≠ []) {r : Nat}
    (hr : r % s.activeCount = s.cursor % s.activeCount) (overload : SingleTask) (t : TaskId) :
    (s.addTask overload t).active = s.active ∧
      (s.addTask overload t).processors = give s.processors (member h (r + overload.width - 1)) [t] ∧
      (r + overload.width) % s.activeCount = (s.addTask overload t).cursor % s.activeCount := by
  cases overload with
  | task =>
    -- the first processor is only asked for
    have heq : s.addTask .task t = { s with lastActiveProcessorIndex := member h r }.addUniquePtr t := by
      rw [← (member_inj h).mpr hr.symm]
      exact addMoved_eq h t
    have hcursor : (r + 1) % s.activeCount =
        { s with lastActiveProcessorIndex := member h r }.cursor % s.activeCount :=
      (cursor_member h s.processors r).symm
    rw [heq]
    exact addUniquePtr_places { s with lastActiveProcessorIndex := member h r } h hcursor t
  | uniquePtr => exact addUniquePtr_places s h hr t
  | constCallback => exact addUniquePtr_places s h hr t
  | callback => exact addUniquePtr_places s h hr t

/-! ## All calls -/

/-- The places of the calls, counted from `r` on. -/
def placements (r : Nat) : List (SingleTask × TaskId) → List (Nat × TaskId)
  | [] => []
  | (overload, t) :: calls => (r + overload.width - 1, t) :: placements (r + overload.width) calls

/-- The places alone. -/
def positions (r : Nat) : List SingleTask → List Nat
  | [] => []
  | overload :: overloads => (r + overload.width - 1) :: positions (r + overload.width) overloads

/-- What is placed at `i`. -/
def shareOf (place : Nat → Fin n) (placed : List (Nat × TaskId)) (i : Fin n) : List TaskId :=
  (placed.filter fun x => place x.1 = i).map Prod.snd

theorem map_snd_placements : ∀ (r : Nat) (calls : List (SingleTask × TaskId)),
    (placements r calls).map Prod.snd = calls.map Prod.snd
  | _, [] => rfl
  | r, (overload, t) :: calls => by
    rw [placements, List.map_cons, List.map_cons, map_snd_placements]

theorem map_fst_placements : ∀ (r : Nat) (calls : List (SingleTask × TaskId)),
    (placements r calls).map Prod.fst = positions r (calls.map Prod.fst)
  | _, [] => rfl
  | r, (overload, t) :: calls => by
    rw [placements, List.map_cons, map_fst_placements, List.map_cons, positions]

theorem newQue_give (procs : Fin n → Processor) (i j : Fin n) (t : TaskId) :
    (give procs j [t] i).newQue = (procs i).newQue ++ if j = i then [t] else [] := by
  unfold give Processor.addTask
  by_cases hij : j = i
  · rw [hij, Function.update_self, notifiNewQueCondition_newQue, if_pos rfl]
  · rw [Function.update_of_ne (Ne.symm hij), if_neg hij, List.append_nil]

/-- The queues after all calls. -/
theorem newQue_addTasks {active : Fin n → Bool} (h : members active ≠ []) :
    ∀ (calls : List (SingleTask × TaskId)) {s : Dispatcher n} {r : Nat}, s.active = active →
    r % s.activeCount = s.cursor % s.activeCount → ∀ i,
    ((s.addTasks calls).processors i).newQue =
      (s.processors i).newQue ++ shareOf (member h) (placements r calls) i
  | [], s, r, _, _, i => (List.append_nil _).symm
  | (overload, t) :: calls, s, r, hactive, hr, i => by
    subst hactive
    obtain ⟨hactive, hprocessors, hcursor⟩ := addTask_places h hr overload t
    have hcount : (s.addTask overload t).activeCount = s.activeCount := by
      rw [activeCount, hactive]
      rfl
    rw [← hcount] at hcursor
    rw [addTasks, newQue_addTasks h calls hactive hcursor i, hprocessors, newQue_give, List.append_assoc,
      placements, shareOf, shareOf, List.filter_cons]
    by_cases hi : member h (r + overload.width - 1) = i
    · simp only [hi, if_true, decide_true, List.map_cons, List.singleton_append]
    · simp only [hi, if_false, decide_false, List.nil_append, Bool.false_eq_true]

theorem sum_shareOf (place : Nat → Fin n) : ∀ placed : List (Nat × TaskId),
    ∑ i, (shareOf place placed i : Multiset TaskId) = placed.map Prod.snd
  | [] => by
    simp only [shareOf, List.filter_nil, List.map_nil, Multiset.coe_nil, Finset.sum_const_zero]
  | (r, t) :: placed => by
    have hcons : ∀ i, (shareOf place ((r, t) :: placed) i : Multiset TaskId) =
        (if place r = i then {t} else 0) + (shareOf place placed i : Multiset TaskId) := by
      intro i
      rw [shareOf, shareOf, List.filter_cons]
      by_cases hi : place r = i
      · simp only [hi, if_true, decide_true, List.map_cons]
        rfl
      · simp only [hi, if_false, decide_false, Bool.false_eq_true, zero_add]
    rw [Finset.sum_congr rfl fun i _ => hcons i, Finset.sum_add_distrib, Finset.sum_ite_eq,
      if_pos (Finset.mem_univ _), sum_shareOf place placed]
    rfl

theorem shareOf_eq_nil {active : Fin n → Bool} (h : members active ≠ []) (placed : List (Nat × TaskId))
    {i : Fin n} (hi : active i = false) : shareOf (member h) placed i = [] := by
  rw [shareOf, List.map_eq_nil_iff, List.filter_eq_nil_iff]
  intro x _ heq
  have hmem := member_mem h x.1
  rw [of_decide_eq_true heq, hi] at hmem
  exact Bool.false_ne_true hmem

theorem length_shareOf {active : Fin n → Bool} (h : members active ≠ []) (placed : List (Nat × TaskId))
    (c : Nat) : (shareOf (member h) placed (member h c)).length =
      (placed.map Prod.fst).countP fun r => r % (members active).length = c % (members active).length := by
  rw [shareOf, List.length_map, ← List.countP_eq_length_filter, List.countP_map]
  congr 1
  funext x
  exact decide_eq_decide.mpr (member_inj h)

/-- The calls are placed evenly when every member comes up the same number of times, up to one. -/
theorem placedEvenly_iff {s : Dispatcher n} (h : members s.active ≠ []) (calls : List (SingleTask × TaskId)) :
    PlacedEvenly s (s.addTasks calls) (calls.map Prod.snd) ↔ ∀ c,
      (positions s.cursor (calls.map Prod.fst)).countP (fun r => r % s.activeCount = c % s.activeCount) =
          calls.length / s.activeCount ∨
        (positions s.cursor (calls.map Prod.fst)).countP (fun r => r % s.activeCount = c % s.activeCount) =
          (calls.length + s.activeCount - 1) / s.activeCount := by
  have hqueues := newQue_addTasks h calls rfl rfl
  rw [← map_fst_placements]
  constructor
  · rintro ⟨share, hshare, -, -, heven⟩ c
    have hlength := length_shareOf h (placements s.cursor calls) c
    have hsame : share (member h c) = shareOf (member h) (placements s.cursor calls) (member h c) :=
      List.append_cancel_left ((hshare _).symm.trans (hqueues _))
    have := heven (member h c) (member_mem h c)
    rw [hsame, hlength, List.length_map] at this
    exact this
  · intro hcount
    refine ⟨shareOf (member h) (placements s.cursor calls), hqueues, fun i hi => shareOf_eq_nil h _ hi, ?_, ?_⟩
    · rw [sum_shareOf, map_snd_placements]
    · intro i hi
      obtain ⟨c, -, rfl⟩ := exists_member h hi
      rw [length_shareOf, List.length_map]
      exact hcount c

/-! ## Calls of one width -/

theorem length_positions : ∀ (r : Nat) (overloads : List SingleTask),
    (positions r overloads).length = overloads.length
  | _, [] => rfl
  | r, overload :: overloads => by
    rw [positions, List.length_cons, length_positions, List.length_cons]

theorem positions_of_width {w : Nat} (hw : 0 < w) : ∀ (r : Nat) (overloads : List SingleTask),
    (∀ o ∈ overloads, o.width = w) →
    positions r overloads = (List.range overloads.length).map fun j => r + w - 1 + w * j
  | _, [], _ => rfl
  | r, overload :: overloads, hwidth => by
    obtain ⟨hfirst, hrest⟩ := List.forall_mem_cons.mp hwidth
    obtain rfl : overload.width = w := hfirst
    rw [positions, positions_of_width hw _ overloads hrest, List.length_cons,
      List.range_succ_eq_map, List.map_cons, List.map_map]
    refine congrArg₂ _ rfl (List.map_congr_left fun j _ => ?_)
    simp only [Function.comp_apply, Nat.mul_succ]
    omega

/-- Calls that go on by a width coprime to the number of active processors are placed evenly. -/
theorem placedEvenly_of_width {s : Dispatcher n} (h : members s.active ≠ []) {w : Nat} (hw : 0 < w)
    (hcoprime : Nat.Coprime s.activeCount w) {calls : List (SingleTask × TaskId)}
    (hwidth : ∀ x ∈ calls, x.1.width = w) :
    PlacedEvenly s (s.addTasks calls) (calls.map Prod.snd) := by
  refine (placedEvenly_iff h calls).mpr fun c => ?_
  rw [positions_of_width hw _ _ (List.forall_mem_map.mpr hwidth), List.countP_map, List.length_map]
  exact count_step (List.length_pos_of_ne_nil h) hcoprime _ c _

/-- One active processor gets everything. -/
theorem placedEvenly_of_single {s : Dispatcher n} (h : members s.active ≠ []) (hone : s.activeCount = 1)
    (calls : List (SingleTask × TaskId)) : PlacedEvenly s (s.addTasks calls) (calls.map Prod.snd) := by
  refine (placedEvenly_iff h calls).mpr fun c => .inl ?_
  have hlength : (positions s.cursor (calls.map Prod.fst)).length = calls.length := by
    rw [length_positions, List.length_map]
  rw [hone, Nat.div_one, ← hlength, List.countP_eq_length]
  intro r _
  rw [Nat.mod_one, Nat.mod_one, decide_eq_true rfl]

/-! ## Calls that come back too early -/

/-- What the callers may do: tasks that are added once each, by some of the overloads. -/
def SpreadsEvenly (s : Dispatcher n) (overloads : Set SingleTask) : Prop :=
  ∀ calls : List (SingleTask × TaskId), (∀ x ∈ calls, x.1 ∈ overloads) → (calls.map Prod.snd).Nodup →
    PlacedEvenly s (s.addTasks calls) (calls.map Prod.snd)

theorem positions_append : ∀ (r : Nat) (front back : List SingleTask),
    positions r (front ++ back) = positions r front ++ positions (r + (front.map SingleTask.width).sum) back
  | _, [], _ => rfl
  | r, overload :: front, back => by
    rw [List.cons_append, positions, positions_append, positions, List.map_cons, List.sum_cons, Nat.add_assoc,
      List.cons_append]

/--
At most one call for every active processor, but the last one is placed where the first one is: `k` calls of
`first` between them go on all the way round.
-/
theorem not_spreadsEvenly_of_return {s : Dispatcher n} (h : members s.active ≠ []) {overloads : Set SingleTask}
    {first last : SingleTask} (hfirst : first ∈ overloads) (hlast : last ∈ overloads) {k : Nat}
    (hlength : k + 2 ≤ s.activeCount) (hreturn : k * first.width + last.width = s.activeCount) :
    ¬ SpreadsEvenly s overloads := by
  intro heven
  let chosen := first :: (List.replicate k first ++ [last])
  have hchosen : ∀ x ∈ chosen.zipIdx, x.1 ∈ overloads := by
    intro x hx
    rcases List.mem_cons.mp (List.fst_mem_of_mem_zipIdx hx) with h | h
    · exact h ▸ hfirst
    · rcases List.mem_append.mp h with h | h
      · exact (List.eq_of_mem_replicate h) ▸ hfirst
      · exact (List.mem_singleton.mp h) ▸ hlast
  have hnodup : (chosen.zipIdx.map Prod.snd).Nodup := by
    rw [List.zipIdx_map_snd]
    exact List.nodup_range'
  have htwo : 2 ≤ (positions s.cursor (chosen.zipIdx.map Prod.fst)).countP
      fun q => q % s.activeCount = (s.cursor + first.width - 1) % s.activeCount := by
    have hback : (s.cursor + first.width + k * first.width + last.width - 1) % s.activeCount =
        (s.cursor + first.width - 1) % s.activeCount := by
      have hwidth := first.width_pos
      have hadd : s.cursor + first.width + k * first.width + last.width - 1 =
          s.cursor + first.width - 1 + s.activeCount := by omega
      rw [hadd, Nat.add_mod_right]
    rw [List.zipIdx_map_fst, positions, positions_append, List.map_replicate, List.sum_replicate_nat, positions,
      positions, List.countP_cons, List.countP_append, List.countP_singleton, hback]
    simp only [decide_true, if_true]
    omega
  have hcount : chosen.zipIdx.length = k + 2 := by
    rw [List.length_zipIdx, List.length_cons, List.length_append, List.length_replicate]
    rfl
  have hpos : 0 < s.activeCount := List.length_pos_of_ne_nil h
  have hfloor : chosen.zipIdx.length / s.activeCount ≤ 1 := Nat.div_le_of_le_mul (by omega)
  have hceil : (chosen.zipIdx.length + s.activeCount - 1) / s.activeCount ≤ 1 := by
    refine Nat.le_of_lt_succ (Nat.div_lt_of_lt_mul ?_)
    omega
  rcases (placedEvenly_iff h _).mp (heven _ hchosen hnodup) (s.cursor + first.width - 1) with h | h <;> omega

theorem members_ne_nil {active : Fin n → Bool} (h : ∃ i, active i = true) : members active ≠ [] := by
  obtain ⟨i, hi⟩ := h
  exact List.ne_nil_of_mem (List.mem_filter.mpr ⟨List.mem_finRange i, hi⟩)

/--
New tasks are spread evenly when nobody moves a `Task` in, when there is one active processor, and when nothing
else is done than to move a `Task` in and the number of active processors is odd.
-/
theorem spreadsEvenly_iff (s : Dispatcher n) (h : ∃ i, s.active i = true) (overloads : Set SingleTask) :
    s.SpreadsEvenly overloads ↔ SingleTask.task ∉ overloads ∨ s.activeCount = 1 ∨
      (∀ o ∈ overloads, o = .task) ∧ s.activeCount % 2 = 1 := by
  have hmembers := members_ne_nil h
  constructor
  · intro heven
    by_contra hnot
    obtain ⟨htask, hone, hmixed⟩ : SingleTask.task ∈ overloads ∧ s.activeCount ≠ 1 ∧
        ¬ ((∀ o ∈ overloads, o = .task) ∧ s.activeCount % 2 = 1) := by
      rw [not_or, not_or, not_not] at hnot
      exact hnot
    have hpos : 0 < s.activeCount := List.length_pos_of_ne_nil hmembers
    by_cases hall : ∀ o ∈ overloads, o = .task
    · -- every other active processor is left out
      have hodd : s.activeCount % 2 ≠ 1 := fun hodd => hmixed ⟨hall, hodd⟩
      have hreturn : (s.activeCount / 2 - 1) * SingleTask.task.width + SingleTask.task.width =
          s.activeCount := by
        show (s.activeCount / 2 - 1) * 2 + 2 = s.activeCount
        omega
      exact not_spreadsEvenly_of_return hmembers htask htask (by omega) hreturn heven
    · -- the `Task` passes over the processor whose turn it is
      obtain ⟨o, ho, hne⟩ : ∃ o ∈ overloads, o ≠ .task := by
        rw [not_forall] at hall
        obtain ⟨o, ho⟩ := hall
        exact ⟨o, Classical.not_imp.mp ho⟩
      have hreturn : (s.activeCount - 2) * o.width + SingleTask.task.width = s.activeCount := by
        rw [SingleTask.width_eq_one hne]
        show (s.activeCount - 2) * 1 + 2 = s.activeCount
        omega
      exact not_spreadsEvenly_of_return hmembers ho htask (by omega) hreturn heven
  · rintro (hnone | hone | ⟨hall, hodd⟩) calls hcalls -
    · refine placedEvenly_of_width hmembers Nat.one_pos (Nat.coprime_one_right _) fun x hx => ?_
      exact SingleTask.width_eq_one fun heq => hnone (heq ▸ hcalls x hx)
    · exact placedEvenly_of_single hmembers hone calls
    · refine placedEvenly_of_width hmembers Nat.two_pos (Nat.coprime_two_right.mpr ?_) fun x hx => ?_
      · exact Nat.odd_iff.mpr hodd
      · rw [hall x.1 (hcalls x hx)]
        rfl

/-- Two processors, both active. -/
def twoActive : Dispatcher 2 where
  processors := fun _ => {}
  active := fun _ => true
  lastActiveProcessorIndex := ⟨0, Nat.two_pos⟩

/-- Without the overload for `Task&&` both get their turn. -/
theorem spreadsEvenly_iff_twoActive : twoActive.SpreadsEvenly {.uniquePtr, .constCallback, .callback} := by
  refine (spreadsEvenly_iff twoActive ⟨0, rfl⟩ _).mpr (.inl ?_)
  rintro (h | h | h) <;> cases h

/-- Two tasks moved in come to the same processor. -/
theorem not_spreadsEvenly : ¬ twoActive.SpreadsEvenly Set.univ := by
  intro heven
  obtain ⟨share, hqueue, -, -, hshare⟩ := heven [(.task, 0), (.task, 1)] (fun _ _ => trivial) (by decide)
  have hboth : share 0 = [0, 1] := (hqueue 0).symm
  rcases hshare 0 rfl with h | h <;> rw [hboth] at h <;> exact absurd h (by decide)

end Dispatcher

end Nemo.Coroutine
