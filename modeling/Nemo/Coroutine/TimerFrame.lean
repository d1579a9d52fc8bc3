import Nemo.Coroutine.RoutineSyncTimer

/-!
# Which timers a call touches

`Ordered` is the invariant of the set, kept by every step. The membership lemmas say what is in the
set after a call; `cancel` and `reset` erase whatever has the time point of their argument, so
they leave the other timers alone only if that is the argument itself, or nothing.
-/

namespace Nemo.Coroutine

open Infra
open Function (update)

namespace RoutineSyncTimer

/-- The set is ordered by time point, and holds timers that were made. -/
structure Ordered (t : RoutineSyncTimer) : Prop where
  sorted : OrderedSet.Sorted t.tpOf t.timerIds
  made : ∀ id ∈ t.timerIds, id < t.made

variable {t : RoutineSyncTimer} {id b : TimerPtr} {tp : TimePoint} {cb : Callback}

/-! ## `eraseTimerId` and `insertTimerId` -/

theorem mem_eraseTimerId (h : t.Ordered) :
    b ∈ (t.eraseTimerId id).2.timerIds ↔ b ∈ t.timerIds ∧ t.tpOf b ≠ t.tpOf id :=
  OrderedSet.mem_erase_iff h.sorted

theorem eraseTimerId_fst (h : t.Ordered) :
    (t.eraseTimerId id).1 = true ↔ ∃ c ∈ t.timerIds, t.tpOf c = t.tpOf id :=
  beq_iff_eq.trans (OrderedSet.erase_fst h.sorted)

theorem Ordered.eraseTimerId (h : t.Ordered) (id : TimerPtr) : (t.eraseTimerId id).2.Ordered where
  sorted := h.sorted.erase id
  made b hb := h.made b ((mem_eraseTimerId h).mp hb).1

theorem Ordered.insertTimerId (h : t.Ordered) (hid : id < t.made) : (t.insertTimerId id).Ordered where
  sorted := h.sorted.insert id
  made b hb := by
    rcases (OrderedSet.mem_insert_iff h.sorted).mp hb with hb | ⟨rfl, -⟩
    · exact h.made b hb
    · exact hid

/-- Writing a timer that is not in the set, or not its time point, keeps the set ordered. -/
theorem Ordered.update (h : t.Ordered) (id : TimerPtr) (wrapper : TimerId)
    (hid : id ∈ t.timerIds → wrapper.tp = t.tpOf id) :
    ({ t with timer := update t.timer id wrapper } : RoutineSyncTimer).Ordered where
  sorted := by
    refine h.sorted.congr fun c hc => ?_
    by_cases heq : c = id
    · subst heq
      exact (congrArg TimerId.tp (Function.update_self ..)).trans (hid hc)
    · exact congrArg TimerId.tp (Function.update_of_ne heq ..)
  made := h.made

/-! ## The calls -/

theorem add_timer_self : (t.add tp cb).2.timer t.made = { tp := tp, cb := cb } :=
  Function.update_self ..

theorem Ordered.make (h : t.Ordered) (tp : TimePoint) (cb : Callback) : (t.make tp cb).Ordered := by
  have hnot : t.made ∉ t.timerIds := fun hm => Nat.lt_irrefl _ (h.made _ hm)
  exact ⟨(h.update t.made _ fun hm => absurd hm hnot).sorted,
    fun b hb => Nat.lt_succ_of_lt (h.made b hb)⟩

theorem Ordered.add (h : t.Ordered) (tp : TimePoint) (cb : Callback) : (t.add tp cb).2.Ordered :=
  (h.make tp cb).insertTimerId (Nat.lt_succ_self _)

/-- The new timer is in the set if its time point is. -/
theorem mem_add (h : t.Ordered) :
    b ∈ (t.add tp cb).2.timerIds ↔
      b ∈ t.timerIds ∨ (b = t.made ∧ ∀ c ∈ t.timerIds, t.tpOf c ≠ tp) := by
  refine (OrderedSet.mem_insert_iff (h.make tp cb).sorted).trans ?_
  refine or_congr_right (and_congr_right fun _ => forall₂_congr fun c hc => ?_)
  have hne : c ≠ t.made := Nat.ne_of_lt (h.made c hc)
  have h1 : (t.make tp cb).tpOf c = t.tpOf c := congrArg TimerId.tp (Function.update_of_ne hne ..)
  have h2 : (t.make tp cb).tpOf t.made = tp := by
    show (update t.timer t.made _ t.made).tp = tp
    rw [Function.update_self]
  rw [h1, h2]

theorem cancel_tpOf (t : RoutineSyncTimer) (id b : TimerPtr) :
    ((t.cancel id).2.timer b).tp = (t.timer b).tp ∧
      ((t.cancel id).2.timer b).cb = (t.timer b).cb := by
  show (update t.timer id (t.timer id).cancel b).tp = _ ∧ (update t.timer id _ b).cb = _
  by_cases heq : b = id
  · subst heq
    rw [Function.update_self]
    exact ⟨rfl, rfl⟩
  · rw [Function.update_of_ne heq]
    exact ⟨rfl, rfl⟩

theorem Ordered.cancel (h : t.Ordered) (id : TimerPtr) : (t.cancel id).2.Ordered :=
  (h.update id (t.timer id).cancel fun _ => rfl).eraseTimerId id

/-- `cancel` takes out what has the time point of its argument. -/
theorem mem_cancel (h : t.Ordered) :
    b ∈ (t.cancel id).2.timerIds ↔ b ∈ t.timerIds ∧ t.tpOf b ≠ t.tpOf id := by
  have hu := h.update id (t.timer id).cancel fun _ => rfl
  refine (mem_eraseTimerId hu).trans (and_congr_right fun _ => ?_)
  have htp : ∀ c, (update t.timer id (t.timer id).cancel c).tp = t.tpOf c :=
    fun c => (cancel_tpOf t id c).1
  exact not_congr (by rw [tpOf, tpOf, htp, htp])

/-- `reset` when nothing in the set has the time point of its argument. -/
theorem reset_of_absent (h : t.Ordered) (tp : TimePoint) (habs : ∀ c ∈ t.timerIds, t.tpOf c ≠ t.tpOf id) :
    (t.reset id tp).1 = none ∧ (t.reset id tp).2.timer = t.timer ∧
      (t.reset id tp).2.made = t.made ∧ (t.reset id tp).2.Ordered ∧
      ∀ b, b ∈ (t.reset id tp).2.timerIds ↔ b ∈ t.timerIds := by
  have herased : (t.eraseTimerId id).1 = false := by
    rw [Bool.eq_false_iff]
    intro htrue
    obtain ⟨c, hc, heq⟩ := (eraseTimerId_fst h).mp htrue
    exact habs c hc heq
  have heq : t.reset id tp = (none, (t.eraseTimerId id).2) := by
    unfold reset
    dsimp only
    rw [herased]
    rfl
  rw [heq]
  refine ⟨rfl, rfl, rfl, h.eraseTimerId id, fun b => (mem_eraseTimerId h).trans ?_⟩
  exact ⟨And.left, fun hb => ⟨hb, habs b hb⟩⟩

/-- `reset` when something in the set has the time point of its argument. -/
theorem reset_of_present (h : t.Ordered) (hid : id < t.made) (tp : TimePoint)
    (hpres : ∃ c ∈ t.timerIds, t.tpOf c = t.tpOf id) :
    (t.reset id tp).1 = some id ∧
      (t.reset id tp).2.timer = update t.timer id ((t.timer id).setTimePoint tp).reset ∧
      (t.reset id tp).2.made = t.made ∧ (t.reset id tp).2.Ordered ∧
      ∀ b, b ∈ (t.reset id tp).2.timerIds ↔
        (b ∈ t.timerIds ∧ t.tpOf b ≠ t.tpOf id) ∨
          (b = id ∧ ∀ c ∈ t.timerIds, t.tpOf c ≠ t.tpOf id → t.tpOf c ≠ tp) := by
  have herased := (eraseTimerId_fst h).mpr hpres
  have hnot : id ∉ (t.eraseTimerId id).2.timerIds :=
    fun hm => ((mem_eraseTimerId h).mp hm).2 rfl
  generalize ht1 : ({ (t.eraseTimerId id).2 with
    timer := update t.timer id ((t.timer id).setTimePoint tp).reset } : RoutineSyncTimer) = t1
  have hord : t1.Ordered := by
    rw [← ht1]
    exact (h.eraseTimerId id).update id _ fun hm => absurd hm hnot
  have heq : t.reset id tp = (some id, t1.insertTimerId id) := by
    unfold reset
    dsimp only
    rw [herased, ← ht1]
    rfl
  rw [heq]
  have hmade : t1.made = t.made := by rw [← ht1]; rfl
  have hid1 : id < t1.made := by rwa [hmade]
  refine ⟨rfl, by rw [← ht1]; rfl, hmade, hord.insertTimerId hid1, fun b => ?_⟩
  have hmem : ∀ c, c ∈ t1.timerIds ↔ c ∈ t.timerIds ∧ t.tpOf c ≠ t.tpOf id := by
    intro c
    rw [← ht1]
    exact mem_eraseTimerId h
  refine (OrderedSet.mem_insert_iff hord.sorted).trans (or_congr (hmem b) ?_)
  refine and_congr_right fun _ => ?_
  have hself : t1.tpOf id = tp := by
    rw [← ht1]
    show (update t.timer id _ id).tp = tp
    rw [Function.update_self]
    rfl
  have hother : ∀ c, c ≠ id → t1.tpOf c = t.tpOf c := by
    intro c hne
    rw [← ht1]
    exact congrArg TimerId.tp (Function.update_of_ne hne ..)
  constructor
  · intro hall c hc hne
    have hcid : c ≠ id := fun heq => hne (heq ▸ rfl)
    have h1 := hall c ((hmem c).mpr ⟨hc, hne⟩)
    rwa [hself, hother c hcid] at h1
  · intro hall c hc
    obtain ⟨hc, hne⟩ := (hmem c).mp hc
    have hcid : c ≠ id := fun heq => hne (heq ▸ rfl)
    rw [hself, hother c hcid]
    exact hall c hc hne

theorem Ordered.reset (h : t.Ordered) (hid : id < t.made) (tp : TimePoint) :
    (t.reset id tp).2.Ordered ∧ (t.reset id tp).2.made = t.made := by
  by_cases hpres : ∃ c ∈ t.timerIds, t.tpOf c = t.tpOf id
  · obtain ⟨-, -, hmade, hord, -⟩ := reset_of_present h hid tp hpres
    exact ⟨hord, hmade⟩
  · have habs : ∀ c ∈ t.timerIds, t.tpOf c ≠ t.tpOf id := fun c hc heq => hpres ⟨c, hc, heq⟩
    obtain ⟨-, -, hmade, hord, -⟩ := reset_of_absent h tp habs
    exact ⟨hord, hmade⟩

/-- `reset` puts nothing but its argument into the set. -/
theorem mem_of_mem_reset (h : t.Ordered) (hid : id < t.made) (hb : b ∈ (t.reset id tp).2.timerIds) :
    b ∈ t.timerIds ∨ b = id := by
  by_cases hpres : ∃ c ∈ t.timerIds, t.tpOf c = t.tpOf id
  · obtain ⟨-, -, -, -, hmem⟩ := reset_of_present h hid tp hpres
    exact ((hmem b).mp hb).imp And.left And.left
  · have habs : ∀ c ∈ t.timerIds, t.tpOf c ≠ t.tpOf id := fun c hc heq => hpres ⟨c, hc, heq⟩
    obtain ⟨-, -, -, -, hmem⟩ := reset_of_absent h tp habs
    exact .inl ((hmem b).mp hb)

/-- The first timer is taken out if it is due. -/
theorem takeDue_eq_some {now : TimePoint} {t' : RoutineSyncTimer} (h : t.takeDue now = some (id, t')) :
    ∃ rest, t.timerIds = id :: rest ∧ t.tpOf id ≤ now ∧ t' = (t.eraseTimerId id).2 := by
  unfold takeDue at h
  split at h
  · next id' rest heq =>
    split at h
    · next hle =>
      cases h
      exact ⟨rest, heq, hle, rfl⟩
    · cases h
  · cases h

theorem invoke_tp (t : RoutineSyncTimer) (id b : TimerPtr) :
    ((t.invoke id).2.timer b).tp = (t.timer b).tp := by
  show (update t.timer id (t.timer id).invoke.2 b).tp = _
  by_cases heq : b = id
  · subst heq
    rw [Function.update_self]
    unfold TimerId.invoke
    split <;> rfl
  · rw [Function.update_of_ne heq]

theorem Ordered.invoke (h : t.Ordered) (id : TimerPtr) : (t.invoke id).2.Ordered where
  sorted := h.sorted.congr fun c _ => invoke_tp t id c
  made := h.made

end RoutineSyncTimer

namespace Timing

open RoutineSyncTimer

/-- The set stays ordered along every run. -/
theorem ordered_of_reachableBy {P : State → Action → Prop} {s : State}
    (h : system.ReachableBy P s) : s.timer.Ordered := by
  refine h.invariant (I := fun s => s.timer.Ordered) ⟨.nil, nofun⟩ ?_
  intro s a s' hs _ hstep
  cases a with
  | add tp cb =>
    cases hstep
    exact hs.add tp cb
  | reset id tp =>
    unfold system step at hstep
    dsimp only at hstep
    split at hstep
    · next hid =>
      cases hstep
      exact (hs.reset hid tp).1
    · cases hstep
  | cancel id =>
    unfold system step at hstep
    dsimp only at hstep
    split at hstep
    · cases hstep
      exact hs.cancel id
    · cases hstep
  | advance tp =>
    unfold system step at hstep
    dsimp only at hstep
    split at hstep
    · cases hstep
      exact hs
    · cases hstep
  | examine =>
    unfold system step at hstep
    dsimp only at hstep
    split at hstep
    · cases hstep
      unfold examine
      split
      · next id t htake =>
        obtain ⟨rest, -, -, rfl⟩ := takeDue_eq_some htake
        exact hs.eraseTimerId id
      · exact hs
    · cases hstep
  | invoke =>
    unfold system step at hstep
    dsimp only at hstep
    obtain ⟨id, -, rfl⟩ := Option.map_eq_some_iff.mp hstep
    exact hs.invoke id

end Timing

/-! ## The frame of `cancel` and `reset` -/

namespace RoutineSyncTimer

/-- Every timer other than `id` that is pending in `t` is pending in `t'`, as it was. -/
def KeepsOthers (t t' : RoutineSyncTimer) (id : TimerPtr) : Prop :=
  ∀ b ∈ t.timerIds, b ≠ id → b ∈ t'.timerIds ∧ (t'.timer b).tp = (t.timer b).tp ∧
    (t'.timer b).cb = (t.timer b).cb

/-- `id` is pending for the time point `tp`. -/
def ArmedFor (t : RoutineSyncTimer) (id : TimerPtr) (tp : TimePoint) : Prop :=
  id ∈ t.timerIds ∧ t.tpOf id = tp

theorem cancel_keepsOthers_iff {t : RoutineSyncTimer} (h : t.Ordered) (id : TimerPtr) :
    KeepsOthers t (t.cancel id).2 id ↔
      id ∈ t.timerIds ∨ ∀ b ∈ t.timerIds, t.tpOf b ≠ t.tpOf id := by
  constructor
  · intro hk
    by_cases hid : id ∈ t.timerIds
    · exact .inl hid
    · refine .inr fun b hb heq => ?_
      have hne : b ≠ id := fun he => hid (he ▸ hb)
      exact ((mem_cancel h).mp (hk b hb hne).1).2 heq
  · intro hcond b hb hne
    refine ⟨(mem_cancel h).mpr ⟨hb, fun heq => ?_⟩, cancel_tpOf t id b⟩
    rcases hcond with hid | hall
    · exact hne (h.sorted.eq_of_key hb hid heq)
    · exact hall b hb heq

theorem reset_keepsOthers_iff {t : RoutineSyncTimer} (h : t.Ordered) {id : TimerPtr}
    (hid : id < t.made) (tp : TimePoint) :
    (KeepsOthers t (t.reset id tp).2 id ∧
      (ArmedFor (t.reset id tp).2 id tp ↔ id ∈ t.timerIds)) ↔
      (id ∈ t.timerIds ∧ ∀ b ∈ t.timerIds, b ≠ id → t.tpOf b ≠ tp) ∨
        (id ∉ t.timerIds ∧ ∀ b ∈ t.timerIds, t.tpOf b ≠ t.tpOf id) := by
  by_cases hpres : ∃ c ∈ t.timerIds, t.tpOf c = t.tpOf id
  · obtain ⟨-, htimer, -, -, hmem⟩ := reset_of_present h hid tp hpres
    have hself : ArmedFor (t.reset id tp).2 id tp ↔
        ∀ c ∈ t.timerIds, t.tpOf c ≠ t.tpOf id → t.tpOf c ≠ tp := by
      have htp : (t.reset id tp).2.tpOf id = tp := by
        rw [tpOf, htimer, Function.update_self]
        rfl
      rw [ArmedFor, htp, hmem id]
      constructor
      · rintro ⟨⟨-, hne⟩ | ⟨-, hall⟩, -⟩
        · exact absurd rfl hne
        · exact hall
      · exact fun hall => ⟨.inr ⟨rfl, hall⟩, rfl⟩
    have hothers : ∀ b, b ≠ id → (t.reset id tp).2.timer b = t.timer b := by
      intro b hne
      rw [htimer, Function.update_of_ne hne]
    by_cases hin : id ∈ t.timerIds
    · -- what is erased is `id` itself
      have hiff : ∀ c ∈ t.timerIds, t.tpOf c ≠ t.tpOf id ↔ c ≠ id := by
        intro c hc
        exact ⟨fun hne heq => hne (heq ▸ rfl), fun hne heq => hne (h.sorted.eq_of_key hc hin heq)⟩
      have hkeeps : KeepsOthers t (t.reset id tp).2 id := by
        intro b hb hne
        rw [hothers b hne]
        exact ⟨(hmem b).mpr (.inl ⟨hb, (hiff b hb).mpr hne⟩), rfl, rfl⟩
      constructor
      · rintro ⟨-, harmed⟩
        exact .inl ⟨hin, fun b hb hne => hself.mp (harmed.mpr hin) b hb ((hiff b hb).mpr hne)⟩
      · rintro (⟨-, hall⟩ | ⟨hnot, -⟩)
        · refine ⟨hkeeps, fun _ => hin, fun _ => hself.mpr fun c hc hne => ?_⟩
          exact hall c hc ((hiff c hc).mp hne)
        · exact absurd hin hnot
    · -- another timer is erased
      obtain ⟨c, hc, heq⟩ := hpres
      have hne : c ≠ id := fun he => hin (he ▸ hc)
      constructor
      · rintro ⟨hk, -⟩
        rcases (hmem c).mp (hk c hc hne).1 with ⟨-, hne'⟩ | ⟨he, -⟩
        · exact absurd heq hne'
        · exact absurd he hne
      · rintro (⟨hin', -⟩ | ⟨-, hall⟩)
        · exact absurd hin' hin
        · exact absurd heq (hall c hc)
  · have habs : ∀ c ∈ t.timerIds, t.tpOf c ≠ t.tpOf id := fun c hc heq => hpres ⟨c, hc, heq⟩
    have hin : id ∉ t.timerIds := fun hm => habs id hm rfl
    obtain ⟨-, htimer, -, -, hmem⟩ := reset_of_absent h tp habs
    refine ⟨fun _ => .inr ⟨hin, habs⟩, fun _ => ⟨fun b hb _ => ?_, ?_⟩⟩
    · rw [htimer]
      exact ⟨(hmem b).mpr hb, rfl, rfl⟩
    · exact ⟨fun harmed => (hmem id).mp harmed.1, fun hm => absurd hm hin⟩

end RoutineSyncTimer

namespace Timing

open RoutineSyncTimer

/--
**When `cancel` and `reset` touch their own timer only**, in any reachable state: `cancel` if its
timer is pending or no pending timer has its time point; `reset` of a pending timer if no other
one has the new time point, and of another timer if no pending one has the time point it still
carries.
-/
theorem touchesOwn_iff {s : State} (h : system.Reachable s) (id : TimerPtr)
    (hid : id < s.timer.made) (tp : TimePoint) :
    (KeepsOthers s.timer (s.timer.cancel id).2 id ↔
      id ∈ s.timer.timerIds ∨ ∀ b ∈ s.timer.timerIds, s.timer.tpOf b ≠ s.timer.tpOf id) ∧
    ((KeepsOthers s.timer (s.timer.reset id tp).2 id ∧
      (ArmedFor (s.timer.reset id tp).2 id tp ↔ id ∈ s.timer.timerIds)) ↔
      (id ∈ s.timer.timerIds ∧ ∀ b ∈ s.timer.timerIds, b ≠ id → s.timer.tpOf b ≠ tp) ∨
        (id ∉ s.timer.timerIds ∧ ∀ b ∈ s.timer.timerIds, s.timer.tpOf b ≠ s.timer.tpOf id)) := by
  have hord := ordered_of_reachableBy h
  exact ⟨cancel_keepsOthers_iff hord id, reset_keepsOthers_iff hord hid tp⟩

/-- Two pending timers: cancelling one of them, or resetting it to a third time point. -/
theorem touchesOwn_pending : ∃ s, system.run system.init [.add 5 0, .add 7 1] = some s ∧
    KeepsOthers s.timer (s.timer.cancel 0).2 0 ∧ KeepsOthers s.timer (s.timer.reset 0 6).2 0 ∧
    ArmedFor (s.timer.reset 0 6).2 0 6 := by
  refine ⟨_, rfl, ?_⟩
  obtain ⟨hcancel, hreset⟩ := touchesOwn_iff
    (Lts.reachable_of_run (show system.run system.init [.add 5 0, .add 7 1] = some _ from rfl)) 0
    (by decide) 6
  have hreset := hreset.mpr (.inl (by decide))
  exact ⟨hcancel.mpr (.inl (by decide)), hreset.1, hreset.2.mpr (by decide)⟩

/-- A timer has fired, and another one is pending for its time point: `cancel` takes that one out. -/
theorem not_touchesOwn : ¬ ∀ s, system.Reachable s → ∀ id < s.timer.made, ∀ tp,
    KeepsOthers s.timer (s.timer.cancel id).2 id ∧ KeepsOthers s.timer (s.timer.reset id tp).2 id ∧
      (ArmedFor (s.timer.reset id tp).2 id tp ↔ id ∈ s.timer.timerIds) := by
  intro h
  obtain ⟨hcancel, -⟩ := h _ (Lts.reachable_of_run
    (show system.run system.init [.add 0 0, .examine, .invoke, .add 0 1] = some _ from rfl)) 0
    (by decide) 0
  exact absurd (hcancel 1 (by decide) (by decide)).1 (by decide)

end Timing

end Nemo.Coroutine
