import Nemo.Coroutine.TimerFrame

/-!
# Armed timers are invoked once

`Timely` says what a timer is for: an armed timer is pending, every timer is armed, taken out or
invoked exactly once, and the examinations of `run()` take the timers that are due in the order of
their time points. The set cannot hold two timers with one time point, so it is kept only as long as
no call brings two of them together (`KeepsApart`).
-/

namespace Nemo.Coroutine.Timing

open Infra RoutineSyncTimer
open Function (update)

/-- The runs without `cancel`. -/
def NoCancel : Action → Prop
  | .cancel _ => False
  | _ => True

/-- The call brings no two timers with one time point together. -/
def KeepsApart (s : State) : Action → Prop
  | .add tp _ => ∀ b ∈ s.timer.timerIds, s.timer.tpOf b ≠ tp
  | .reset id tp =>
    (id ∈ s.timer.timerIds ∧ ∀ b ∈ s.timer.timerIds, b ≠ id → s.timer.tpOf b ≠ tp) ∨
      (id ∉ s.timer.timerIds ∧ ∀ b ∈ s.timer.timerIds, s.timer.tpOf b ≠ s.timer.tpOf id)
  | _ => True

/-- `n` turns of the loop of `run()`. -/
def sweep : Nat → List Action
  | 0 => []
  | n + 1 => .examine :: .invoke :: sweep n

/-- The timer `id` is due: armed, and its latest time point has been reached. -/
def Due (s : State) (id : TimerPtr) : Prop := ∃ tp, s.armed id = some tp ∧ tp ≤ s.now

/-- In how many of the three places a timer is: armed, taken out, invoked. -/
def places (s : State) (id : TimerPtr) : Nat :=
  (if s.armed id ≠ none then 1 else 0) + (if s.invoking = some id then 1 else 0) + s.invoked.count id

/-- Timers are neither lost nor duplicated, and they are invoked in order. -/
structure Timely (s : State) : Prop where
  /-- An armed timer is pending for its latest time point. -/
  pending : ∀ id tp, s.armed id = some tp → ArmedFor s.timer id tp
  /-- Every timer is in one place, once. -/
  once : ∀ id < s.timer.made, places s id = 1
  /-- An examination takes the least of the armed timers. -/
  least : ∀ id, s.invoking = none → (examine s).invoking = some id →
    ∀ b tp, s.armed b = some tp → s.timer.tpOf id ≤ tp
  /-- The turns of the loop invoke the timers that are due, in order, until none is left. -/
  sweeps : s.invoking = none → ∃ order s', system.run s (sweep order.length) = some s' ∧
    s'.invoked = s.invoked ++ order ∧ (order.Pairwise fun a b => s.timer.tpOf a ≤ s.timer.tpOf b) ∧
    (∀ id, id ∈ order ↔ Due s id) ∧ ∀ id, ¬ Due s' id

/-- The invariant: armed is the same as pending. -/
structure Inv (s : State) : Prop where
  ordered : s.timer.Ordered
  armed_iff : ∀ id tp, s.armed id = some tp ↔ ArmedFor s.timer id tp
  once : ∀ id, places s id = if id < s.timer.made then 1 else 0
  not_canceled : ∀ id, (s.timer.timer id).canceled = false

namespace Inv

variable {s : State} {id : TimerPtr} {tp : TimePoint}

theorem armed_of_mem (h : Inv s) (hid : id ∈ s.timer.timerIds) :
    s.armed id = some (s.timer.tpOf id) := (h.armed_iff id _).mpr ⟨hid, rfl⟩

theorem armed_of_not_mem (h : Inv s) (hid : id ∉ s.timer.timerIds) : s.armed id = none := by
  cases ha : s.armed id with
  | none => rfl
  | some tp => exact absurd ((h.armed_iff id tp).mp ha).1 hid

/-- How the three places change when only the arming of `id` does. -/
theorem places_of_armed {s s' : State} (hi : s'.invoking = s.invoking) (hv : s'.invoked = s.invoked)
    {b : TimerPtr} (ha : s'.armed b ≠ none ↔ s.armed b ≠ none) : places s' b = places s b := by
  unfold places
  rw [hi, hv]
  simp only [ha]

theorem add (h : Inv s) (cb : Callback) (hk : KeepsApart s (.add tp cb)) :
    Inv { s with
      timer := (s.timer.add tp cb).2
      armed := update s.armed s.timer.made (some tp) } := by
  have hmem : ∀ b, b ∈ (s.timer.add tp cb).2.timerIds ↔ b ∈ s.timer.timerIds ∨ b = s.timer.made :=
    fun b => (mem_add h.ordered).trans (or_congr_right (and_iff_left hk))
  have hfresh : s.timer.made ∉ s.timer.timerIds := fun hm => Nat.lt_irrefl _ (h.ordered.made _ hm)
  have hself : (s.timer.add tp cb).2.timer s.timer.made = { tp := tp, cb := cb } := add_timer_self
  have hother : ∀ b, b ≠ s.timer.made → (s.timer.add tp cb).2.timer b = s.timer.timer b :=
    fun b hne => Function.update_of_ne hne ..
  refine ⟨h.ordered.add tp cb, ?_, ?_, ?_⟩
  · intro b tp'
    show update s.armed s.timer.made (some tp) b = some tp' ↔ _ ∧ tpOf _ b = tp'
    rw [hmem]
    by_cases heq : b = s.timer.made
    · subst heq
      rw [Function.update_self, tpOf, hself, Option.some.injEq]
      exact ⟨fun he => ⟨.inr rfl, he⟩, And.right⟩
    · rw [Function.update_of_ne heq, h.armed_iff, tpOf, hother b heq]
      exact and_congr_left fun _ => (or_iff_left heq).symm
  · intro b
    show places _ b = if b < s.timer.made + 1 then 1 else 0
    have hold := h.once b
    by_cases heq : b = s.timer.made
    · subst heq
      rw [if_neg (Nat.lt_irrefl _)] at hold
      rw [if_pos (Nat.lt_succ_self _)]
      have hnone := h.armed_of_not_mem hfresh
      unfold places at hold ⊢
      simp only [hnone, ne_eq, not_true_eq_false, if_false] at hold
      simp only [Function.update_self, ne_eq, reduceCtorEq, not_false_eq_true, if_true]
      omega
    · have hsame : places { s with
          timer := (s.timer.add tp cb).2
          armed := update s.armed s.timer.made (some tp) } b = places s b := by
        refine places_of_armed (s := s) ?_ ?_ ?_
        · rfl
        · rfl
        · show update s.armed s.timer.made (some tp) b ≠ none ↔ _
          rw [Function.update_of_ne heq]
      rw [hsame, hold]
      have hiff : b < s.timer.made + 1 ↔ b < s.timer.made := by
        constructor
        · exact fun hlt => Nat.lt_of_le_of_ne (Nat.le_of_lt_succ hlt) heq
        · exact Nat.lt_succ_of_lt
      simp only [hiff]
  · intro b
    by_cases heq : b = s.timer.made
    · rw [heq]
      exact congrArg TimerId.canceled hself
    · exact (congrArg TimerId.canceled (hother b heq)).trans (h.not_canceled b)

theorem reset (h : Inv s) (hid : id < s.timer.made) (hk : KeepsApart s (.reset id tp)) :
    Inv { s with
      timer := (s.timer.reset id tp).2
      armed := update s.armed id ((s.armed id).map fun _ => tp) } := by
  rcases hk with ⟨hin, hall⟩ | ⟨hin, habs⟩
  · obtain ⟨-, htimer, hmade, hord, hmem⟩ := reset_of_present h.ordered hid tp ⟨id, hin, rfl⟩
    have harmed := h.armed_of_mem hin
    have hne : ∀ c ∈ s.timer.timerIds, s.timer.tpOf c ≠ s.timer.tpOf id ↔ c ≠ id := by
      intro c hc
      exact ⟨fun hne heq => hne (heq ▸ rfl),
        fun hne heq => hne (h.ordered.sorted.eq_of_key hc hin heq)⟩
    refine ⟨hord, ?_, ?_, ?_⟩
    · intro b tp'
      show update s.armed id _ b = some tp' ↔
        b ∈ (s.timer.reset id tp).2.timerIds ∧ ((s.timer.reset id tp).2.timer b).tp = tp'
      rw [hmem, htimer, harmed]
      by_cases heq : b = id
      · subst heq
        rw [Function.update_self, Function.update_self, Option.map_some, Option.some.injEq]
        refine ⟨fun he => ⟨.inr ⟨rfl, fun c hc hkey => hall c hc ((hne c hc).mp hkey)⟩, he⟩, ?_⟩
        exact fun hb => hb.2
      · rw [Function.update_of_ne heq, Function.update_of_ne heq, h.armed_iff]
        constructor
        · rintro ⟨hb, htp⟩
          exact ⟨.inl ⟨hb, (hne b hb).mpr heq⟩, htp⟩
        · rintro ⟨⟨hb, -⟩ | ⟨he, -⟩, htp⟩
          · exact ⟨hb, htp⟩
          · exact absurd he heq
    · intro b
      show places _ b = if b < (s.timer.reset id tp).2.made then 1 else 0
      rw [hmade, ← h.once b]
      refine places_of_armed (s := s) ?_ ?_ ?_
      · rfl
      · rfl
      · show update s.armed id _ b ≠ none ↔ _
        by_cases heq : b = id
        · subst heq
          rw [Function.update_self, harmed]
          simp
        · rw [Function.update_of_ne heq]
    · intro b
      show ((s.timer.reset id tp).2.timer b).canceled = false
      rw [htimer]
      by_cases heq : b = id
      · subst heq
        rw [Function.update_self]
        exact h.not_canceled b
      · rw [Function.update_of_ne heq]
        exact h.not_canceled b
  · obtain ⟨-, htimer, hmade, hord, hmem⟩ := reset_of_absent h.ordered tp habs
    have harmed := h.armed_of_not_mem hin
    have hsame : update s.armed id ((s.armed id).map fun _ => tp) = s.armed := by
      rw [harmed, Option.map_none, ← harmed, Function.update_eq_self]
    rw [hsame]
    refine ⟨hord, ?_, ?_, ?_⟩
    · intro b tp'
      show s.armed b = some tp' ↔
        b ∈ (s.timer.reset id tp).2.timerIds ∧ ((s.timer.reset id tp).2.timer b).tp = tp'
      rw [hmem, htimer]
      exact h.armed_iff b tp'
    · intro b
      show places s b = if b < (s.timer.reset id tp).2.made then 1 else 0
      rw [hmade]
      exact h.once b
    · intro b
      show ((s.timer.reset id tp).2.timer b).canceled = false
      rw [htimer]
      exact h.not_canceled b

/-- What an examination does when the first timer is due. -/
theorem examine_due {rest : List TimerPtr} (hids : s.timer.timerIds = id :: rest)
    (hle : s.timer.tpOf id ≤ s.now) :
    examine s = { s with
      timer := { s.timer with timerIds := rest }
      invoking := some id
      armed := update s.armed id none } := by
  have herase : (s.timer.eraseTimerId id).2 = { s.timer with timerIds := rest } := by
    unfold eraseTimerId
    rw [hids, OrderedSet.erase, if_neg (lt_irrefl _), if_neg (lt_irrefl _)]
  unfold examine takeDue
  rw [hids]
  dsimp only
  rw [if_pos hle, herase]

theorem examine_not_due (hd : ∀ id rest, s.timer.timerIds = id :: rest → s.now < s.timer.tpOf id) :
    examine s = s := by
  unfold examine takeDue
  cases hids : s.timer.timerIds with
  | nil => rfl
  | cons id rest =>
    dsimp only
    rw [if_neg (not_le.mpr (hd id rest hids))]

/-- The timer that is taken out moves from the first place to the second. -/
theorem taken (h : Inv s) (hi : s.invoking = none) {rest : List TimerPtr}
    (hids : s.timer.timerIds = id :: rest) :
    Inv { s with
      timer := { s.timer with timerIds := rest }
      invoking := some id
      armed := update s.armed id none } := by
  have hsorted := h.ordered.sorted
  have hmade := h.ordered.made
  rw [hids] at hsorted hmade
  obtain ⟨hfirst, hrest⟩ := List.pairwise_cons.mp hsorted
  have hin : id ∈ s.timer.timerIds := hids ▸ List.mem_cons_self
  refine ⟨⟨hrest, fun b hb => hmade b (List.mem_cons_of_mem _ hb)⟩, ?_, ?_, h.not_canceled⟩
  · intro b tp
    show update s.armed id none b = some tp ↔ b ∈ rest ∧ s.timer.tpOf b = tp
    by_cases heq : b = id
    · subst heq
      rw [Function.update_self]
      refine ⟨nofun, fun hb => ?_⟩
      exact absurd (hfirst b hb.1) (lt_irrefl _)
    · rw [Function.update_of_ne heq, h.armed_iff]
      refine and_congr_left fun _ => ?_
      rw [hids, List.mem_cons]
      exact or_iff_right heq
  · intro b
    show places _ b = if b < s.timer.made then 1 else 0
    rw [← h.once b]
    unfold places
    by_cases heq : b = id
    · subst heq
      simp [hi, h.armed_of_mem hin]
    · have hne : ¬ id = b := fun he => heq he.symm
      simp [hi, Function.update_of_ne heq, hne]

/-- The timer whose callback is called moves from the second place to the third. -/
theorem invoke (h : Inv s) (hi : s.invoking = some id) :
    Inv (Timing.invoke s id) ∧ (Timing.invoke s id).invoked = s.invoked ++ [id] ∧
      (Timing.invoke s id).invoking = none ∧ (Timing.invoke s id).armed = s.armed ∧
      (Timing.invoke s id).now = s.now ∧
      (Timing.invoke s id).timer.timerIds = s.timer.timerIds ∧
      ∀ b, (Timing.invoke s id).timer.tpOf b = s.timer.tpOf b := by
  have hcalled : (s.timer.invoke id).1 = true := by
    show (s.timer.timer id).invoke.1 = true
    rw [TimerId.invoke, h.not_canceled id]
    rfl
  have hinvoked : (Timing.invoke s id).invoked = s.invoked ++ [id] := if_pos hcalled
  have htp : ∀ b, (Timing.invoke s id).timer.tpOf b = s.timer.tpOf b := invoke_tp s.timer id
  refine ⟨⟨h.ordered.invoke id, ?_, ?_, ?_⟩, hinvoked, rfl, rfl, rfl, rfl, htp⟩
  · intro b tp
    show s.armed b = some tp ↔ b ∈ s.timer.timerIds ∧ (Timing.invoke s id).timer.tpOf b = tp
    rw [htp]
    exact h.armed_iff b tp
  · intro b
    show places _ b = if b < s.timer.made then 1 else 0
    rw [← h.once b]
    unfold places
    rw [hinvoked, List.count_append, hi]
    show (if s.armed b ≠ none then 1 else 0) + 0 + _ = _
    by_cases heq : id = b
    · subst heq
      simp
      omega
    · simp [heq]
  · intro b
    show (update s.timer.timer id (s.timer.timer id).invoke.2 b).canceled = false
    by_cases heq : b = id
    · subst heq
      rw [Function.update_self, TimerId.invoke, h.not_canceled b]
      exact h.not_canceled b
    · rw [Function.update_of_ne heq]
      exact h.not_canceled b

end Inv

/-- **The invariant holds along every run** whose steps keep the timers apart. -/
theorem inv_of_reachableBy {s : State}
    (h : system.ReachableBy (fun s a => NoCancel a ∧ KeepsApart s a) s) : Inv s := by
  refine h.invariant (I := Inv) ?_ ?_
  · refine ⟨⟨.nil, nofun⟩, fun id tp => ⟨nofun, fun ha => nomatch ha.1⟩, fun id => ?_, fun _ => rfl⟩
    rfl
  · intro s a s' hs hp hstep
    cases a with
    | add tp cb =>
      cases hstep
      exact hs.add cb hp.2
    | reset id tp =>
      unfold system step at hstep
      dsimp only at hstep
      split at hstep
      · next hid =>
        cases hstep
        exact hs.reset hid hp.2
      · cases hstep
    | cancel id => exact absurd hp.1 not_false
    | advance tp =>
      unfold system step at hstep
      dsimp only at hstep
      split at hstep
      · cases hstep
        exact ⟨hs.ordered, hs.armed_iff, hs.once, hs.not_canceled⟩
      · cases hstep
    | examine =>
      unfold system step at hstep
      dsimp only at hstep
      split at hstep
      · next hi =>
        cases hstep
        by_cases hdue : ∃ id rest, s.timer.timerIds = id :: rest ∧ s.timer.tpOf id ≤ s.now
        · obtain ⟨id, rest, hids, hle⟩ := hdue
          rw [Inv.examine_due hids hle]
          exact hs.taken hi hids
        · rw [Inv.examine_not_due fun id rest hids =>
            not_le.mp fun hle => hdue ⟨id, rest, hids, hle⟩]
          exact hs
      · cases hstep
    | invoke =>
      unfold system step at hstep
      dsimp only at hstep
      obtain ⟨id, hi, rfl⟩ := Option.map_eq_some_iff.mp hstep
      exact (hs.invoke hi).1

/-! ## The loop of `run()` -/

/-- With nothing else going on, the loop takes out and invokes the timers that are due. -/
theorem Inv.sweeps {ids : List TimerPtr} {s : State} (h : Inv s) (hi : s.invoking = none)
    (hids : s.timer.timerIds = ids) :
    ∃ order s', system.run s (sweep order.length) = some s' ∧ s'.invoked = s.invoked ++ order ∧
      (order.Pairwise fun a b => s.timer.tpOf a ≤ s.timer.tpOf b) ∧
      (∀ id, id ∈ order ↔ Due s id) ∧ ∀ id, ¬ Due s' id := by
  induction ids generalizing s with
  | nil =>
    have hnone : ∀ id, ¬ Due s id := by
      rintro id ⟨tp, ha, -⟩
      have hm := ((h.armed_iff id tp).mp ha).1
      rw [hids] at hm
      cases hm
    exact ⟨[], s, rfl, (List.append_nil _).symm, .nil, fun id => ⟨nofun, fun hd => absurd hd (hnone id)⟩,
      hnone⟩
  | cons x rest ih =>
    have hsorted := h.ordered.sorted
    rw [hids] at hsorted
    have hin : ∀ id tp, s.armed id = some tp → id ∈ x :: rest ∧ s.timer.tpOf id = tp := by
      intro id tp ha
      rw [← hids]
      exact (h.armed_iff id tp).mp ha
    by_cases hle : s.timer.tpOf x ≤ s.now
    · -- the first timer is taken out and invoked, the rest by induction
      have hexamine := examine_due hids hle
      have h1 := h.taken hi hids
      rw [← hexamine] at h1
      have hi1 : (examine s).invoking = some x := by rw [hexamine]
      obtain ⟨h2, hinv2, hi2, harmed2, hnow2, hids2, htp2⟩ := h1.invoke hi1
      have hrest : (Timing.invoke (examine s) x).timer.timerIds = rest := by
        rw [hids2, hexamine]
      obtain ⟨order, s', hrun, hinvoked, hpair, hmem, hleft⟩ := ih h2 hi2 hrest
      have htp : ∀ b, (Timing.invoke (examine s) x).timer.tpOf b = s.timer.tpOf b := by
        intro b
        rw [htp2, hexamine]
        rfl
      have hdue : ∀ id, Due (Timing.invoke (examine s) x) id ↔ id ≠ x ∧ Due s id := by
        intro id
        unfold Due
        rw [harmed2, hnow2, hexamine]
        show (∃ tp, update s.armed x none id = some tp ∧ tp ≤ s.now) ↔ _
        by_cases heq : id = x
        · subst heq
          rw [Function.update_self]
          constructor
          · rintro ⟨tp, ha, -⟩
            cases ha
          · rintro ⟨hne, -⟩
            exact absurd rfl hne
        · rw [Function.update_of_ne heq]
          exact (and_iff_right heq).symm
      have hx : Due s x := ⟨_, h.armed_of_mem (hids ▸ List.mem_cons_self), hle⟩
      refine ⟨x :: order, s', ?_, ?_, ?_, ?_, hleft⟩
      · have hstep1 : system.step s .examine = some (examine s) := if_pos hi
        have hstep2 : system.step (examine s) .invoke = some (Timing.invoke (examine s) x) := by
          show (examine s).invoking.map _ = _
          rw [hi1]
          rfl
        rw [List.length_cons, sweep, Lts.run_cons, hstep1, Option.bind_some, Lts.run_cons, hstep2,
          Option.bind_some, hrun]
      · rw [hinvoked, hinv2, hexamine, List.append_assoc]
        rfl
      · refine List.pairwise_cons.mpr ⟨fun b hb => ?_, ?_⟩
        · obtain ⟨-, tp, ha, -⟩ := (hdue b).mp ((hmem b).mp hb)
          exact hsorted.head_le (hin b tp ha).1
        · refine hpair.imp fun {a b} hab => ?_
          rwa [htp, htp] at hab
      · intro id
        rw [List.mem_cons, hmem, hdue]
        constructor
        · rintro (rfl | ⟨-, hd⟩)
          · exact hx
          · exact hd
        · intro hd
          by_cases heq : id = x
          · exact .inl heq
          · exact .inr ⟨heq, hd⟩
    · -- the first timer is not due, so no one is
      have hnone : ∀ id, ¬ Due s id := by
        rintro id ⟨tp, ha, htp⟩
        obtain ⟨hm, rfl⟩ := hin id tp ha
        exact hle (le_trans (hsorted.head_le hm) htp)
      exact ⟨[], s, rfl, (List.append_nil _).symm, .nil,
        fun id => ⟨nofun, fun hd => absurd hd (hnone id)⟩, hnone⟩

/-- An examination takes a least timer. -/
theorem Inv.least {s : State} (h : Inv s) {id : TimerPtr} (hi : s.invoking = none)
    (he : (examine s).invoking = some id) {b : TimerPtr} {tp : TimePoint}
    (ha : s.armed b = some tp) : s.timer.tpOf id ≤ tp := by
  by_cases hdue : ∃ x rest, s.timer.timerIds = x :: rest ∧ s.timer.tpOf x ≤ s.now
  · obtain ⟨x, rest, hids, hle⟩ := hdue
    rw [examine_due hids hle] at he
    obtain rfl := Option.some.inj he
    obtain ⟨hm, rfl⟩ := (h.armed_iff b tp).mp ha
    have hsorted := h.ordered.sorted
    rw [hids] at hm hsorted
    exact hsorted.head_le hm
  · rw [examine_not_due fun x rest hids => not_le.mp fun hle => hdue ⟨x, rest, hids, hle⟩, hi] at he
    cases he

/--
**Timers are neither lost nor duplicated**, and are invoked in order, in every run without `cancel`
whose calls bring no two timers with one time point together.
-/
theorem timely_of_keepsApart {s : State}
    (h : system.ReachableBy (fun s a => NoCancel a ∧ KeepsApart s a) s) : Timely s := by
  have hinv := inv_of_reachableBy h
  refine ⟨fun id tp => (hinv.armed_iff id tp).mp, fun id hid => ?_, ?_, fun hi => hinv.sweeps hi rfl⟩
  · rw [hinv.once id, if_pos hid]
  · exact fun id hi he b tp ha => hinv.least hi he ha

instance (a : Action) : Decidable (NoCancel a) := by
  cases a <;> unfold NoCancel <;> infer_instance

instance (s : State) (a : Action) : Decidable (KeepsApart s a) := by
  cases a <;> unfold KeepsApart <;> infer_instance

/-- Two timers, one of them reset past the other before both are due. -/
theorem timely_reset : ∃ s, system.runBy (fun s a => NoCancel a ∧ KeepsApart s a) system.init
    [.add 5 0, .add 7 1, .reset 0 9, .advance 8, .examine, .add 3 2, .invoke] = some s ∧ Timely s := by
  refine ⟨_, rfl, ?_⟩
  exact timely_of_keepsApart (Lts.ReachableBy.of_runBy .init
    (show system.runBy (fun s a => NoCancel a ∧ KeepsApart s a) system.init
      [.add 5 0, .add 7 1, .reset 0 9, .advance 8, .examine, .add 3 2, .invoke] = some _ from rfl))

/-- The second of two timers with one time point is not in the set. -/
theorem not_timely : ¬ ∀ s, system.ReachableBy (fun _ a => NoCancel a) s → Timely s := by
  intro h
  have hs := h _ (Lts.ReachableBy.of_runBy .init
    (show system.runBy (fun _ a => NoCancel a) system.init [.add 5 0, .add 5 1] = some _ from rfl))
  exact absurd (hs.pending 1 5 rfl).1 (by decide)

end Nemo.Coroutine.Timing
