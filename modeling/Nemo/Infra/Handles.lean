import Mathlib.Logic.Function.Basic

/-!
# Handles

Resources that are opened and closed, and the owners that have them. An owner has one resource at most.

`Changes lossy h h'` says that `h'` comes from `h` by opening and closing; if `lossy`, resources may be opened for
nobody, and owners may forget what they have.

* `Changes.sound` — what an owner has is open, and no other owner has it
* `Changes.covered` — what is open has an owner, if nothing is lost
* `Changes.lost` — what has been lost stays open, and nobody gets it again
-/

namespace Infra

open Function (update)

structure Handles (ι R : Type) where
  isOpen : R → Bool
  owner : ι → Option R

namespace Handles

variable {ι R : Type} [DecidableEq ι] [DecidableEq R] (h : Handles ι R) (x : ι) (r : R)

def opened : Handles ι R := ⟨update h.isOpen r true, update h.owner x (some r)⟩

/-- The resource is open, and nobody has it. -/
def strayed : Handles ι R := { h with isOpen := update h.isOpen r true }

def closed : Handles ι R := ⟨update h.isOpen r false, update h.owner x none⟩

/-- The owner is gone, or has forgotten what it had. -/
def dropped : Handles ι R := { h with owner := update h.owner x none }

inductive Changes (lossy : Bool) (h : Handles ι R) : Handles ι R → Prop
  | refl : Changes lossy h h
  | opened {h' : Handles ι R} {x : ι} {r : R} (hc : Changes lossy h h') (hr : h'.isOpen r = false)
      (hx : h'.owner x = none) : Changes lossy h (h'.opened x r)
  | strayed {h' : Handles ι R} {r : R} (hc : Changes lossy h h') (hloss : lossy = true) (hr : h'.isOpen r = false) :
      Changes lossy h (h'.strayed r)
  | closed {h' : Handles ι R} {x : ι} {r : R} (hc : Changes lossy h h') (hx : h'.owner x = some r) :
      Changes lossy h (h'.closed x r)
  | dropped {h' : Handles ι R} {x : ι} (hc : Changes lossy h h') (hloss : lossy = true ∨ h'.owner x = none) :
      Changes lossy h (h'.dropped x)

/-- What an owner has is open, and no other owner has it. -/
structure Sound : Prop where
  isOpen : ∀ x r, h.owner x = some r → h.isOpen r = true
  unique : ∀ x y r, h.owner x = some r → h.owner y = some r → x = y

/-- What is open has an owner. -/
def Covered : Prop := ∀ r, h.isOpen r = true → ∃ x, h.owner x = some r

/-- The resource is open, and has no owner. -/
def Lost : Prop := h.isOpen r = true ∧ ∀ x, h.owner x ≠ some r

variable {h h' h'' : Handles ι R} {x : ι} {r : R} {lossy : Bool}

theorem Changes.trans (hc : Changes lossy h h') (hc' : Changes lossy h' h'') : Changes lossy h h'' := by
  induction hc' with
  | refl => exact hc
  | opened _ hr hx ih => exact .opened ih hr hx
  | strayed _ hloss hr ih => exact .strayed ih hloss hr
  | closed _ hx ih => exact .closed ih hx
  | dropped _ hloss ih => exact .dropped ih hloss

theorem Sound.opened (hs : h.Sound) (hr : h.isOpen r = false) : (h.opened x r).Sound := by
  have hnobody : ∀ y, h.owner y ≠ some r := fun y hy => by
    have := hs.isOpen y r hy
    rw [hr] at this
    cases this
  constructor
  · intro y s hy
    unfold Handles.opened at hy ⊢
    dsimp only at hy ⊢
    rw [Function.update_apply] at hy ⊢
    split
    · rfl
    · next hne =>
      split at hy
      · exact absurd (Option.some.inj hy).symm hne
      · exact hs.isOpen y s hy
  · intro y z s hy hz
    unfold Handles.opened at hy hz
    dsimp only at hy hz
    rw [Function.update_apply] at hy hz
    split at hy
    · next hyx =>
      cases hy
      split at hz
      · next hzx => exact hyx.trans hzx.symm
      · exact absurd hz (hnobody z)
    · split at hz
      · cases hz
        exact absurd hy (hnobody y)
      · exact hs.unique y z s hy hz

omit [DecidableEq ι] in
theorem Sound.strayed (hs : h.Sound) : (h.strayed r).Sound := by
  refine ⟨fun y s hy => ?_, hs.unique⟩
  unfold Handles.strayed
  dsimp only
  rw [Function.update_apply]
  split
  · rfl
  · exact hs.isOpen y s hy

omit [DecidableEq R] in
theorem Sound.dropped (hs : h.Sound) : (h.dropped x).Sound := by
  have hold : ∀ {y s}, (h.dropped x).owner y = some s → h.owner y = some s := fun {y s} hy => by
    unfold Handles.dropped at hy
    dsimp only at hy
    rw [Function.update_apply] at hy
    split at hy
    · cases hy
    · exact hy
  exact ⟨fun y s hy => hs.isOpen y s (hold hy), fun y z s hy hz => hs.unique y z s (hold hy) (hold hz)⟩

theorem Sound.closed (hs : h.Sound) (hx : h.owner x = some r) : (h.closed x r).Sound := by
  have hdropped : (h.dropped x).Sound := hs.dropped
  refine ⟨fun y s hy => ?_, hdropped.unique⟩
  unfold Handles.closed
  dsimp only
  rw [Function.update_apply]
  split
  · next hsr =>
    -- it was the owner that has closed it
    unfold Handles.closed at hy
    dsimp only at hy
    rw [Function.update_apply] at hy
    split at hy
    · cases hy
    · next hne => exact absurd (hs.unique y x r (hsr ▸ hy) hx) hne
  · exact hdropped.isOpen y s hy

theorem Changes.sound (hc : Changes lossy h h') (hs : h.Sound) : h'.Sound := by
  induction hc with
  | refl => exact hs
  | opened _ hr _ ih => exact ih.opened hr
  | strayed _ _ _ ih => exact ih.strayed
  | closed _ hx ih => exact ih.closed hx
  | dropped _ _ ih => exact ih.dropped

theorem Changes.covered (hc : Changes false h h') (hcov : h.Covered) : h'.Covered := by
  induction hc with
  | refl => exact hcov
  | @opened h' x r _ hr hx ih =>
    intro s hs
    unfold Handles.opened at hs ⊢
    dsimp only at hs ⊢
    rw [Function.update_apply] at hs
    split at hs
    · next hsr => exact ⟨x, by rw [Function.update_self, hsr]⟩
    · obtain ⟨y, hy⟩ := ih s hs
      have hne : y ≠ x := fun heq => by
        rw [heq, hx] at hy
        cases hy
      exact ⟨y, by rw [Function.update_of_ne hne, hy]⟩
  | strayed _ hloss _ _ => cases hloss
  | @closed h' x r _ hx ih =>
    intro s hs
    unfold Handles.closed at hs ⊢
    dsimp only at hs ⊢
    rw [Function.update_apply] at hs
    split at hs
    · cases hs
    · next hne =>
      obtain ⟨y, hy⟩ := ih s hs
      have hne' : y ≠ x := fun heq => by
        rw [heq, hx] at hy
        exact hne (Option.some.inj hy).symm
      exact ⟨y, by rw [Function.update_of_ne hne', hy]⟩
  | @dropped h' x _ hloss ih =>
    have hx := hloss.resolve_left (by decide)
    intro s hs
    obtain ⟨y, hy⟩ := ih s hs
    have hne : y ≠ x := fun heq => by
      rw [heq, hx] at hy
      cases hy
    exact ⟨y, by unfold Handles.dropped; dsimp only; rw [Function.update_of_ne hne, hy]⟩

omit [DecidableEq R] in
/-- A value at one point is there, or it was there before. -/
theorem ne_update {owner : ι → Option R} {o : Option R} (ho : o ≠ some r) (h : ∀ y, owner y ≠ some r) (y : ι) :
    update owner x o y ≠ some r := by
  rw [Function.update_apply]
  split
  · exact ho
  · exact h y

theorem Changes.lost (hc : Changes lossy h h') (hlost : h.Lost r) : h'.Lost r := by
  induction hc with
  | refl => exact hlost
  | @opened h' x s _ hs _ ih =>
    obtain ⟨hr, howner⟩ := ih
    have hne : r ≠ s := fun heq => by
      rw [heq, hs] at hr
      cases hr
    exact ⟨(Function.update_of_ne hne ..).trans hr, ne_update (fun heq => hne (Option.some.inj heq).symm) howner⟩
  | @strayed h' s _ _ hs ih =>
    obtain ⟨hr, howner⟩ := ih
    have hne : r ≠ s := fun heq => by
      rw [heq, hs] at hr
      cases hr
    exact ⟨(Function.update_of_ne hne ..).trans hr, howner⟩
  | @closed h' x s _ hx ih =>
    obtain ⟨hr, howner⟩ := ih
    have hne : r ≠ s := fun heq => howner x (heq ▸ hx)
    exact ⟨(Function.update_of_ne hne ..).trans hr, ne_update (by simp) howner⟩
  | dropped _ _ ih => exact ⟨ih.1, ne_update (by simp) ih.2⟩

end Handles

end Infra
