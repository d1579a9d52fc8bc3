import Mathlib.Data.List.Basic
import Mathlib.Order.Defs.LinearOrder
import Mathlib.Order.Lattice

/-!
# Sets that are ordered by a key

A `std::set` whose comparison looks at a key of the elements only, as the list of its elements in
order. Two elements with the same key are the same element for the set: inserting the second one
does nothing, and erasing it erases the first one.
-/

namespace Infra.OrderedSet

variable {α κ : Type} [LinearOrder κ] (key : α → κ)

def insert (a : α) : List α → List α
  | [] => [a]
  | x :: xs =>
    if key a < key x then a :: x :: xs
    else if key x < key a then x :: insert a xs
    else x :: xs

/-- How many elements were erased, and what is left. -/
def erase (a : α) : List α → Nat × List α
  | [] => (0, [])
  | x :: xs =>
    if key x < key a then
      let (n, xs) := erase a xs
      (n, x :: xs)
    else if key a < key x then (0, x :: xs)
    else (1, xs)

/-- The element that has the key. -/
def find (a : α) : List α → Option α
  | [] => none
  | x :: xs =>
    if key x < key a then find a xs
    else if key a < key x then none
    else some x

/-- The keys increase. -/
def Sorted (xs : List α) : Prop := xs.Pairwise fun a b => key a < key b

variable {key} {a b : α} {xs : List α}

theorem Sorted.nil : Sorted key ([] : List α) := List.Pairwise.nil

theorem find_eq_none (h : ∀ c ∈ xs, key c ≠ key a) : find key a xs = none := by
  induction xs with
  | nil => rfl
  | cons x xs ih =>
    rw [find]
    split
    · exact ih fun c hc => h c (List.mem_cons_of_mem _ hc)
    · next hnlt =>
      split
      · rfl
      · next hnlt' => exact absurd (le_antisymm (not_lt.mp hnlt') (not_lt.mp hnlt)) (h x List.mem_cons_self)

/-- An element is in after an insertion if it was in before, or it is new and so is its key. -/
theorem mem_insert_iff (h : Sorted key xs) :
    b ∈ insert key a xs ↔ b ∈ xs ∨ (b = a ∧ ∀ c ∈ xs, key c ≠ key a) := by
  induction xs with
  | nil => simp [insert]
  | cons x xs ih =>
    obtain ⟨hx, hxs⟩ := List.pairwise_cons.mp h
    rw [insert]
    split
    · next hlt =>
      have hne : ∀ c ∈ x :: xs, key c ≠ key a := by
        intro c hc
        rcases List.mem_cons.mp hc with rfl | hc
        · exact ne_of_gt hlt
        · exact ne_of_gt (lt_trans hlt (hx c hc))
      rw [List.mem_cons]
      constructor
      · rintro (rfl | hm)
        · exact .inr ⟨rfl, hne⟩
        · exact .inl hm
      · rintro (hm | ⟨rfl, -⟩)
        · exact .inr hm
        · exact .inl rfl
    · next hnlt =>
      split
      · next hlt =>
        rw [List.mem_cons, ih hxs, List.mem_cons, or_assoc]
        refine or_congr_right (or_congr_right (and_congr_right fun _ => ?_))
        constructor
        · intro hall c hc
          rcases List.mem_cons.mp hc with rfl | hc
          · exact ne_of_lt hlt
          · exact hall c hc
        · exact fun hall c hc => hall c (List.mem_cons_of_mem _ hc)
      · next hnlt' =>
        have heq : key x = key a := le_antisymm (not_lt.mp hnlt) (not_lt.mp hnlt')
        constructor
        · exact .inl
        · rintro (hm | ⟨-, hall⟩)
          · exact hm
          · exact absurd heq (hall x List.mem_cons_self)

theorem Sorted.insert (h : Sorted key xs) (a : α) : Sorted key (insert key a xs) := by
  induction xs with
  | nil => exact List.pairwise_singleton ..
  | cons x xs ih =>
    obtain ⟨hx, hxs⟩ := List.pairwise_cons.mp h
    rw [OrderedSet.insert]
    split
    · next hlt =>
      refine List.pairwise_cons.mpr ⟨fun c hc => ?_, h⟩
      rcases List.mem_cons.mp hc with rfl | hc
      · exact hlt
      · exact lt_trans hlt (hx c hc)
    · split
      · next hlt =>
        refine List.pairwise_cons.mpr ⟨fun c hc => ?_, ih hxs⟩
        rcases (mem_insert_iff hxs).mp hc with hc | ⟨rfl, -⟩
        · exact hx c hc
        · exact hlt
      · exact h

/-- Erasing takes out whatever has the key. -/
theorem mem_erase_iff (h : Sorted key xs) : b ∈ (erase key a xs).2 ↔ b ∈ xs ∧ key b ≠ key a := by
  induction xs with
  | nil => simp [erase]
  | cons x xs ih =>
    obtain ⟨hx, hxs⟩ := List.pairwise_cons.mp h
    rw [erase]
    split
    · next hlt =>
      dsimp only
      rw [List.mem_cons, ih hxs, List.mem_cons]
      constructor
      · rintro (rfl | ⟨hm, hne⟩)
        · exact ⟨.inl rfl, ne_of_lt hlt⟩
        · exact ⟨.inr hm, hne⟩
      · rintro ⟨rfl | hm, hne⟩
        · exact .inl rfl
        · exact .inr ⟨hm, hne⟩
    · next hnlt =>
      split
      · next hlt =>
        refine ⟨fun hm => ⟨hm, ?_⟩, And.left⟩
        rcases List.mem_cons.mp hm with rfl | hm
        · exact ne_of_gt hlt
        · exact ne_of_gt (lt_trans hlt (hx b hm))
      · next hnlt' =>
        have heq : key x = key a := le_antisymm (not_lt.mp hnlt') (not_lt.mp hnlt)
        constructor
        · intro hm
          exact ⟨List.mem_cons_of_mem _ hm, ne_of_gt (heq ▸ hx b hm)⟩
        · rintro ⟨hm, hne⟩
          rcases List.mem_cons.mp hm with rfl | hm
          · exact absurd heq hne
          · exact hm

theorem erase_sublist (a : α) (xs : List α) : (erase key a xs).2.Sublist xs := by
  induction xs with
  | nil => exact .refl _
  | cons x xs ih =>
    rw [erase]
    split
    · exact ih.cons_cons x
    · split
      · exact .refl _
      · exact List.sublist_cons_self x xs

theorem Sorted.erase (h : Sorted key xs) (a : α) : Sorted key (erase key a xs).2 :=
  h.sublist (erase_sublist a xs)

/-- One element is erased if there is one with the key. -/
theorem erase_fst (h : Sorted key xs) :
    ((erase key a xs).1 = 1 ↔ ∃ c ∈ xs, key c = key a) := by
  induction xs with
  | nil => simp [OrderedSet.erase]
  | cons x xs ih =>
    obtain ⟨hx, hxs⟩ := List.pairwise_cons.mp h
    rw [OrderedSet.erase]
    split
    · next hlt =>
      dsimp only
      rw [ih hxs]
      constructor
      · rintro ⟨c, hc, heq⟩
        exact ⟨c, List.mem_cons_of_mem _ hc, heq⟩
      · rintro ⟨c, hc, heq⟩
        rcases List.mem_cons.mp hc with rfl | hc
        · exact absurd heq (ne_of_lt hlt)
        · exact ⟨c, hc, heq⟩
    · next hnlt =>
      split
      · next hlt =>
        refine ⟨nofun, ?_⟩
        rintro ⟨c, hc, heq⟩
        rcases List.mem_cons.mp hc with rfl | hc
        · exact absurd heq (ne_of_gt hlt)
        · exact absurd heq (ne_of_gt (lt_trans hlt (hx c hc)))
      · next hnlt' =>
        have heq : key x = key a := le_antisymm (not_lt.mp hnlt') (not_lt.mp hnlt)
        exact ⟨fun _ => ⟨x, List.mem_cons_self, heq⟩, fun _ => rfl⟩

/-- No two elements share a key. -/
theorem Sorted.eq_of_key (h : Sorted key xs) (ha : a ∈ xs) (hb : b ∈ xs) (heq : key a = key b) :
    a = b := by
  induction xs with
  | nil => cases ha
  | cons x xs ih =>
    obtain ⟨hx, hxs⟩ := List.pairwise_cons.mp h
    rcases List.mem_cons.mp ha with rfl | hat
    · rcases List.mem_cons.mp hb with rfl | hbt
      · rfl
      · exact absurd heq (ne_of_lt (hx b hbt))
    · rcases List.mem_cons.mp hb with rfl | hbt
      · exact absurd heq (ne_of_gt (hx a hat))
      · exact ih hxs hat hbt

/-- Whether a set is sorted depends on the keys of its elements. -/
theorem Sorted.congr {key' : α → κ} (h : Sorted key xs) (heq : ∀ c ∈ xs, key' c = key c) :
    Sorted key' xs := by
  refine List.Pairwise.imp_of_mem ?_ h
  intro c d hc hd hlt
  rwa [heq c hc, heq d hd]

/-- The first element has the least key. -/
theorem Sorted.head_le {x : α} (h : Sorted key (x :: xs)) (hb : b ∈ x :: xs) : key x ≤ key b := by
  rcases List.mem_cons.mp hb with rfl | hb
  · exact le_refl _
  · exact le_of_lt ((List.pairwise_cons.mp h).1 b hb)

end Infra.OrderedSet
