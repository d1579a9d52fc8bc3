import Mathlib.Data.List.Nodup
import Mathlib.Data.List.Pairwise
import Mathlib.Data.List.Perm.Basic

/-!
# Items held in places

A distribution `d : ι → List α` says which items each place holds, in order.
`Exclusive d` says that no item is held twice, neither by two places nor twice by one.

The one rule that the proofs about a concrete system need is `Keeps.of_perm`: an operation that
only rearranges what a finite list of places holds keeps the distribution exclusive, and loses
nothing but what it drops.
-/

namespace Infra

variable {ι α : Type}

/-- No item is held twice. -/
structure Exclusive (d : ι → List α) : Prop where
  nodup : ∀ i, (d i).Nodup
  unique : ∀ i j a, a ∈ d i → a ∈ d j → i = j

/-- `a` is held somewhere. -/
def Held (d : ι → List α) (a : α) : Prop := ∃ i, a ∈ d i

/-- Places that hold nothing in common can be laid out side by side without repetition. -/
theorem Exclusive.nodup_flatMap {d : ι → List α} (h : Exclusive d) {L : List ι} (hL : L.Nodup) :
    (L.flatMap d).Nodup := by
  rw [List.nodup_flatMap]
  refine ⟨fun i _ => h.nodup i, ?_⟩
  refine hL.imp fun {i j} hij => ?_
  intro a hi hj
  exact hij (h.unique i j a hi hj)

/-- What is held after a rearrangement was held before. -/
theorem held_of_perm {d d' : ι → List α} {L : List ι} {dropped : List α}
    (hrest : ∀ i, i ∉ L → d' i = d i) (hp : (L.flatMap d' ++ dropped).Perm (L.flatMap d)) {a : α}
    (h : Held d' a) : Held d a := by
  obtain ⟨i, hi⟩ := h
  by_cases hiL : i ∈ L
  · have hm : a ∈ L.flatMap d :=
      hp.subset (List.mem_append_left _ (List.mem_flatMap.mpr ⟨i, hiL, hi⟩))
    obtain ⟨j, _, hj⟩ := List.mem_flatMap.mp hm
    exact ⟨j, hj⟩
  · exact ⟨i, by rwa [hrest i hiL] at hi⟩

/-- What is held before a rearrangement is held after it, or is dropped. -/
theorem held_or_dropped_of_perm {d d' : ι → List α} {L : List ι} {dropped : List α}
    (hrest : ∀ i, i ∉ L → d' i = d i) (hp : (L.flatMap d' ++ dropped).Perm (L.flatMap d)) {a : α}
    (h : Held d a) : Held d' a ∨ a ∈ dropped := by
  obtain ⟨i, hi⟩ := h
  by_cases hiL : i ∈ L
  · rcases List.mem_append.mp (hp.mem_iff.mpr (List.mem_flatMap.mpr ⟨i, hiL, hi⟩)) with hm | hm
    · obtain ⟨j, _, hj⟩ := List.mem_flatMap.mp hm
      exact Or.inl ⟨j, hj⟩
    · exact Or.inr hm
  · exact Or.inl ⟨i, by rwa [hrest i hiL]⟩

/--
**Rearranging keeps a distribution exclusive.** `L` is a list of distinct places; together they
keep what they held, up to order and up to what is dropped, and every other place is untouched.
-/
theorem Exclusive.of_perm {d d' : ι → List α} (h : Exclusive d) {L : List ι} {dropped : List α}
    (hL : L.Nodup) (hrest : ∀ i, i ∉ L → d' i = d i)
    (hp : (L.flatMap d' ++ dropped).Perm (L.flatMap d)) : Exclusive d' := by
  have hnd : (L.flatMap d').Nodup :=
    (List.nodup_append.mp (hp.nodup_iff.mpr (h.nodup_flatMap hL))).1
  rw [List.nodup_flatMap] at hnd
  obtain ⟨hin, hdis⟩ := hnd
  have hback : ∀ i ∈ L, ∀ a ∈ d' i, ∃ j ∈ L, a ∈ d j := by
    intro i hi a ha
    have hm := hp.subset (List.mem_append_left _ (List.mem_flatMap.mpr ⟨i, hi, ha⟩))
    simpa only [List.mem_flatMap] using hm
  refine ⟨fun i => ?_, fun i j a hi hj => ?_⟩
  · by_cases hiL : i ∈ L
    · exact hin i hiL
    · rw [hrest i hiL]; exact h.nodup i
  · by_cases hiL : i ∈ L <;> by_cases hjL : j ∈ L
    · by_contra hij
      have hsymm : Std.Symm (Function.onFun List.Disjoint d') := ⟨fun _ _ hd _ ha hb => hd hb ha⟩
      exact hdis.forall hiL hjL hij hi hj
    · obtain ⟨k, hk, hak⟩ := hback i hiL a hi
      rw [hrest j hjL] at hj
      exact absurd (h.unique k j a hak hj ▸ hk) hjL
    · obtain ⟨k, hk, hak⟩ := hback j hjL a hj
      rw [hrest i hiL] at hi
      exact absurd (h.unique k i a hak hi ▸ hk) hiL
    · rw [hrest i hiL] at hi
      rw [hrest j hjL] at hj
      exact h.unique i j a hi hj

/-- `d'` holds nothing new and loses only items for which `dead` holds, and it holds nothing twice
if `d` does not. -/
structure Keeps (dead : α → Prop) (d d' : ι → List α) : Prop where
  exclusive : Exclusive d → Exclusive d'
  old : ∀ a, Held d' a → Held d a
  kept : ∀ a, ¬ dead a → Held d a → Held d' a

theorem Keeps.of_eq {dead : α → Prop} {d d' : ι → List α} (h : d' = d) : Keeps dead d d' := by
  subst h
  exact ⟨id, fun _ => id, fun _ _ => id⟩

/-- A rearrangement of a finite list of places, from which dead items may be dropped. -/
theorem Keeps.of_perm {dead : α → Prop} {d d' : ι → List α} (L : List ι) (dropped : List α)
    (hL : L.Nodup) (hrest : ∀ i, i ∉ L → d' i = d i)
    (hp : (L.flatMap d' ++ dropped).Perm (L.flatMap d)) (hdead : ∀ a ∈ dropped, dead a) :
    Keeps dead d d' where
  exclusive h := h.of_perm hL hrest hp
  old _ h := held_of_perm hrest hp h
  kept a ha h := (held_or_dropped_of_perm hrest hp h).resolve_right fun hd => ha (hdead a hd)

/-- Items that nobody held may be handed to one place. -/
theorem Exclusive.of_add {d d' : ι → List α} (h : Exclusive d) {i : ι} {new : List α}
    (hrest : ∀ j, j ≠ i → d' j = d j) (hi : d' i = d i ++ new) (hnd : new.Nodup)
    (hnew : ∀ a ∈ new, ¬ Held d a) : Exclusive d' := by
  have hmem : ∀ j a, a ∈ d' j → (a ∈ d j ∧ a ∉ new) ∨ (j = i ∧ a ∈ new) := by
    intro j a ha
    by_cases hj : j = i
    · subst hj
      rw [hi, List.mem_append] at ha
      rcases ha with ha | ha
      · exact Or.inl ⟨ha, fun hn => hnew a hn ⟨j, ha⟩⟩
      · exact Or.inr ⟨rfl, ha⟩
    · rw [hrest j hj] at ha
      exact Or.inl ⟨ha, fun hn => hnew a hn ⟨j, ha⟩⟩
  refine ⟨fun j => ?_, fun j k a hj hk => ?_⟩
  · by_cases hj : j = i
    · subst hj
      rw [hi, List.nodup_append]
      refine ⟨h.nodup j, hnd, fun a ha b hb hab => hnew b hb ⟨j, hab ▸ ha⟩⟩
    · rw [hrest j hj]; exact h.nodup j
  · rcases hmem j a hj with ⟨hj', hnj⟩ | ⟨rfl, hnj⟩ <;>
      rcases hmem k a hk with ⟨hk', hnk⟩ | ⟨rfl, hnk⟩
    · exact h.unique j k a hj' hk'
    · exact absurd hnk hnj
    · exact absurd hnj hnk
    · rfl

theorem held_of_add {d d' : ι → List α} {i : ι} {new : List α} (hrest : ∀ j, j ≠ i → d' j = d j)
    (hi : d' i = d i ++ new) (a : α) : Held d' a ↔ Held d a ∨ a ∈ new := by
  constructor
  · rintro ⟨j, hj⟩
    by_cases hji : j = i
    · rw [hji, hi, List.mem_append] at hj
      exact hj.imp (fun h => ⟨i, h⟩) id
    · exact Or.inl ⟨j, by rwa [hrest j hji] at hj⟩
  · rintro (⟨j, hj⟩ | hn)
    · by_cases hji : j = i
      · exact ⟨i, by rw [hi]; exact List.mem_append_left _ (hji ▸ hj)⟩
      · exact ⟨j, by rwa [hrest j hji]⟩
    · exact ⟨i, by rw [hi]; exact List.mem_append_right _ hn⟩

end Infra
