import Mathlib.Data.List.Nodup
import Mathlib.Data.List.Induction

/-!
# Groups of what is seen first

A list of pairs, of an owner and a thing, is grouped by owner in two ways:

* `groupOf ps a` — the things that are paired with `a`, each once, in the order of first appearance
* `firstOf ps a` — the things whose first pair is with `a`

The second is what a loop computes that keeps one table of the things seen. The two are the same for
all owners exactly if each thing has one owner (`firstOf_eq_iff`).
-/

namespace Infra.FirstSeen

variable {α β : Type} [DecidableEq α] [DecidableEq β]

def groupOf (ps : List (α × β)) (a : α) : List β := ((ps.filter (·.1 = a)).map Prod.snd).eraseDups

/-- The pairs whose thing no pair before them has. -/
def fresh (ps : List (α × β)) : List (α × β) :=
  ps.foldl (fun seen p => if p.2 ∈ seen.map Prod.snd then seen else seen ++ [p]) []

def firstOf (ps : List (α × β)) (a : α) : List β := ((fresh ps).filter (·.1 = a)).map Prod.snd

variable {ps : List (α × β)} {p : α × β} {a a' : α} {b : β}

theorem eraseDups_concat (bs : List β) (b : β) :
    (bs ++ [b]).eraseDups = if b ∈ bs then bs.eraseDups else bs.eraseDups ++ [b] := by
  rw [List.eraseDups_append]
  by_cases hb : b ∈ bs
  · simp [hb, List.removeAll]
  · simp [hb, List.removeAll, List.eraseDups_cons]

theorem groupOf_concat :
    groupOf (ps ++ [p]) a
      = if p.1 = a ∧ p.2 ∉ groupOf ps a then groupOf ps a ++ [p.2] else groupOf ps a := by
  by_cases ha : p.1 = a
  · simp only [groupOf, List.filter_append, List.map_append, ha, true_and, List.mem_eraseDups]
    simp only [List.filter_cons, ha, decide_true, if_true, List.filter_nil, List.map_cons, List.map_nil]
    rw [eraseDups_concat]
    split <;> simp_all
  · simp [groupOf, List.filter_append, ha]

omit [DecidableEq α] in
theorem fresh_concat :
    fresh (ps ++ [p]) = if p.2 ∈ (fresh ps).map Prod.snd then fresh ps else fresh ps ++ [p] := by
  rw [fresh, List.foldl_concat]
  rfl

omit [DecidableEq α] in
theorem mem_map_fresh : b ∈ (fresh ps).map Prod.snd ↔ b ∈ ps.map Prod.snd := by
  induction ps using List.reverseRecOn with
  | nil => rfl
  | append_singleton ps p ih =>
    rw [fresh_concat, List.map_append, List.mem_append, List.map_singleton, List.mem_singleton]
    by_cases hp : p.2 ∈ (fresh ps).map Prod.snd
    · rw [if_pos hp, ih]
      constructor
      · exact .inl
      · rintro (hb | rfl)
        · exact hb
        · exact ih.mp hp
    · rw [if_neg hp, List.map_append, List.mem_append, ih, List.map_singleton, List.mem_singleton]

theorem firstOf_concat :
    firstOf (ps ++ [p]) a
      = if p.1 = a ∧ p.2 ∉ ps.map Prod.snd then firstOf ps a ++ [p.2] else firstOf ps a := by
  rw [firstOf, fresh_concat]
  by_cases hp : p.2 ∈ ps.map Prod.snd
  · rw [if_pos (mem_map_fresh.mpr hp), if_neg fun h => h.2 hp]
    rfl
  · rw [if_neg fun h => hp (mem_map_fresh.mp h), List.filter_append, List.map_append]
    by_cases ha : p.1 = a
    · rw [if_pos ⟨ha, hp⟩, List.filter_singleton, decide_eq_true ha]
      rfl
    · rw [if_neg fun h => ha h.1, List.filter_singleton, decide_eq_false ha]
      exact List.append_nil _

theorem mem_of_mem_firstOf (h : b ∈ firstOf ps a) : (a, b) ∈ ps := by
  induction ps using List.reverseRecOn with
  | nil => cases h
  | append_singleton ps p ih =>
    rw [firstOf_concat] at h
    rw [List.mem_append, List.mem_singleton]
    split at h
    · next hp =>
      rcases List.mem_append.mp h with h | h
      · exact .inl (ih h)
      · exact .inr (Prod.ext hp.1.symm (List.mem_singleton.mp h))
    · exact .inl (ih h)

omit [DecidableEq α] in
theorem nodup_map_fresh (ps : List (α × β)) : ((fresh ps).map Prod.snd).Nodup := by
  induction ps using List.reverseRecOn with
  | nil => exact .nil
  | append_singleton ps p ih =>
    rw [fresh_concat]
    split
    · exact ih
    · next hp =>
      rw [List.map_append]
      refine List.nodup_append.mpr ⟨ih, List.nodup_singleton _, ?_⟩
      rintro b hb _ hc rfl
      exact hp (List.mem_singleton.mp hc ▸ hb)

/-- It has only one. -/
theorem owner_unique (h : b ∈ firstOf ps a) (h' : b ∈ firstOf ps a') : a = a' := by
  obtain ⟨p, hp, rfl⟩ := List.mem_map.mp h
  obtain ⟨q, hq, heq⟩ := List.mem_map.mp h'
  obtain ⟨hp, hpa⟩ := List.mem_filter.mp hp
  obtain ⟨hq, hqa⟩ := List.mem_filter.mp hq
  have hqp : q = p := List.inj_on_of_nodup_map (nodup_map_fresh ps) hq hp heq
  rw [hqp] at hqa
  exact (of_decide_eq_true hpa).symm.trans (of_decide_eq_true hqa)

theorem mem_groupOf : b ∈ groupOf ps a ↔ (a, b) ∈ ps := by
  simp [groupOf, List.mem_eraseDups]

/-- The groups are the same exactly if each thing has one owner. -/
theorem firstOf_eq_iff :
    (∀ a, firstOf ps a = groupOf ps a) ↔ ∀ p ∈ ps, ∀ q ∈ ps, p.2 = q.2 → p.1 = q.1 := by
  constructor
  · rintro h ⟨a, b⟩ hp ⟨a', b'⟩ hq rfl
    have hb : b ∈ firstOf ps a := h a ▸ mem_groupOf.mpr hp
    have hb' : b ∈ firstOf ps a' := h a' ▸ mem_groupOf.mpr hq
    exact owner_unique hb hb'
  · induction ps using List.reverseRecOn with
    | nil => exact fun _ _ => rfl
    | append_singleton ps p ih =>
      intro h a
      have hold : ∀ q ∈ ps, ∀ q' ∈ ps, q.2 = q'.2 → q.1 = q'.1 := fun q hq q' hq' =>
        h q (List.mem_append_left _ hq) q' (List.mem_append_left _ hq')
      rw [firstOf_concat, groupOf_concat, ih hold a]
      by_cases ha : p.1 = a
      · -- the thing was seen before exactly if it was seen with this owner
        have hseen : p.2 ∈ ps.map Prod.snd ↔ p.2 ∈ groupOf ps a := by
          rw [mem_groupOf]
          constructor
          · intro hp
            obtain ⟨q, hq, heq⟩ := List.mem_map.mp hp
            have howner := h q (List.mem_append_left _ hq) p (by simp) heq
            rw [← ha, ← howner, ← heq]
            exact hq
          · exact fun hp => List.mem_map.mpr ⟨_, hp, rfl⟩
        simp only [ha, hseen, true_and]
      · rw [if_neg fun h => ha h.1, if_neg fun h => ha h.1]

end Infra.FirstSeen
