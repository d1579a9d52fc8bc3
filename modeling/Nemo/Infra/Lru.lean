import Mathlib.Data.List.Nodup

/-!
# Least recently used

A cache of at most `limit` pairs as the list of its pairs, the most recently used key first. A hit
and a put move the key to the front, and a put of a new key into a full cache evicts the last one.

`back` says at which end a new key comes in: `false` is least recently used, and with `true` a new
key is the next one to be evicted.
-/

namespace Infra.Lru

variable {K V : Type} [DecidableEq K]

/-- The pairs, the most recently used first. -/
abbrev Pairs (K V : Type) := List (K × V)

def find (key : K) (xs : Pairs K V) : Option V := (xs.find? (·.1 = key)).map (·.2)

def erase (key : K) (xs : Pairs K V) : Pairs K V := xs.filter (·.1 ≠ key)

def evict (limit : Nat) (xs : Pairs K V) : Pairs K V :=
  if limit ≤ xs.length then xs.dropLast else xs

def get (key : K) (xs : Pairs K V) : Option V × Pairs K V :=
  match find key xs with
  | some v => (some v, (key, v) :: erase key xs)
  | none => (none, xs)

def put (back : Bool) (limit : Nat) (key : K) (v : V) (xs : Pairs K V) : Pairs K V :=
  match find key xs with
  | some _ => (key, v) :: erase key xs
  | none => if back then evict limit xs ++ [(key, v)] else (key, v) :: evict limit xs

/-- Into an empty list both ends are the same. -/
theorem put_eq_of_evict_nil {limit : Nat} {key : K} {xs : Pairs K V}
    (h : evict limit xs = []) (back : Bool) (v : V) :
    put back limit key v xs = put false limit key v xs := by
  unfold put
  split
  · rfl
  · rw [h]
    cases back <;> rfl

theorem put_eq_of_find {limit : Nat} {key : K} {xs : Pairs K V} (h : find key xs ≠ none)
    (back : Bool) (v : V) : put back limit key v xs = put false limit key v xs := by
  unfold put
  split
  · rfl
  · next hnone => exact absurd hnone h

/-- Taking out a key that is there once. -/
theorem erase_middle {as bs : Pairs K V} {key : K} {v : V}
    (h : ((as ++ (key, v) :: bs).map Prod.fst).Nodup) :
    erase key (as ++ (key, v) :: bs) = as ++ bs := by
  rw [List.map_append, List.map_cons] at h
  have hnot := (List.nodup_cons.mp (List.nodup_middle.mp h)).1
  have hkeep : ∀ cs : Pairs K V, (∀ c ∈ cs, c ∈ as ∨ c ∈ bs) → cs.filter (·.1 ≠ key) = cs := by
    intro cs hcs
    rw [List.filter_eq_self]
    intro c hc
    rw [decide_eq_true_iff]
    rintro rfl
    apply hnot
    rw [← List.map_append]
    exact List.mem_map.mpr ⟨c, List.mem_append.mpr (hcs c hc), rfl⟩
  rw [erase, List.filter_append, List.filter_cons, if_neg (by simp),
    hkeep as fun c hc => .inl hc, hkeep bs fun c hc => .inr hc]

/-- Finding a key that is there once. -/
theorem find_middle {as bs : Pairs K V} {key : K} {v : V}
    (h : ((as ++ (key, v) :: bs).map Prod.fst).Nodup) :
    find key (as ++ (key, v) :: bs) = some v := by
  rw [List.map_append, List.map_cons] at h
  have hnot := (List.nodup_cons.mp (List.nodup_middle.mp h)).1
  have has : as.find? (fun c => decide (c.1 = key)) = none := by
    rw [List.find?_eq_none]
    intro c hc
    rw [decide_eq_true_iff]
    rintro rfl
    exact hnot (List.mem_append_left _ (List.mem_map.mpr ⟨c, hc, rfl⟩))
  rw [find, List.find?_append, has, Option.none_or, List.find?_cons_of_pos (by simp)]
  rfl

theorem find_eq_none_iff {key : K} {xs : Pairs K V} :
    find key xs = none ↔ key ∉ xs.map Prod.fst := by
  rw [find, Option.map_eq_none_iff, List.find?_eq_none]
  constructor
  · intro h hm
    obtain ⟨c, hc, rfl⟩ := List.mem_map.mp hm
    exact h c hc (decide_eq_true rfl)
  · intro h c hc heq
    rw [decide_eq_true_iff] at heq
    exact h (heq ▸ List.mem_map_of_mem hc)

end Infra.Lru
