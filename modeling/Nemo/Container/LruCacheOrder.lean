import Nemo.Container.LruCacheInvariant

/-!
# When an `LruCache` evicts the least recently used key

Three of the four `put` link a new node before the header, where the next eviction takes it. A
cache whose new keys come in through the fourth one, or into an empty list, is a least recently
used cache.
-/

namespace Nemo.LruCache

open Infra

variable {K V : Type} [DecidableEq K]

/-- A call on the least recently used cache. -/
def stepLru (limit : Nat) : Op K V → Lru.Pairs K V → Option V × Lru.Pairs K V
  | .get key, xs => Lru.get key xs
  | .put _ key v, xs => (none, Lru.put false limit key v xs)
  | .clear, _ => (none, [])

/-- The call does not put a new key behind other ones. -/
def LinksInFront (limit : Nat) (op : Op K V) (xs : Lru.Pairs K V) : Prop :=
  match op with
  | .put overload key _ =>
    overload = .moveMove ∨ Lru.find key xs ≠ none ∨ Lru.evict limit xs = []
  | _ => True

/-- Every call of the run links in front. -/
def AllLinkInFront (limit : Nat) : List (Op K V) → Lru.Pairs K V → Prop
  | [], _ => True
  | op :: ops, xs => LinksInFront limit op xs ∧ AllLinkInFront limit ops (stepLru limit op xs).2

theorem stepPairs_eq {limit : Nat} {op : Op K V} {xs : Lru.Pairs K V}
    (h : LinksInFront limit op xs) : stepPairs limit op xs = stepLru limit op xs := by
  cases op with
  | get key => rfl
  | put overload key v =>
    have hput : Lru.put (overload ≠ .moveMove) limit key v xs = Lru.put false limit key v xs := by
      rcases h with rfl | h | h
      · rfl
      · exact Lru.put_eq_of_find h _ v
      · exact Lru.put_eq_of_evict_nil h _ v
    exact congrArg (Prod.mk none) hput
  | clear => rfl

theorem runPairs_eq {limit : Nat} {ops : List (Op K V)} {xs : Lru.Pairs K V}
    (h : AllLinkInFront limit ops xs) :
    runPairs (stepPairs limit) ops xs = runPairs (stepLru limit) ops xs := by
  induction ops generalizing xs with
  | nil => rfl
  | cons op ops ih =>
    obtain ⟨hop, hops⟩ := h
    rw [runPairs, runPairs, stepPairs_eq hop]
    dsimp only
    rw [ih hops]

theorem AllLinkInFront.of_prefix {limit : Nat} {p ops : List (Op K V)} {xs : Lru.Pairs K V}
    (h : AllLinkInFront limit ops xs) (hp : p <+: ops) : AllLinkInFront limit p xs := by
  induction p generalizing ops xs with
  | nil => trivial
  | cons op p ih =>
    obtain ⟨t, rfl⟩ := hp
    exact ⟨h.1, ih h.2 (List.prefix_append p t)⟩

/-- The run gives what the least recently used cache gives, and holds the same keys. -/
def ActsAsLru (limit : Nat) (ops : List (Op K V)) : Prop :=
  ∃ c, (new K V limit).run ops = some ((runPairs (stepLru limit) ops []).1, c) ∧
    ∀ key, key ∈ c.map.map Entry.key ↔ key ∈ (runPairs (stepLru limit) ops []).2.map Prod.fst

/-- After each call of the run. -/
def AlwaysActsAsLru (limit : Nat) (ops : List (Op K V)) : Prop :=
  ∀ p, p <+: ops → ActsAsLru limit p

/-- **A cache whose calls all link in front is a least recently used cache**, after each call. -/
theorem actsAsLru_of_allLinkInFront {limit : Nat} (h1 : 1 ≤ limit) {ops : List (Op K V)}
    (h : AllLinkInFront limit ops []) : AlwaysActsAsLru limit ops := by
  intro p hp
  obtain ⟨c, ms, hrun, hr, hpairs, -, -⟩ :=
    (represents_new K V limit).run h1 (Nat.zero_le limit) p
  have heq := runPairs_eq (h.of_prefix hp)
  have hlimit : (new K V limit).limit = limit := rfl
  rw [hlimit, show pairs ([] : List (Entry K × V)) = [] from rfl, heq] at hrun hpairs
  refine ⟨c, hrun, fun key => ?_⟩
  have hkeys := (hr.entries.map Entry.key).mem_iff (a := key)
  rw [hkeys, ← hpairs, pairs, List.map_map, List.map_map]
  rfl

/-- New keys through the fourth overload; the others update, or come into an empty cache. -/
theorem actsAsLru_mixed : AlwaysActsAsLru (K := Nat) (V := Nat) 2 [.put .copyCopy 1 10,
    .put .moveMove 2 20, .get 1, .put .copyMove 2 21, .put .moveMove 3 30, .get 1, .get 2] :=
  actsAsLru_of_allLinkInFront (by decide) (by
    refine ⟨.inr (.inr rfl), .inl rfl, trivial, .inr (.inl (by decide)), .inl rfl, trivial,
      trivial, trivial⟩)

/-- Of three new keys the second one is evicted, although the first one is the oldest. -/
theorem not_actsAsLru : ¬ ∀ limit, 1 ≤ limit → ∀ ops : List (Op Nat Nat),
    AlwaysActsAsLru limit ops := by
  intro h
  obtain ⟨c, hrun, -⟩ := h 2 (by decide)
    [.put .copyCopy 1 10, .put .copyCopy 2 20, .put .copyCopy 3 30, .get 2] _ (List.prefix_refl _)
  cases hrun

end Nemo.LruCache
