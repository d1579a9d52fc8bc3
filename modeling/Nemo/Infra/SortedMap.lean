import Mathlib.Data.List.Basic
import Mathlib.Data.List.Induction

/-!
# Maps that are sorted by a comparison

`SortedMap less` is a list of entries whose keys are strictly increasing, as in a `std::map` with the
comparison `less`. Two keys of which neither is less than the other are the same key for the map;
an entry that is assigned again keeps the key with which it was made.

A map is determined by its entries (`ext_entry`), and the entry of a key is made by the assignments to
this key alone: the first gives its key, the last its value (`entry_foldl_set`).
-/

namespace Infra

variable {κ ν : Type}

/-- A map that is sorted by `less`. -/
structure SortedMap (less : κ → κ → Bool) (ν : Type) where
  entries : List (κ × ν)
  sorted : entries.Pairwise fun e e' => less e.1 e'.1 = true

namespace SortedMap

variable {less : κ → κ → Bool}

def empty : SortedMap less ν := ⟨[], .nil⟩

/-- `map[key] = value` on the entries. -/
def put (less : κ → κ → Bool) (k : κ) (v : ν) : List (κ × ν) → List (κ × ν)
  | [] => [(k, v)]
  | e :: es =>
    if less k e.1 then (k, v) :: e :: es
    else if less e.1 k then e :: put less k v es
    else (e.1, v) :: es

theorem mem_put {k : κ} {v : ν} {es : List (κ × ν)} {e : κ × ν} (h : e ∈ put less k v es) :
    e.1 = k ∨ ∃ e' ∈ es, e.1 = e'.1 := by
  induction es with
  | nil =>
    rw [put, List.mem_singleton] at h
    exact .inl (congrArg Prod.fst h)
  | cons e₀ es ih =>
    rw [put] at h
    split at h
    · rcases List.mem_cons.mp h with rfl | h
      · exact .inl rfl
      · exact .inr ⟨e, h, rfl⟩
    split at h
    · rcases List.mem_cons.mp h with rfl | h
      · exact .inr ⟨e, List.mem_cons_self, rfl⟩
      · exact (ih h).imp id fun ⟨e', he', h'⟩ => ⟨e', List.mem_cons_of_mem _ he', h'⟩
    · rcases List.mem_cons.mp h with rfl | h
      · exact .inr ⟨e₀, List.mem_cons_self, rfl⟩
      · exact .inr ⟨e, List.mem_cons_of_mem _ h, rfl⟩

theorem put_sorted (htrans : ∀ a b c, less a b = true → less b c = true → less a c = true)
    (k : κ) (v : ν) {es : List (κ × ν)} (h : es.Pairwise fun e e' => less e.1 e'.1 = true) :
    (put less k v es).Pairwise fun e e' => less e.1 e'.1 = true := by
  induction es with
  | nil => exact List.pairwise_singleton ..
  | cons e es ih =>
    obtain ⟨hfirst, hrest⟩ := List.pairwise_cons.mp h
    rw [put]
    split
    · next hlt =>
      refine List.pairwise_cons.mpr ⟨fun e' he' => ?_, h⟩
      rcases List.mem_cons.mp he' with rfl | he'
      · exact hlt
      · exact htrans _ _ _ hlt (hfirst e' he')
    split
    · next hgt =>
      refine List.pairwise_cons.mpr ⟨fun e' he' => ?_, ih hrest⟩
      rcases mem_put he' with heq | ⟨e₁, he₁, heq⟩
      · rwa [heq]
      · rw [heq]
        exact hfirst e₁ he₁
    · exact List.pairwise_cons.mpr ⟨hfirst, hrest⟩

/-- `map[key] = value`. -/
def set (htrans : ∀ a b c, less a b = true → less b c = true → less a c = true)
    (m : SortedMap less ν) (k : κ) (v : ν) : SortedMap less ν :=
  ⟨put less k v m.entries, put_sorted htrans k v m.sorted⟩

/-- `map.find(key)`: the value of the entry whose key is the same for the map. -/
def find (m : SortedMap less ν) (k : κ) : Option ν :=
  (m.entries.find? fun e => !less e.1 k && !less k e.1).map Prod.snd

/-! ## The entries of a map -/

/-- Two keys that are the same for the map. -/
def same (less : κ → κ → Bool) (k k' : κ) : Bool := !less k k' && !less k' k

/-- A strict order in which keys that are not comparable are the same key. -/
structure Order (less : κ → κ → Bool) : Prop where
  irrefl : ∀ a, less a a = false
  trans : ∀ a b c, less a b = true → less b c = true → less a c = true
  between : ∀ a b c, less a c = true → less a b = true ∨ less b c = true

namespace Order

variable (h : Order less)
include h

theorem same_refl (a : κ) : same less a a = true := by
  simp [same, h.irrefl]

theorem same_trans {a b c : κ} (hab : same less a b = true) (hbc : same less b c = true) :
    same less a c = true := by
  simp only [same, Bool.and_eq_true, Bool.not_eq_true'] at hab hbc ⊢
  refine ⟨?_, ?_⟩
  · by_contra hac
    rcases h.between a b c (by simpa using hac) with h' | h'
    · simp [hab.1] at h'
    · simp [hbc.1] at h'
  · by_contra hca
    rcases h.between c b a (by simpa using hca) with h' | h'
    · simp [hbc.2] at h'
    · simp [hab.2] at h'

theorem less_same {a b c : κ} (hab : less a b = true) (hbc : same less b c = true) :
    less a c = true := by
  simp only [same, Bool.and_eq_true, Bool.not_eq_true'] at hbc
  rcases h.between a c b hab with h' | h'
  · exact h'
  · rw [hbc.2] at h'
    cases h'

omit h in
theorem not_same_of_less {a b : κ} (hab : less a b = true) : same less a b = false := by
  simp [same, hab]

end Order

theorem same_congr (h : Order less) {b c : κ} (hbc : same less b c = true) (a : κ) :
    same less a b = same less a c := by
  rw [Bool.eq_iff_iff]
  refine ⟨fun hab => h.same_trans hab hbc, fun hac => h.same_trans hac ?_⟩
  rwa [same, Bool.and_comm]

theorem same_comm (a b : κ) : same less a b = same less b a := Bool.and_comm ..

/-- The entry of a key. -/
def entry (m : SortedMap less ν) (k : κ) : Option (κ × ν) := m.entries.find? fun e => same less e.1 k

theorem find_eq_entry (m : SortedMap less ν) (k : κ) : m.find k = (m.entry k).map Prod.snd := rfl

theorem find_none_of_less {k : κ} {es : List (κ × ν)}
    (hall : ∀ e ∈ es, less k e.1 = true) : (es.find? fun e => same less e.1 k) = none := by
  rw [List.find?_eq_none]
  intro e he hsame
  rw [same_comm, Order.not_same_of_less (hall e he)] at hsame
  cases hsame

/-- The entries of a key: there is one at most. -/
theorem filter_same (h : Order less) (m : SortedMap less ν) (k : κ) :
    (m.entries.filter fun e => same less e.1 k) = (m.entry k).toList := by
  obtain ⟨es, hes⟩ := m
  rw [entry]
  induction es with
  | nil => rfl
  | cons e es ih =>
    obtain ⟨hfirst, hrest⟩ := List.pairwise_cons.mp hes
    rw [List.filter_cons, List.find?_cons]
    cases hk : same less e.1 k with
    | false => exact ih hrest
    | true =>
      have hnone : (es.filter fun e => same less e.1 k) = [] := by
        refine List.filter_eq_nil_iff.mpr fun e' he' hk' => ?_
        have := Order.not_same_of_less (h.less_same (hfirst e' he') hk')
        rw [hk] at this
        cases this
      rw [if_pos rfl, hnone]
      rfl

/-- What an assignment changes: the entry of its key, which keeps the key it was made with. -/
theorem find_put (h : Order less) (k k' : κ) (v : ν) {es : List (κ × ν)}
    (hes : es.Pairwise fun e e' => less e.1 e'.1 = true) :
    (put less k v es).find? (fun e => same less e.1 k')
      = if same less k k' then
          some ((((es.find? fun e => same less e.1 k).map Prod.fst).getD k), v)
        else es.find? fun e => same less e.1 k' := by
  induction es with
  | nil =>
    rw [put, List.find?_cons, List.find?_nil]
    cases same less k k' <;> rfl
  | cons e es ih =>
    obtain ⟨hfirst, hrest⟩ := List.pairwise_cons.mp hes
    rw [put]
    split
    · next hlt =>
      have hnone : ((e :: es).find? fun e => same less e.1 k) = none := by
        refine find_none_of_less fun e' he' => ?_
        rcases List.mem_cons.mp he' with rfl | he'
        · exact hlt
        · exact h.trans _ _ _ hlt (hfirst e' he')
      rw [hnone, List.find?_cons]
      cases same less k k' <;> rfl
    split
    · next hgt =>
      have hne : same less e.1 k = false := Order.not_same_of_less hgt
      rw [List.find?_cons, List.find?_cons, List.find?_cons, ih hrest, hne]
      cases hk : same less k k' with
      | false => rfl
      | true =>
        have : same less e.1 k' = false := Order.not_same_of_less (h.less_same hgt hk)
        simp [this]
    · next hlt hgt =>
      have heq : same less e.1 k = true := by simp [same, hlt, hgt]
      rw [List.find?_cons, List.find?_cons, List.find?_cons, heq]
      cases hk : same less k k' with
      | true => simp [h.same_trans heq hk]
      | false =>
        have : same less e.1 k' = false := by
          by_contra hek
          rw [Bool.not_eq_false] at hek
          rw [same_comm] at heq
          rw [h.same_trans heq hek] at hk
          cases hk
        simp [this]

theorem entry_set (h : Order less) (m : SortedMap less ν) (k k' : κ) (v : ν) :
    (m.set h.trans k v).entry k'
      = if same less k k' then some (((m.entry k).map Prod.fst).getD k, v) else m.entry k' :=
  find_put h k k' v m.sorted

/-- Two maps with the same entries are the same. -/
theorem ext_entry (h : Order less) {m m' : SortedMap less ν}
    (heq : ∀ k, m.entry k = m'.entry k) : m = m' := by
  obtain ⟨es, hs⟩ := m
  obtain ⟨es', hs'⟩ := m'
  simp only [entry] at heq
  congr 1
  -- the first keys are the same, as each is in the other map
  induction es generalizing es' with
  | nil =>
    cases es' with
    | nil => rfl
    | cons e' es' =>
      have := heq e'.1
      simp [h.same_refl] at this
  | cons e es ih =>
    cases es' with
    | nil =>
      have := heq e.1
      simp [h.same_refl] at this
    | cons e' es' =>
      obtain ⟨hfirst, hrest⟩ := List.pairwise_cons.mp hs
      obtain ⟨hfirst', hrest'⟩ := List.pairwise_cons.mp hs'
      have hhead : e = e' := by
        have h1 := heq e.1
        have h2 := heq e'.1
        rw [List.find?_cons, List.find?_cons, h.same_refl] at h1
        rw [List.find?_cons, List.find?_cons, h.same_refl] at h2
        by_cases hee : same less e'.1 e.1 = true
        · rw [hee] at h1
          exact Option.some.inj h1
        · rw [Bool.not_eq_true] at hee
          rw [hee] at h1
          rw [same_comm, hee] at h2
          have m1 := hfirst' _ (List.mem_of_find?_eq_some h1.symm)
          have m2 := hfirst _ (List.mem_of_find?_eq_some h2)
          have := h.trans _ _ _ m1 m2
          rw [h.irrefl] at this
          cases this
      subst hhead
      congr 1
      refine ih hrest _ hrest' fun k => ?_
      have hk := heq k
      rw [List.find?_cons, List.find?_cons] at hk
      by_cases hek : same less e.1 k = true
      · have hgt : ∀ e₁ : κ × ν, less e.1 e₁.1 = true → less k e₁.1 = true := by
          intro e₁ hlt
          rcases h.between e.1 k e₁.1 hlt with h' | h'
          · simp [same, h'] at hek
          · exact h'
        rw [find_none_of_less fun e₁ he₁ => hgt e₁ (hfirst e₁ he₁),
          find_none_of_less fun e₁ he₁ => hgt e₁ (hfirst' e₁ he₁)]
      · rw [Bool.not_eq_true] at hek
        rwa [hek] at hk

/-- The entries that a list of assignments makes: the first key and the last value of each name. -/
theorem entry_foldl_set (h : Order less) (k : κ) (es : List (κ × ν)) :
    (es.foldl (fun m e => m.set h.trans e.1 e.2) (empty : SortedMap less ν)).entry k
      = ((es.filter fun e => same less e.1 k).head?.bind fun e =>
          (es.filter fun e => same less e.1 k).getLast?.map fun e' => (e.1, e'.2)) := by
  induction es using List.reverseRec with
  | nil => rfl
  | append_singleton es e ih =>
    rw [List.foldl_append, List.foldl_cons, List.foldl_nil, entry_set h, List.filter_append]
    cases hk : same less e.1 k with
    | false => simp [hk, ih]
    | true =>
      have hentry : ∀ m : SortedMap less ν, m.entry e.1 = m.entry k := by
        intro m
        simp only [entry, same_congr h hk]
      rw [if_pos rfl, hentry, ih, List.filter_cons, hk, if_pos rfl, List.filter_nil,
        List.getLast?_append, List.head?_append]
      cases hes : es.filter fun e => same less e.1 k with
      | nil => rfl
      | cons e₁ es₁ => simp [List.getLast?_cons]

end SortedMap

end Infra
