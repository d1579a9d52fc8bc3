import Mathlib.Data.List.Perm.Subperm
import Nemo.Container.LruCache
import Nemo.Infra.Lru

/-!
# What an `LruCache` represents

`Represents c ms` couples the ring of nodes with the map entries: `ms` lists the entries with their
cached values in the order of the ring. Every call keeps it, and does on `ms` what the list
operations of `Infra.Lru` do. The well-formedness of ring and map is read off at the end.
-/

namespace Nemo.LruCache

open Infra

variable {K V : Type}

/-- The entries of `c` with their values, in the order of the ring. -/
structure Represents (c : LruCache K V) (ms : List (Entry K × V)) : Prop where
  ring : IsRing c.links header (ms.map (·.1.node))
  entries : c.map.Perm (ms.map (·.1))
  values : ∀ m ∈ ms, c.value m.1.node = some (m.1.id, m.2)
  keys : (ms.map (·.1.key)).Nodup
  ids : (ms.map (·.1.id)).Nodup
  node_lt : ∀ m ∈ ms, m.1.node < c.nextNode
  id_lt : ∀ m ∈ ms, m.1.id < c.nextEntry
  header_lt : header < c.nextNode

/-- The pairs of keys and values. -/
def pairs (ms : List (Entry K × V)) : Lru.Pairs K V := ms.map fun m => (m.1.key, m.2)

/-- What a call does to the pairs: the last overload puts a new key in front, the others at the
back. -/
def stepPairs [DecidableEq K] (limit : Nat) : Op K V → Lru.Pairs K V → Option V × Lru.Pairs K V
  | .get key, xs => Lru.get key xs
  | .put overload key v, xs => (none, Lru.put (overload ≠ .moveMove) limit key v xs)
  | .clear, _ => (none, [])

theorem represents_new (K V : Type) (limit : Nat) : Represents (new K V limit) [] where
  ring := .empty rfl rfl
  entries := .refl _
  values := nofun
  keys := List.nodup_nil
  ids := List.nodup_nil
  node_lt := nofun
  id_lt := nofun
  header_lt := Nat.one_pos

/-- A key that is not there gets an entry of its own. -/
theorem addNode_eq [DecidableEq K] {c : LruCache K V} {key : K} (hf : c.find key = none) (v : V)
    (link : Links Nat → Nat → Nat → Links Nat) :
    c.addNode link key v = { c with
      nextNode := c.nextNode + 1
      map := { id := c.nextEntry, key := key, node := c.nextNode } :: c.map
      nextEntry := c.nextEntry + 1
      value := Function.update c.value c.nextNode (some (c.nextEntry, v))
      links := link c.links header c.nextNode } := by
  have hf' : ({ c with nextNode := c.nextNode + 1 } : LruCache K V).find key = none := hf
  unfold addNode emplace
  simp only [hf']

namespace Represents

variable {c : LruCache K V} {ms as bs : List (Entry K × V)} {e : Entry K} {v : V}

theorem size_eq (h : Represents c ms) : c.size = ms.length := by
  rw [size, h.entries.length_eq, List.length_map]

theorem pairs_keys (h : Represents c ms) : ((pairs ms).map Prod.fst).Nodup := by
  have hk := h.keys
  rw [pairs, List.map_map]
  exact hk

theorem nodes_nodup (h : Represents c ms) : (ms.map (·.1.node)).Nodup :=
  (List.nodup_cons.mp h.ring.nodup).2

theorem node_ne_header (h : Represents c ms) {m : Entry K × V} (hm : m ∈ ms) :
    m.1.node ≠ header := by
  intro heq
  refine (List.nodup_cons.mp h.ring.nodup).1 ?_
  rw [← heq]
  exact List.mem_map_of_mem (f := fun m : Entry K × V => m.1.node) hm

/-- The other members have other nodes. -/
theorem node_ne (h : Represents c (as ++ (e, v) :: bs)) {m : Entry K × V} (hm : m ∈ as ++ bs) :
    m.1.node ≠ e.node := by
  have hn := h.nodes_nodup
  rw [List.map_append, List.map_cons] at hn
  have hnot := (List.nodup_cons.mp (List.nodup_middle.mp hn)).1
  intro heq
  refine hnot ?_
  rw [← List.map_append]
  exact List.mem_map.mpr ⟨m, hm, heq⟩

variable [DecidableEq K]

/-- A key that is found splits the members at its entry. -/
theorem find_eq_some (h : Represents c ms) {key : K} (hf : c.find key = some e) :
    ∃ as v bs, ms = as ++ (e, v) :: bs ∧ e.key = key := by
  have hmem := List.mem_of_find?_eq_some hf
  have hkey := List.find?_some hf
  obtain ⟨⟨e', v⟩, hm, rfl⟩ := List.mem_map.mp (h.entries.mem_iff.mp hmem)
  obtain ⟨as, bs, rfl⟩ := List.append_of_mem hm
  exact ⟨as, v, bs, rfl, of_decide_eq_true hkey⟩

theorem find_eq_none (h : Represents c ms) {key : K} (hf : c.find key = none) :
    ∀ m ∈ ms, m.1.key ≠ key := by
  intro m hm heq
  have hmem : m.1 ∈ c.map := h.entries.mem_iff.mpr (List.mem_map_of_mem hm)
  exact List.find?_eq_none.mp hf m.1 hmem (decide_eq_true heq)

/-- The list operations see the same key. -/
theorem lruFind_eq_some (h : Represents c (as ++ (e, v) :: bs)) :
    Lru.find e.key (pairs (as ++ (e, v) :: bs)) = some v := by
  have hk := h.pairs_keys
  rw [pairs, List.map_append, List.map_cons] at hk ⊢
  exact Lru.find_middle hk

theorem lruErase_eq (h : Represents c (as ++ (e, v) :: bs)) :
    Lru.erase e.key (pairs (as ++ (e, v) :: bs)) = pairs (as ++ bs) := by
  have hk := h.pairs_keys
  rw [pairs, List.map_append, List.map_cons] at hk ⊢
  rw [Lru.erase_middle hk, pairs, List.map_append]

theorem lruFind_eq_none (h : Represents c ms) {key : K} (hf : c.find key = none) :
    Lru.find key (pairs ms) = none := by
  rw [Lru.find_eq_none_iff]
  intro hm
  obtain ⟨p, hp, hkey⟩ := List.mem_map.mp hm
  obtain ⟨m, hmem, rfl⟩ := List.mem_map.mp hp
  exact h.find_eq_none hf m hmem hkey

omit [DecidableEq K] in
/-- Moving a node to the header moves its member to the front; its value may be written before. -/
theorem moveToFront (h : Represents c (as ++ (e, v) :: bs)) (v' : V) :
    Represents ({ c with value := Function.update c.value e.node (some (e.id, v')) }.moveToHeader
      e.node) ((e, v') :: (as ++ bs)) := by
  have hperm : (as ++ (e, v) :: bs).Perm ((e, v) :: (as ++ bs)) := List.perm_middle
  have hmem : (e, v) ∈ as ++ (e, v) :: bs := List.mem_append_right _ List.mem_cons_self
  have hother : ∀ m ∈ as ++ bs, m ∈ as ++ (e, v) :: bs :=
    fun m hm => hperm.mem_iff.mpr (List.mem_cons_of_mem _ hm)
  have hring := h.ring
  rw [List.map_append, List.map_cons] at hring
  have hrem := isRing_unlinkSelfUnckecked hring
  rw [← List.map_append] at hrem
  have hnot : e.node ∉ header :: (as ++ bs).map (·.1.node) := by
    intro hm
    rcases List.mem_cons.mp hm with heq | hm
    · exact h.node_ne_header hmem heq
    · obtain ⟨m, hm, heq⟩ := List.mem_map.mp hm
      exact h.node_ne hm heq
  refine ⟨isRing_linkAfter hrem hnot, ?_, ?_, ?_, ?_, ?_, ?_, h.header_lt⟩
  · exact h.entries.trans (hperm.map (·.1))
  · intro m hm
    show Function.update c.value e.node (some (e.id, v')) m.1.node = _
    rcases List.mem_cons.mp hm with rfl | hm
    · exact Function.update_self ..
    · rw [Function.update_of_ne (h.node_ne hm)]
      exact h.values m (hother m hm)
  · exact (hperm.map (·.1.key)).nodup_iff.mp h.keys
  · exact (hperm.map (·.1.id)).nodup_iff.mp h.ids
  · intro m hm
    rcases List.mem_cons.mp hm with rfl | hm
    · exact h.node_lt (e, v) hmem
    · exact h.node_lt m (hother m hm)
  · intro m hm
    rcases List.mem_cons.mp hm with rfl | hm
    · exact h.id_lt (e, v) hmem
    · exact h.id_lt m (hother m hm)

omit [DecidableEq K] in
/-- Evicting takes the last member out. -/
theorem evict (h : Represents c (as ++ [(e, v)])) :
    ∃ c', c.evict = some c' ∧ Represents c' as ∧ c'.limit = c.limit := by
  have hring := h.ring
  rw [List.map_append] at hring
  obtain ⟨links, hunlink, hring'⟩ := unlinkBefore_eq hring
  have hmem : (e, v) ∈ as ++ [(e, v)] := List.mem_append_right _ List.mem_cons_self
  have has : ∀ m ∈ as, m ∈ as ++ [(e, v)] := fun m hm => List.mem_append_left _ hm
  have hids : ∀ m ∈ as, m.1.id ≠ e.id := by
    have hn := h.ids
    rw [List.map_append] at hn
    intro m hm
    exact (List.nodup_append.mp hn).2.2 _ (List.mem_map_of_mem hm) _ List.mem_cons_self
  refine ⟨{ c with
    links := links
    map := c.map.filter (·.id ≠ e.id)
    value := Function.update c.value e.node none }, ?_, ?_, rfl⟩
  · rw [LruCache.evict, hunlink]
    show (c.value e.node).bind _ = _
    rw [h.values _ hmem]
    rfl
  · refine ⟨hring', ?_, ?_, ?_, ?_, fun m hm => h.node_lt m (has m hm),
      fun m hm => h.id_lt m (has m hm), h.header_lt⟩
    · have hfilter := h.entries.filter (fun x : Entry K => decide (x.id ≠ e.id))
      rw [List.map_append, List.filter_append] at hfilter
      have hkeep : (as.map (·.1)).filter (fun x : Entry K => decide (x.id ≠ e.id)) =
          as.map (·.1) := by
        rw [List.filter_eq_self]
        intro x hx
        obtain ⟨m, hm, rfl⟩ := List.mem_map.mp hx
        exact decide_eq_true (hids m hm)
      rwa [hkeep, List.map_cons, List.map_nil, List.filter_cons_of_neg (by simp), List.filter_nil,
        List.append_nil] at hfilter
    · intro m hm
      show Function.update c.value e.node none m.1.node = _
      rw [Function.update_of_ne]
      · exact h.values m (has m hm)
      · rw [← List.append_nil as] at hm
        exact h.node_ne hm
    · exact h.keys.sublist ((List.sublist_append_left _ _).map _)
    · exact h.ids.sublist ((List.sublist_append_left _ _).map _)

/-- A new key gets a new node, linked at the end of the ring that `link` names. -/
theorem addNode (h : Represents c ms) {key : K} (hf : c.find key = none) (v : V)
    {link : Links Nat → Nat → Nat → Links Nat} {ms' : List (Entry K × V)}
    (hms' : ms'.Perm (({ id := c.nextEntry, key := key, node := c.nextNode }, v) :: ms))
    (hlink : IsRing (link c.links header c.nextNode) header (ms'.map (·.1.node))) :
    Represents (c.addNode link key v) ms' := by
  have hkey := h.find_eq_none hf
  have hmem : ∀ m ∈ ms', m = ({ id := c.nextEntry, key := key, node := c.nextNode }, v) ∨ m ∈ ms :=
    fun m hm => List.mem_cons.mp (hms'.mem_iff.mp hm)
  rw [addNode_eq hf]
  refine ⟨hlink, ?_, ?_, ?_, ?_, ?_, ?_, Nat.lt_succ_of_lt h.header_lt⟩
  · exact (h.entries.cons _).trans (hms'.map Prod.fst).symm
  · intro m hm
    show Function.update c.value c.nextNode _ m.1.node = _
    rcases hmem m hm with rfl | hm
    · exact Function.update_self ..
    · rw [Function.update_of_ne (Nat.ne_of_lt (h.node_lt m hm))]
      exact h.values m hm
  · refine (hms'.map (·.1.key)).nodup_iff.mpr (List.nodup_cons.mpr ⟨?_, h.keys⟩)
    intro hm
    obtain ⟨m, hm, heq⟩ := List.mem_map.mp hm
    exact hkey m hm heq
  · refine (hms'.map (·.1.id)).nodup_iff.mpr (List.nodup_cons.mpr ⟨?_, h.ids⟩)
    intro hm
    obtain ⟨m, hm, heq⟩ := List.mem_map.mp hm
    exact Nat.ne_of_lt (h.id_lt m hm) heq
  · intro m hm
    rcases hmem m hm with rfl | hm
    · exact Nat.lt_succ_self _
    · exact Nat.lt_succ_of_lt (h.node_lt m hm)
  · intro m hm
    rcases hmem m hm with rfl | hm
    · exact Nat.lt_succ_self _
    · exact Nat.lt_succ_of_lt (h.id_lt m hm)

omit [DecidableEq K] in
theorem nextNode_not_mem (h : Represents c ms) : c.nextNode ∉ header :: ms.map (·.1.node) := by
  intro hm
  rcases List.mem_cons.mp hm with heq | hm
  · exact Nat.ne_of_gt h.header_lt heq
  · obtain ⟨m, hm, heq⟩ := List.mem_map.mp hm
    exact Nat.ne_of_lt (h.node_lt m hm) heq

/-! ## The calls -/

/-- `get` moves a found key to the front. -/
theorem get (h : Represents c ms) (key : K) :
    ∃ c' ms', c.get key = some ((Lru.get key (pairs ms)).1, c') ∧ Represents c' ms' ∧
      pairs ms' = (Lru.get key (pairs ms)).2 ∧ c'.limit = c.limit := by
  unfold LruCache.get Lru.get
  cases hf : c.find key with
  | none =>
    rw [h.lruFind_eq_none hf]
    exact ⟨c, ms, rfl, h, rfl, rfl⟩
  | some e =>
    obtain ⟨as, v, bs, rfl, rfl⟩ := h.find_eq_some hf
    have hv : c.value e.node = some (e.id, v) :=
      h.values (e, v) (List.mem_append_right _ List.mem_cons_self)
    rw [h.lruFind_eq_some]
    refine ⟨c.moveToHeader e.node, (e, v) :: (as ++ bs), ?_, ?_, ?_, rfl⟩
    · dsimp only
      rw [hv]
      rfl
    · have hmove := h.moveToFront v
      rwa [← hv, Function.update_eq_self] at hmove
    · dsimp only
      rw [h.lruErase_eq]
      rfl

omit [DecidableEq K] in
/-- The eviction before an insertion leaves room. -/
theorem makeRoom (h : Represents c ms) (h1 : 1 ≤ c.limit) (hle : ms.length ≤ c.limit) :
    ∃ c' ms', c.makeRoom = some c' ∧ Represents c' ms' ∧
      pairs ms' = Lru.evict c.limit (pairs ms) ∧ c'.limit = c.limit ∧ ms'.length < c.limit ∧
      ∀ m ∈ ms', m ∈ ms := by
  have hlen : (pairs ms).length = ms.length := List.length_map _
  unfold LruCache.makeRoom Lru.evict
  rw [h.size_eq, hlen]
  by_cases hfull : ms.length ≥ c.limit
  · obtain rfl | ⟨as, m, hms⟩ := List.eq_nil_or_concat ms
    · exact absurd hfull (by rw [List.length_nil]; omega)
    · rw [List.concat_eq_append] at hms
      obtain ⟨e, v⟩ := m
      subst hms
      obtain ⟨c', he, h', hlimit⟩ := h.evict
      refine ⟨c', as, (if_pos hfull).trans he, h', ?_, hlimit, ?_,
        fun m hm => List.mem_append_left _ hm⟩
      · rw [if_pos hfull, pairs, pairs, List.map_append]
        exact List.dropLast_concat.symm
      · rw [List.length_append, List.length_singleton] at hle
        omega
  · exact ⟨c, ms, if_neg hfull, h, (if_neg hfull).symm, rfl, by omega, fun _ hm => hm⟩

/-- A `put` that links a new node before the header (`back`) or behind it. -/
theorem putWith (h : Represents c ms) (h1 : 1 ≤ c.limit) (hle : ms.length ≤ c.limit) (key : K)
    (v : V) (back : Bool) :
    ∃ c' ms', c.putWith (if back then linkBefore else linkAfter) key v = some c' ∧
      Represents c' ms' ∧ pairs ms' = Lru.put back c.limit key v (pairs ms) ∧
      c'.limit = c.limit ∧ ms'.length ≤ c.limit := by
  unfold LruCache.putWith Lru.put
  cases hf : c.find key with
  | some e =>
    obtain ⟨as, v', bs, rfl, rfl⟩ := h.find_eq_some hf
    have hv : c.value e.node = some (e.id, v') :=
      h.values (e, v') (List.mem_append_right _ List.mem_cons_self)
    rw [h.lruFind_eq_some]
    refine ⟨_, (e, v) :: (as ++ bs), ?_, h.moveToFront v, ?_, rfl, ?_⟩
    · dsimp only
      rw [hv]
      rfl
    · dsimp only
      rw [h.lruErase_eq]
      rfl
    · rw [List.length_append, List.length_cons] at hle
      rw [List.length_cons, List.length_append]
      omega
  | none =>
    rw [h.lruFind_eq_none hf]
    have hkey := h.find_eq_none hf
    obtain ⟨c1, ms1, he, hr1, hpairs, hlimit, hlt, hsub⟩ := h.makeRoom h1 hle
    have hf1 : c1.find key = none := by
      rw [LruCache.find, List.find?_eq_none]
      intro x hx
      obtain ⟨m, hm, rfl⟩ := List.mem_map.mp (hr1.entries.mem_iff.mp hx)
      rw [decide_eq_true_iff]
      exact hkey m (hsub m hm)
    have hnot := hr1.nextNode_not_mem
    have hput : ∀ link : Links Nat → Nat → Nat → Links Nat,
        (do let c ← c.makeRoom; return c.addNode link key v) = some (c1.addNode link key v) := by
      intro link
      rw [he]
      rfl
    have hlimit' : ∀ link : Links Nat → Nat → Nat → Links Nat,
        (c1.addNode link key v).limit = c.limit := by
      intro link
      rw [addNode_eq hf1]
      exact hlimit
    cases back with
    | true =>
      refine ⟨_, ms1 ++ [({ id := c1.nextEntry, key := key, node := c1.nextNode }, v)], hput _,
        hr1.addNode hf1 v (List.perm_append_singleton _ _) ?_, ?_, hlimit' _, ?_⟩
      · rw [List.map_append]
        exact isRing_linkBefore hr1.ring hnot
      · rw [pairs, List.map_append, ← pairs, hpairs]
        rfl
      · rw [List.length_append, List.length_singleton]
        omega
    | false =>
      refine ⟨_, ({ id := c1.nextEntry, key := key, node := c1.nextNode }, v) :: ms1, hput _,
        hr1.addNode hf1 v (.refl _) ?_, ?_, hlimit' _, ?_⟩
      · exact isRing_linkAfter hr1.ring hnot
      · rw [pairs, List.map_cons, ← pairs, hpairs]
        rfl
      · rw [List.length_cons]
        omega

omit [DecidableEq K] in
/-- The loop of `clearWithoutLink` reaches the header, and destroys the values only. -/
theorem destroyNodes_eq {fuel : Nat} {c : LruCache K V} {nodes : List Nat} {currNode : Nat}
    (hfuel : nodes.length ≤ fuel) (hcurr : (nodes ++ [header]).head? = some currNode)
    (hl : Linked c.links (nodes ++ [header])) (hn : (header :: nodes).Nodup)
    (hv : ∀ n ∈ nodes, c.value n ≠ none) :
    ∃ value, destroyNodes fuel c currNode = some { c with value := value } := by
  induction nodes generalizing fuel c currNode with
  | nil =>
    cases hcurr
    exact ⟨c.value, by cases fuel <;> exact if_pos rfl⟩
  | cons n nodes ih =>
    cases hcurr
    have hne : n ≠ header := fun heq => (List.nodup_cons.mp hn).1 (heq ▸ List.mem_cons_self)
    obtain ⟨next, hnext⟩ : ∃ next, (nodes ++ [header]).head? = some next := by
      cases nodes with
      | nil => exact ⟨_, rfl⟩
      | cons m nodes => exact ⟨_, rfl⟩
    obtain ⟨hstep, hl'⟩ := List.isChain_cons.mp hl
    have hn' : (n :: header :: nodes).Nodup := (List.Perm.swap _ _ _).nodup_iff.mp hn
    cases fuel with
    | zero => exact absurd hfuel (Nat.not_succ_le_zero _)
    | succ fuel =>
      obtain ⟨v, hvn⟩ := Option.ne_none_iff_exists'.mp (hv n List.mem_cons_self)
      obtain ⟨value, hd⟩ := ih (c := { c with value := Function.update c.value n none })
        (Nat.le_of_succ_le_succ hfuel) hnext hl' (List.nodup_cons.mp hn').2 (by
          intro m hm
          show Function.update c.value n none m ≠ none
          rw [Function.update_of_ne]
          · exact hv m (List.mem_cons_of_mem _ hm)
          · rintro rfl
            exact (List.nodup_cons.mp hn').1 (List.mem_cons_of_mem _ hm))
      refine ⟨value, ?_⟩
      rw [destroyNodes, if_neg hne, hvn, (hstep next hnext).1]
      exact hd

omit [DecidableEq K] in
/-- `clear` leaves an empty ring. -/
theorem clear (h : Represents c ms) :
    ∃ c', c.clear = some c' ∧ Represents c' [] ∧ c'.limit = c.limit := by
  have hfuel : (ms.map (·.1.node)).length ≤ c.nextNode := by
    have hsub : ms.map (·.1.node) ⊆ List.range c.nextNode := by
      intro n hn
      obtain ⟨m, hm, rfl⟩ := List.mem_map.mp hn
      exact List.mem_range.mpr (h.node_lt m hm)
    have hle := (h.nodes_nodup.subperm hsub).length_le
    rwa [List.length_range] at hle
  have hl := h.ring.linked
  rw [List.cons_append] at hl
  obtain ⟨hstep, hl'⟩ := List.isChain_cons.mp hl
  obtain ⟨next, hnext⟩ : ∃ next, (ms.map (·.1.node) ++ [header]).head? = some next := by
    cases ms with
    | nil => exact ⟨_, rfl⟩
    | cons m ms => exact ⟨_, rfl⟩
  have hcurr := (hstep next hnext).1
  obtain ⟨value, hd⟩ := destroyNodes_eq (c := { c with map := [] }) hfuel hnext hl' h.ring.nodup (by
    intro n hn
    obtain ⟨m, hm, rfl⟩ := List.mem_map.mp hn
    show c.value m.1.node ≠ none
    rw [h.values m hm]
    exact Option.some_ne_none _)
  have hclear : c.clearWithoutLink = some { c with map := [], value := value } := by
    unfold clearWithoutLink
    dsimp only
    rw [hcurr]
    exact hd
  refine ⟨{ c with
    map := []
    value := value
    links := (c.links.setPrev header header).setNext header
      ((c.links.setPrev header header).prev header) }, ?_, ?_, rfl⟩
  · rw [LruCache.clear, hclear]
    rfl
  refine ⟨.empty ?_ ?_, .refl _, nofun, List.nodup_nil, List.nodup_nil, nofun, nofun, h.header_lt⟩
  · show ((c.links.setPrev header header).setNext header
      ((c.links.setPrev header header).prev header)).next header = header
    rw [Links.setPrev_prev_self, Links.setNext_next_self]
  · show (c.links.setPrev header header).prev header = header
    rw [Links.setPrev_prev_self]

/-! ## The runs -/

theorem length_le_of_get {limit : Nat} {key : K} (h : Represents c ms) (hle : ms.length ≤ limit)
    {ms' : List (Entry K × V)} (hp : pairs ms' = (Lru.get key (pairs ms)).2) :
    ms'.length ≤ limit := by
  have hlen := congrArg List.length hp
  rw [pairs, List.length_map] at hlen
  have hle' : (Lru.get key (pairs ms)).2.length ≤ (pairs ms).length := by
    unfold Lru.get
    cases hf : c.find key with
    | none => rw [h.lruFind_eq_none hf]
    | some e =>
      obtain ⟨as, v, bs, rfl, rfl⟩ := h.find_eq_some hf
      rw [h.lruFind_eq_some, h.lruErase_eq, List.length_cons, pairs, pairs, List.length_map,
        List.length_map, List.length_append, List.length_append, List.length_cons]
      omega
  rw [hlen]
  exact hle'.trans ((List.length_map _).trans_le hle)

/-- **One call**: it succeeds, and does to the pairs what `stepPairs` says. -/
theorem step (h : Represents c ms) (h1 : 1 ≤ c.limit) (hle : ms.length ≤ c.limit) (op : Op K V) :
    ∃ c' ms', c.step op = some ((stepPairs c.limit op (pairs ms)).1, c') ∧ Represents c' ms' ∧
      pairs ms' = (stepPairs c.limit op (pairs ms)).2 ∧ c'.limit = c.limit ∧
      ms'.length ≤ c.limit := by
  cases op with
  | get key =>
    obtain ⟨c', ms', hget, h', hp, hlimit⟩ := h.get key
    exact ⟨c', ms', hget, h', hp, hlimit, h.length_le_of_get hle hp⟩
  | put overload key v =>
    obtain ⟨c', ms', hput, h', hp, hlimit, hle'⟩ := h.putWith h1 hle key v (overload ≠ .moveMove)
    refine ⟨c', ms', ?_, h', hp, hlimit, hle'⟩
    cases overload <;> exact congrArg (Option.map fun c => (none, c)) hput
  | clear =>
    obtain ⟨c', hclear, h', hlimit⟩ := h.clear
    exact ⟨c', [], congrArg (Option.map fun c => (none, c)) hclear, h', rfl, hlimit, Nat.zero_le _⟩

end Represents

/-- A run on pairs, with what each call gives. -/
def runPairs (step : Op K V → Lru.Pairs K V → Option V × Lru.Pairs K V) :
    List (Op K V) → Lru.Pairs K V → List (Option V) × Lru.Pairs K V
  | [], xs => ([], xs)
  | op :: ops, xs =>
    let (result, xs) := step op xs
    let (results, xs) := runPairs step ops xs
    (result :: results, xs)

/-- **A run of calls** succeeds, and gives what the run on the pairs gives. -/
theorem Represents.run [DecidableEq K] {c : LruCache K V} {ms : List (Entry K × V)}
    (h : Represents c ms) (h1 : 1 ≤ c.limit) (hle : ms.length ≤ c.limit) (ops : List (Op K V)) :
    ∃ c' ms', c.run ops = some ((runPairs (stepPairs c.limit) ops (pairs ms)).1, c') ∧ Represents c' ms' ∧
      pairs ms' = (runPairs (stepPairs c.limit) ops (pairs ms)).2 ∧ c'.limit = c.limit ∧
      ms'.length ≤ c.limit := by
  induction ops generalizing c ms with
  | nil => exact ⟨c, ms, rfl, h, rfl, rfl, hle⟩
  | cons op ops ih =>
    obtain ⟨c1, ms1, hstep, hr1, hp1, hlimit1, hle1⟩ := h.step h1 hle op
    obtain ⟨c2, ms2, hrun, hr2, hp2, hlimit2, hle2⟩ := ih hr1 (by omega) (by omega)
    rw [hlimit1, hp1] at hrun hp2
    refine ⟨c2, ms2, ?_, hr2, hp2, hlimit2.trans hlimit1, by omega⟩
    rw [LruCache.run, hstep, Option.bind_some]
    dsimp only
    rw [hrun]
    rfl

/-! ## Well-formedness -/

/-- The ring of the data nodes `nodes` and the map fit together. -/
structure WellFormed (c : LruCache K V) (nodes : List Nat) : Prop where
  /-- Circular, linked in both directions, no node twice. -/
  ring : IsRing c.links header nodes
  inverse : ∀ n ∈ header :: nodes,
    c.links.prev (c.links.next n) = n ∧ c.links.next (c.links.prev n) = n
  /-- The map entries and the data nodes are in bijection. -/
  entries : (c.map.map Entry.node).Perm nodes
  /-- Each entry points to the node that stores its iterator. -/
  iterators : ∀ e ∈ c.map, ∃ v, c.value e.node = some (e.id, v)
  ids : (c.map.map Entry.id).Nodup
  keys : (c.map.map Entry.key).Nodup
  size_le : c.size ≤ c.limit

theorem Represents.wellFormed {c : LruCache K V} {ms : List (Entry K × V)} (h : Represents c ms)
    (hle : ms.length ≤ c.limit) : WellFormed c (ms.map (·.1.node)) where
  ring := h.ring
  inverse := h.ring.inverse
  entries := by
    have hp := h.entries.map Entry.node
    rwa [List.map_map] at hp
  iterators e he := by
    obtain ⟨m, hm, rfl⟩ := List.mem_map.mp (h.entries.mem_iff.mp he)
    exact ⟨m.2, h.values m hm⟩
  ids := by
    have hp := h.entries.map Entry.id
    rw [List.map_map] at hp
    exact hp.nodup_iff.mpr h.ids
  keys := by
    have hp := h.entries.map Entry.key
    rw [List.map_map] at hp
    exact hp.nodup_iff.mpr h.keys
  size_le := h.size_eq.trans_le hle

/-- **After every sequence of calls the cache is well formed**, and no call fails. -/
theorem wellFormed_of_run [DecidableEq K] {limit : Nat} (h1 : 1 ≤ limit) (ops : List (Op K V)) :
    ∃ results c nodes, (new K V limit).run ops = some (results, c) ∧ c.limit = limit ∧
      WellFormed c nodes := by
  obtain ⟨c, ms, hrun, h, -, hlimit, hle⟩ :=
    (represents_new K V limit).run h1 (Nat.zero_le limit) ops
  exact ⟨_, c, _, hrun, hlimit, h.wellFormed (hle.trans_eq hlimit.symm)⟩

/-- A full cache of one key evicts it; `clear` is followed by a put. -/
theorem wellFormed_one : ∃ results c nodes, (new Nat Nat 1).run
    [.put .copyCopy 1 10, .put .moveMove 2 20, .get 2, .clear, .put .copyMove 3 30] =
      some (results, c) ∧ c.limit = 1 ∧ WellFormed c nodes :=
  wellFormed_of_run (Nat.le_refl 1) _

end Nemo.LruCache
