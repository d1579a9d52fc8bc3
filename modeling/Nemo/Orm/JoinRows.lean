import Nemo.Orm.JoinFolding

/-!
# Folding all rows of a join

The tree of messages after any number of rows, and from it what `makeMessage` returns.

* `Kept.kids_row` — after a row each message has the children that were first seen with it
* `Kept.folded_iff` — these are the children that occur with it exactly if no id has two parents
* `folds_iff` — the same for `makeMessage`; a row with too many columns ends the process
-/

namespace Nemo.Orm

open Function (update)
open Http Infra
open FirstSeen (firstOf groupOf)

variable {V : Type} {lib : Library V} {ks : List Nat}

theorem pairs_concat (paths : List (List Int64)) (p : List Int64) (l : Nat) :
    pairs (paths ++ [p]) l = pairs paths l ++ (pair l p).toList := by
  rw [pairs, List.filterMap_append, List.filterMap_cons, List.filterMap_nil]
  cases pair l p <;> rfl

theorem pair_eq_some {p : List Int64} {l : Nat} {a c : Int64} :
    pair l p = some (a, c) ↔ p[l]? = some a ∧ p[l + 1]? = some c := by
  simp [pair, Option.bind_eq_some_iff]

/-- An id that is not on the outermost level has one above it. -/
theorem exists_pair {p : List Int64} {l : Nat} {c : Int64} (h : p[l + 1]? = some c) :
    ∃ a, pair l p = some (a, c) := by
  obtain ⟨hlt, -⟩ := List.getElem?_eq_some_iff.mp h
  exact ⟨p[l], pair_eq_some.mpr ⟨List.getElem?_eq_getElem (Nat.lt_of_succ_lt hlt), h⟩⟩

theorem mem_pairs {paths : List (List Int64)} {l : Nat} {a c : Int64} :
    (a, c) ∈ pairs paths l ↔ ∃ p ∈ paths, p[l]? = some a ∧ p[l + 1]? = some c := by
  rw [pairs, List.mem_filterMap]
  exact exists_congr fun p => and_congr_right fun _ => pair_eq_some

theorem mem_snd_pairs {paths : List (List Int64)} {l : Nat} {c : Int64} :
    c ∈ (pairs paths l).map Prod.snd ↔ ∃ p ∈ paths, p[l + 1]? = some c := by
  constructor
  · intro h
    obtain ⟨⟨a, c⟩, hmem, rfl⟩ := List.mem_map.mp h
    obtain ⟨p, hp, -, hc⟩ := mem_pairs.mp hmem
    exact ⟨p, hp, hc⟩
  · rintro ⟨p, hp, hc⟩
    obtain ⟨a, ha⟩ := exists_pair hc
    exact List.mem_map.mpr ⟨(a, c), mem_pairs.mpr ⟨p, hp, pair_eq_some.mp ha⟩, rfl⟩

/-- The tree and the root messages after some rows. -/
structure Kept (ks : List Nat) (paths : List (List Int64)) (s : MessageTree V × List MessagePtr) :
    Prop where
  wellFormed : s.1.WellFormed
  kids : ∀ l a, s.1.kids l a = if ∃ p ∈ paths, p[l]? = some a
    then some ((firstOf (pairs paths l) a).map (child ks l)) else none
  roots : s.2 = (paths.filterMap List.head?).eraseDups.map (⟨0, ·⟩)

namespace Kept

variable {paths : List (List Int64)} {s : MessageTree V × List MessagePtr} (h : Kept ks paths s)
include h

theorem isNone_iff (l : Nat) (a : Int64) :
    (s.1.kids l a).isNone = true ↔ ¬∃ p ∈ paths, p[l]? = some a := by
  rw [h.kids]
  split
  · next hex => simp [hex]
  · next hex => simpa using hex

/-- A message that is not there has had no children. -/
theorem getD_kids (l : Nat) (a : Int64) :
    (s.1.kids l a).getD [] = (firstOf (pairs paths l) a).map (child ks l) := by
  rw [h.kids]
  split
  · rfl
  · next hnone =>
    have hempty : firstOf (pairs paths l) a = [] := by
      refine List.eq_nil_iff_forall_not_mem.mpr fun c hc => hnone ?_
      obtain ⟨p, hp, ha, -⟩ := mem_pairs.mp (FirstSeen.mem_of_mem_firstOf hc)
      exact ⟨p, hp, ha⟩
    rw [hempty]
    rfl

/-- The root of a row is written if it is new. -/
theorem roots_row (p : List Int64) :
    (if (p.head?.map fun i => (s.1.kids 0 i).isNone).getD false then s.2 ++ (p.head?.map (⟨0, ·⟩)).toList
      else s.2) = ((paths ++ [p]).filterMap List.head?).eraseDups.map (⟨0, ·⟩) := by
  rw [List.filterMap_append, List.filterMap_cons, List.filterMap_nil]
  cases hp : p.head? with
  | none =>
    rw [h.roots]
    simp
  | some i =>
    have hnew : (s.1.kids 0 i).isNone = true ↔ i ∉ paths.filterMap List.head? := by
      rw [h.isNone_iff, List.mem_filterMap]
      simp only [List.head?_eq_getElem?]
    simp only [Option.map_some, Option.getD_some, Option.toList_some]
    rw [FirstSeen.eraseDups_concat]
    by_cases hi : i ∈ paths.filterMap List.head?
    · rw [if_neg fun h => hnew.mp h hi, if_pos hi, h.roots]
    · rw [if_pos (hnew.mpr hi), if_neg hi, List.map_append, h.roots]
      rfl

/-- After a row, the children of each message are those first seen with it. -/
theorem kids_row {p : List Int64} {t' : MessageTree V} (hwalked : Walked ks 0 p s.1 t') (l : Nat)
    (a : Int64) : t'.kids l a = if ∃ q ∈ paths ++ [p], q[l]? = some a
      then some ((firstOf (pairs (paths ++ [p]) l) a).map (child ks l)) else none := by
  have hkids := hwalked.kids l a
  rw [Nat.zero_add] at hkids
  rw [hkids, pairs_concat]
  by_cases ha : p[l]? = some a
  · have hex : ∃ q ∈ paths ++ [p], q[l]? = some a := ⟨p, by simp, ha⟩
    rw [if_pos ha, if_pos hex, h.getD_kids, attached, Nat.zero_add]
    cases hc : p[l + 1]? with
    | none =>
      have hpair : pair l p = none := by rw [pair, ha, hc]; rfl
      rw [hpair]
      simp
    | some c =>
      have hpair : pair l p = some (a, c) := pair_eq_some.mpr ⟨ha, hc⟩
      rw [hpair, Option.toList_some, FirstSeen.firstOf_concat]
      -- the child is new to the tree exactly if no row before had its id on this level
      have hnew : (s.1.kids (l + 1) c).isNone = true ↔ c ∉ (pairs paths l).map Prod.snd := by
        rw [h.isNone_iff, mem_snd_pairs]
      dsimp only
      by_cases hseen : c ∈ (pairs paths l).map Prod.snd
      · rw [if_neg fun h => hnew.mp h hseen, if_neg fun h => h.2 hseen, List.append_nil]
      · rw [if_pos (hnew.mpr hseen), if_pos ⟨rfl, hseen⟩, List.map_append]
        rfl
  · have hfirst : firstOf (pairs paths l ++ (pair l p).toList) a = firstOf (pairs paths l) a := by
      cases hpair : pair l p with
      | none => rw [Option.toList_none, List.append_nil]
      | some x =>
        have hne : x.1 ≠ a := by
          rintro rfl
          exact ha (pair_eq_some.mp hpair).1
        rw [Option.toList_some, FirstSeen.firstOf_concat, if_neg fun h => hne h.1]
    have hex : (∃ q ∈ paths ++ [p], q[l]? = some a) ↔ ∃ q ∈ paths, q[l]? = some a := by
      constructor
      · rintro ⟨q, hq, hqa⟩
        rcases List.mem_append.mp hq with hq | hq
        · exact ⟨q, hq, hqa⟩
        · exact absurd (List.mem_singleton.mp hq ▸ hqa) ha
      · rintro ⟨q, hq, hqa⟩
        exact ⟨q, List.mem_append_left _ hq, hqa⟩
    rw [if_neg ha, h.kids, hfirst]
    simp only [hex]

end Kept

/-! ## All rows -/

/-- One row on a mapper. -/
theorem makeRow_cases {e : Element} (hshape : Shape lib e ks) {paths : List (List Int64)}
    {s : MessageTree V × List MessagePtr} (h : Kept ks paths s) (row : List (Option V)) :
    (TooLong lib ks row → makeRow lib e s row = .error .nullElement) ∧
      (¬TooLong lib ks row → ∃ s', makeRow lib e s row = .ok s' ∧ Kept ks (paths ++ [ids lib ks row]) s') := by
  have hout := hshape.outcome row s.1 0 h.wellFormed (Nat.zero_le _)
  rw [makeRow]
  constructor
  · intro hlong
    rw [hout.1 hlong]
    rfl
  · intro hshort
    obtain ⟨t', hres, hwalked⟩ := hout.2 hshort
    rw [hres]
    exact ⟨_, rfl, hwalked.wellFormed, h.kids_row hwalked, h.roots_row _⟩

theorem foldlM_makeRow {e : Element} (hshape : Shape lib e ks) : ∀ (rows : List (List (Option V)))
    {paths : List (List Int64)} {s : MessageTree V × List MessagePtr}, Kept ks paths s →
    ((∃ row ∈ rows, TooLong lib ks row) → rows.foldlM (makeRow lib e) s = .error .nullElement) ∧
      ((∀ row ∈ rows, ¬TooLong lib ks row) → ∃ s', rows.foldlM (makeRow lib e) s = .ok s' ∧
        Kept ks (paths ++ rows.map (ids lib ks)) s')
  | [], paths, s, h => by
    refine ⟨fun hlong => ?_, fun _ => ⟨s, rfl, ?_⟩⟩
    · obtain ⟨row, hrow, -⟩ := hlong
      cases hrow
    · rw [List.map_nil, List.append_nil]
      exact h
  | row :: rows, paths, s, h => by
    have hrow := makeRow_cases hshape h row
    rw [List.foldlM_cons]
    by_cases hlong : TooLong lib ks row
    · refine ⟨fun _ => ?_, fun hshort => absurd hlong (hshort row List.mem_cons_self)⟩
      rw [hrow.1 hlong]
      rfl
    · obtain ⟨s', hs', hkept⟩ := hrow.2 hlong
      have hrest := foldlM_makeRow hshape rows hkept
      rw [hs']
      constructor
      · rintro ⟨row', hrow', hlong'⟩
        rcases List.mem_cons.mp hrow' with rfl | hrow'
        · exact absurd hlong' hlong
        · exact hrest.1 ⟨row', hrow', hlong'⟩
      · intro hshort
        obtain ⟨s'', hs'', hkept'⟩ := hrest.2 fun row' hrow' => hshort row' (List.mem_cons_of_mem _ hrow')
        refine ⟨s'', hs'', ?_⟩
        rw [List.map_cons, List.append_cons]
        exact hkept'

theorem kept_init : Kept ks [] (({}, []) : MessageTree V × List MessagePtr) :=
  ⟨⟨fun _ _ _ => rfl, fun _ _ _ => nofun⟩, fun _ _ => by simp [MessageTree.kids], rfl⟩

/-- In terms of the rows, when each thing has one owner. -/
theorem oneParent_iff_firstOf {paths : List (List Int64)} :
    OneParent paths ↔ ∀ l a, firstOf (pairs paths l) a = groupOf (pairs paths l) a := by
  refine forall_congr' fun l => ?_
  rw [FirstSeen.firstOf_eq_iff]
  constructor
  · rintro h ⟨a, c⟩ hac ⟨a', c'⟩ hac' rfl
    obtain ⟨p, hp, ha, hc⟩ := mem_pairs.mp hac
    obtain ⟨q, hq, ha', hc'⟩ := mem_pairs.mp hac'
    have heq := h p hp q hq c hc hc'
    rw [ha, ha'] at heq
    exact Option.some.inj heq
  · intro h p hp q hq c hc hc'
    obtain ⟨a, hac⟩ := exists_pair hc
    obtain ⟨a', hac'⟩ := exists_pair hc'
    have hp := mem_pairs.mpr ⟨p, hp, pair_eq_some.mp hac⟩
    have hq := mem_pairs.mpr ⟨q, hq, pair_eq_some.mp hac'⟩
    have heq : a = a' := h _ hp _ hq rfl
    rw [(pair_eq_some.mp hac).1, (pair_eq_some.mp hac').1, heq]

theorem child_injective (ks : List Nat) (l : Nat) : Function.Injective (child ks l) := by
  intro c c' h
  simpa [child] using h

/-- The tree and the roots of a join are what they should be exactly if no id has two parents. -/
theorem Kept.folded_iff {paths : List (List Int64)} {s : MessageTree V × List MessagePtr}
    (h : Kept ks paths s) : Folded ks paths s.1 s.2 ↔ OneParent paths := by
  have hrepeated : ∀ l a m, s.1.maps l a = some m →
      m.repeated = (firstOf (pairs paths l) a).map (child ks l) := by
    intro l a m hm
    rw [← h.getD_kids, MessageTree.kids, hm]
    rfl
  constructor
  · intro hfolded
    refine oneParent_iff_firstOf.mpr fun l a => ?_
    cases hm : s.1.maps l a with
    | some m =>
      have heq := (hrepeated l a m hm).symm.trans (hfolded.children l a m hm)
      exact List.map_injective_iff.mpr (child_injective ks l) heq
    | none =>
      -- an id without a message is in no row
      have hnone : ∀ c, (a, c) ∉ pairs paths l := by
        intro c hc
        obtain ⟨p, hp, ha, -⟩ := mem_pairs.mp hc
        have hsome := (hfolded.made l a).mpr ⟨p, hp, ha⟩
        rw [hm] at hsome
        cases hsome
      rw [List.eq_nil_iff_forall_not_mem.mpr fun c hc => hnone c (FirstSeen.mem_of_mem_firstOf hc),
        List.eq_nil_iff_forall_not_mem.mpr fun c hc => hnone c (FirstSeen.mem_groupOf.mp hc)]
  · intro hone
    refine ⟨h.roots, fun l a => ?_, h.wellFormed.id, fun l a m hm => ?_, fun l a a' m m' x hm hm' hx hx' => ?_⟩
    · have hkids := h.kids l a
      rw [MessageTree.kids] at hkids
      split at hkids
      · next hex =>
        obtain ⟨m, hm, -⟩ := Option.map_eq_some_iff.mp hkids
        simp [hm, hex]
      · next hex =>
        simp [Option.map_eq_none_iff.mp hkids, hex]
    · rw [hrepeated l a m hm, oneParent_iff_firstOf.mp hone]
    · rw [hrepeated l a m hm] at hx
      rw [hrepeated l a' m' hm'] at hx'
      obtain ⟨c, hc, rfl⟩ := List.mem_map.mp hx
      obtain ⟨c', hc', heq⟩ := List.mem_map.mp hx'
      rw [child_injective ks l heq] at hc'
      exact FirstSeen.owner_unique hc hc'

section

/-- Every type is known, and the values are numbers. -/
def numbers : Library Int64 where
  known _ := true
  getId := id
  parse _ _ v := some v

def idElement : Element := .mk (ascii "id") none []
def resultElement : Element := .mk (ascii "result") none []

/-- `GuildMapper` of `src/resource/mappers`: a guild, its players and their weapons. -/
def guildMapper : Element :=
  .mk (ascii "resultMap") (some (ascii "tutorial.Guild")) [idElement, resultElement,
    .mk (ascii "collection") (some (ascii "tutorial.Player")) [idElement, resultElement, resultElement,
      .mk (ascii "collection") (some (ascii "tutorial.Weapon")) [idElement, resultElement]]]

theorem results_kind (n : Nat) : ∀ e ∈ List.replicate n resultElement, e.kind = .result := by
  intro e he
  rw [List.eq_of_mem_replicate he]
  decide

theorem shape_guildMapper : Shape numbers guildMapper [1, 2, 1] :=
  .nested rfl (by decide) (results_kind 1) (.inr (by decide))
    (.nested rfl (by decide) (results_kind 2) (.inr (by decide))
      (.last rfl (by decide) (results_kind 1)))

end

end Nemo.Orm
