import Mathlib.Algebra.GroupWithZero.Nat
import Mathlib.Data.List.GetD
import Nemo.Infra.FirstSeen
import Nemo.Orm.MakeMessage

/-!
# Folding the rows of a join

What the messages of `makeMessage` have in their repeated fields. The ids of a row are read from the
outermost element inwards, up to the first null one. `messageTree` finds a message by its id alone, so
a child whose id has been seen on its level is not added to another parent.

`Shape.outcome` says what one row does to the tree; all rows are in `JoinRows`.
-/

namespace Nemo.Orm

open Function (update)
open Http Infra

variable {V : Type} (lib : Library V)

/-! ## Mappers and rows -/

/--
The element has this many results on each level: an id and results, and behind them at most one nested
element that counts.
-/
inductive Shape : Element → List Nat → Prop
  | last {name type : Bytes} {idElement : Element} {results : List Element}
      (known : lib.known type = true) (isId : idElement.isId = true)
      (hresults : ∀ e ∈ results, e.kind = .result) :
      Shape (.mk name (some type) (idElement :: results)) [results.length]
  | nested {name type : Bytes} {idElement inner : Element} {results rest : List Element} {ks : List Nat}
      (known : lib.known type = true) (isId : idElement.isId = true)
      (hresults : ∀ e ∈ results, e.kind = .result)
      (kind : inner.kind = .association ∨ inner.kind = .collection) (hinner : Shape inner ks) :
      Shape (.mk name (some type) (idElement :: (results ++ inner :: rest))) (results.length :: ks)

/-- The ids of a row, up to the first null one. -/
def ids : List Nat → List (Option V) → List Int64
  | k :: ks, some v :: cells => lib.getId v :: ids ks (cells.drop k)
  | _, _ => []

/-- How many columns the mapper has. -/
def width (ks : List Nat) : Nat := (ks.map (· + 1)).sum

/-- A row without a null id that has more columns than the mapper. -/
def TooLong (ks : List Nat) (row : List (Option V)) : Prop :=
  (ids lib ks row).length = ks.length ∧ width ks < row.length

/-- The ids of a level and of the one below it in one row. -/
def pair (l : Nat) (path : List Int64) : Option (Int64 × Int64) :=
  (path[l]?).bind fun a => (path[l + 1]?).map fun c => (a, c)

/-- The ids of a level and of the one below it, in the order of the rows. -/
def pairs (paths : List (List Int64)) (l : Nat) : List (Int64 × Int64) := paths.filterMap (pair l)

/-- The number of the repeated field, behind the id and the results, and the pointer to a child. -/
def child (ks : List Nat) (l : Nat) (c : Int64) : Nat × MessagePtr := (ks.getD l 0 + 1, ⟨l + 1, c⟩)

/--
What is expected of a join: one root message for each root id, and in each message one child for each id
that occurs with it, both in the order of first appearance, each child in one message.
-/
structure Folded (ks : List Nat) (paths : List (List Int64)) (t : MessageTree V) (roots : List MessagePtr) :
    Prop where
  roots : roots = (paths.filterMap List.head?).eraseDups.map (⟨0, ·⟩)
  made : ∀ l a, (t.maps l a).isSome = true ↔ ∃ p ∈ paths, p[l]? = some a
  id : ∀ l a m, t.maps l a = some m → m.id = a
  children : ∀ l a m, t.maps l a = some m →
    m.repeated = (FirstSeen.groupOf (pairs paths l) a).map (child ks l)
  owned : ∀ l a a' m m' x, t.maps l a = some m → t.maps l a' = some m' →
    x ∈ m.repeated → x ∈ m'.repeated → a = a'

/-- The rows are folded. -/
def Folds (element : Element) (ks : List Nat) (rows : List (List (Option V))) : Prop :=
  ∃ t roots, makeMessage lib element rows = .ok (t, roots) ∧
    Folded ks (rows.map (ids lib ks)) t roots

/-- On no level an id occurs with two ids of the level above. -/
def OneParent (paths : List (List Int64)) : Prop :=
  ∀ l, ∀ p ∈ paths, ∀ q ∈ paths, ∀ c, p[l + 1]? = some c → q[l + 1]? = some c → p[l]? = q[l]?

/-! ## What a step of the code does to the tree -/

namespace MessageTree

variable (t : MessageTree V)

/-- The children of a message. -/
def kids (l : Nat) (a : Int64) : Option (List (Nat × MessagePtr)) := (t.maps l a).map Message.repeated

/-- There are no messages above the size, and each one has the id it is found by. -/
structure WellFormed : Prop where
  bounded : ∀ l a, t.size ≤ l → t.maps l a = none
  id : ∀ l a m, t.maps l a = some m → m.id = a

/-- Only fields have changed. -/
structure Similar (t t' : MessageTree V) : Prop where
  size : t'.size = t.size
  wellFormed : t.WellFormed → t'.WellFormed
  kids : t'.kids = t.kids

variable {t} {t' t'' : MessageTree V}

theorem Similar.refl (t : MessageTree V) : Similar t t := ⟨rfl, id, rfl⟩

theorem Similar.trans (h : Similar t t') (h' : Similar t' t'') : Similar t t'' :=
  ⟨h'.size.trans h.size, fun hw => h'.wellFormed (h.wellFormed hw), h'.kids.trans h.kids⟩

theorem maps_modify (p : MessagePtr) (f : Message V → Message V) (l : Nat) (a : Int64) :
    (t.modify p f).maps l a = if l = p.treeIndex ∧ a = p.id then (t.maps l a).map f else t.maps l a := by
  by_cases hl : l = p.treeIndex
  · subst hl
    by_cases ha : a = p.id
    · simp [modify, ha]
    · simp [modify, ha]
  · simp [modify, hl]

theorem WellFormed.modify (h : t.WellFormed) (p : MessagePtr) {f : Message V → Message V}
    (hf : ∀ m, (f m).id = m.id) : (t.modify p f).WellFormed := by
  constructor
  · intro l a hl
    rw [maps_modify, h.bounded l a hl]
    split <;> rfl
  · intro l a m hm
    rw [maps_modify] at hm
    split at hm
    · obtain ⟨m₀, hm₀, rfl⟩ := Option.map_eq_some_iff.mp hm
      exact (hf m₀).trans (h.id l a m₀ hm₀)
    · exact h.id l a m hm

theorem similar_parseField (p : MessagePtr) (cell : Option V) (fieldNum : Nat) :
    Similar t (t.parseField lib p cell fieldNum) := by
  cases cell with
  | none => exact .refl t
  | some v =>
    refine ⟨rfl, fun h => h.modify p fun m => by split <;> rfl, ?_⟩
    funext l a
    rw [kids, kids, parseField, maps_modify]
    split
    · rw [Option.map_map]
      refine congrArg (Option.map · _) (funext fun m => ?_)
      dsimp only [Function.comp_apply]
      split <;> rfl
    · rfl

/-- Adding a child. -/
theorem kids_addMessage (p : MessagePtr) (fieldNum : Nat) (x : MessagePtr) (l : Nat) (a : Int64) :
    (t.addMessage p fieldNum x).kids l a
      = if l = p.treeIndex ∧ a = p.id then (t.kids l a).map (· ++ [(fieldNum, x)]) else t.kids l a := by
  rw [kids, addMessage, maps_modify]
  split
  · rw [Option.map_map, kids, Option.map_map]
    rfl
  · rfl

theorem WellFormed.addMessage (h : t.WellFormed) (p : MessagePtr) (fieldNum : Nat) (x : MessagePtr) :
    (t.addMessage p fieldNum x).WellFormed := h.modify p fun _ => rfl

/-- What finding or making a message does. -/
structure Found (t : MessageTree V) (p : MessagePtr) (t' : MessageTree V) (isNew : Bool) : Prop where
  size : p.treeIndex < t'.size
  le : t.size ≤ t'.size
  wellFormed : t'.WellFormed
  kids : ∀ l a, t'.kids l a
    = if l = p.treeIndex ∧ a = p.id then some ((t.kids l a).getD []) else t.kids l a
  isNew : isNew = (t.kids p.treeIndex p.id).isNone

theorem found_insert (h : t.WellFormed) {p : MessagePtr} (hp : p.treeIndex ≤ t.size)
    (hnone : t.maps p.treeIndex p.id = none) (type : Bytes) :
    Found t p (t.insert p { type, id := p.id }) true := by
  have hmaps : ∀ l a, (t.insert p { type, id := p.id }).maps l a
      = if l = p.treeIndex ∧ a = p.id then some { type, id := p.id } else t.maps l a := by
    intro l a
    by_cases hl : l = p.treeIndex
    · subst hl
      by_cases ha : a = p.id
      · simp [insert, ha]
      · simp [insert, ha]
    · simp [insert, hl]
  have hsize : p.treeIndex < (t.insert p { type, id := p.id }).size ∧
      t.size ≤ (t.insert p { type, id := p.id }).size := by
    simp only [insert]
    split <;> omega
  refine ⟨hsize.1, hsize.2, ⟨fun l a hl => ?_, fun l a m hm => ?_⟩, fun l a => ?_, ?_⟩
  · rw [hmaps, if_neg]
    · exact h.bounded l a (Nat.le_trans hsize.2 hl)
    · rintro ⟨rfl, -⟩
      exact Nat.not_le.mpr hsize.1 hl
  · rw [hmaps] at hm
    split at hm
    · next heq =>
      cases hm
      exact heq.2.symm
    · exact h.id l a m hm
  · rw [MessageTree.kids, hmaps]
    split
    · next heq =>
      rw [heq.1, heq.2, MessageTree.kids, hnone]
      rfl
    · rfl
  · rw [MessageTree.kids, hnone]
    rfl

theorem found_findOrNew (h : t.WellFormed) {p : MessagePtr} (hp : p.treeIndex ≤ t.size) (type : Bytes) :
    Found t p (t.findOrNew p type).1 (t.findOrNew p type).2 := by
  rw [findOrNew]
  by_cases hsize : p.treeIndex = t.size
  · rw [if_pos hsize]
    exact found_insert h hp (h.bounded _ _ (Nat.le_of_eq hsize.symm)) type
  · rw [if_neg hsize]
    cases hm : t.maps p.treeIndex p.id with
    | none => exact found_insert h hp hm type
    | some m =>
      dsimp only
      refine ⟨by omega, Nat.le_refl _, h, fun l a => ?_, ?_⟩
      · split
        · next heq =>
          rw [heq.1, heq.2, MessageTree.kids, hm]
          rfl
        · rfl
      · rw [MessageTree.kids, hm]
        rfl

end MessageTree

/-! ## One row -/

section

variable {lib}

theorem initMessage_nil (elements : List Element) (t : MessageTree V) (p : MessagePtr) (f : Nat) :
    initMessage lib [] elements t p f = .ok t := by
  rw [initMessage]

theorem initMessage_null (cell : Option V) (cells : List (Option V)) (t : MessageTree V) (p : MessagePtr)
    (f : Nat) : initMessage lib (cell :: cells) [] t p f = .error .nullElement := by
  rw [initMessage]

theorem initMessage_result {element : Element} (h : element.kind = .result) (cell : Option V)
    (cells : List (Option V)) (elements : List Element) (t : MessageTree V) (p : MessagePtr) (f : Nat) :
    initMessage lib (cell :: cells) (element :: elements) t p f
      = initMessage lib cells elements (t.parseField lib p cell f) p (f + 1) := by
  rw [initMessage, h]

theorem initMessage_nested {element : Element} (h : element.kind = .association ∨ element.kind = .collection)
    (cell : Option V) (cells : List (Option V)) (elements : List Element) (t : MessageTree V)
    (p : MessagePtr) (f : Nat) :
    initMessage lib (cell :: cells) (element :: elements) t p f = (do
      let (t, child, isNewMessage) ← innerMakeMessage lib (cell :: cells) element t (p.treeIndex + 1)
      return t.addIfNew p f child isNewMessage) := by
  rcases h with h | h <;> simp only [initMessage, h]

/-- The results of a level change fields only. -/
theorem initMessage_results {results : List Element} (hresults : ∀ e ∈ results, e.kind = .result)
    (cells : List (Option V)) (elements : List Element) (t : MessageTree V) (p : MessagePtr) (f : Nat) :
    ∃ t', t.Similar t' ∧ initMessage lib cells (results ++ elements) t p f =
      if cells.length ≤ results.length then .ok t'
      else initMessage lib (cells.drop results.length) elements t' p (f + results.length) := by
  induction results generalizing cells t f with
  | nil =>
    refine ⟨t, .refl t, ?_⟩
    cases cells with
    | nil => exact initMessage_nil ..
    | cons cell cells => rfl
  | cons e results ih =>
    obtain ⟨he, hrest⟩ := List.forall_mem_cons.mp hresults
    cases cells with
    | nil => exact ⟨t, .refl t, initMessage_nil ..⟩
    | cons cell cells =>
      obtain ⟨t', hsim, heq⟩ := ih hrest cells (t.parseField lib p cell f) (f + 1)
      refine ⟨t', (MessageTree.similar_parseField lib p cell f).trans hsim, ?_⟩
      rw [List.cons_append, initMessage_result he, heq, List.length_cons, List.length_cons,
        List.drop_succ_cons, Nat.add_right_comm f 1, Nat.add_assoc f]
      simp only [Nat.add_le_add_iff_right]

theorem innerMakeMessage_null {cells : List (Option V)} (h : ∀ v rest, cells ≠ some v :: rest) (e : Element)
    (t : MessageTree V) (j : Nat) : innerMakeMessage lib cells e t j = .ok (t, none, false) := by
  obtain ⟨name, type, children⟩ := e
  rw [innerMakeMessage]
  exact h

theorem innerMakeMessage_some {name type : Bytes} {idElement : Element} (known : lib.known type = true)
    (isId : idElement.isId = true) (v : V) (cells : List (Option V)) (elements : List Element)
    (t : MessageTree V) (j : Nat) :
    innerMakeMessage lib (some v :: cells) (.mk name (some type) (idElement :: elements)) t j = (do
      let found := t.findOrNew ⟨j, lib.getId v⟩ type
      let t ← initMessage lib cells elements found.1 ⟨j, lib.getId v⟩ 1
      return (t, some ⟨j, lib.getId v⟩, found.2)) := by
  rw [innerMakeMessage]
  dsimp only
  rw [if_pos known, if_pos isId]

/-- What a row adds to a message that it has: the child of the level below, if it is new. -/
def attached (t : MessageTree V) (ks : List Nat) (j : Nat) (path : List Int64) (d : Nat) :
    List (Nat × MessagePtr) :=
  match path[d + 1]? with
  | none => []
  | some c => if (t.kids (j + d + 1) c).isNone then [(ks.getD d 0 + 1, ⟨j + d + 1, c⟩)] else []

/-- What a row does, from a level on. -/
structure Walked (ks : List Nat) (j : Nat) (path : List Int64) (t t' : MessageTree V) : Prop where
  wellFormed : t'.WellFormed
  below : ∀ l, l < j → ∀ a, t'.kids l a = t.kids l a
  kids : ∀ d a, t'.kids (j + d) a
    = if path[d]? = some a then some ((t.kids (j + d) a).getD [] ++ attached t ks j path d)
      else t.kids (j + d) a

theorem Walked.nil {t : MessageTree V} (h : t.WellFormed) (ks : List Nat) (j : Nat) :
    Walked ks j [] t t := ⟨h, fun _ _ _ => rfl, fun _ _ => rfl⟩

/-- The outcome of a row, from a level on. -/
def Outcome (lib : Library V) (ks : List Nat) (cells : List (Option V)) (t : MessageTree V) (j : Nat)
    (result : Except Fault (MessageTree V × Option MessagePtr × Bool)) : Prop :=
  (TooLong lib ks cells → result = .error .nullElement) ∧
    (¬TooLong lib ks cells → ∃ t', result = .ok (t', (ids lib ks cells).head?.map (⟨j, ·⟩),
        ((ids lib ks cells).head?.map fun i => (t.kids j i).isNone).getD false) ∧
      Walked ks j (ids lib ks cells) t t')

theorem outcome_null {ks : List Nat} (hks : ks ≠ []) {cells : List (Option V)}
    (h : ∀ v rest, cells ≠ some v :: rest) (e : Element) {t : MessageTree V} (ht : t.WellFormed) (j : Nat) :
    Outcome lib ks cells t j (innerMakeMessage lib cells e t j) := by
  have hids : ids lib ks cells = [] := by
    unfold ids
    split
    · next v rest => exact absurd rfl (h v rest)
    · rfl
  refine ⟨fun hlong => ?_, fun _ => ⟨t, ?_, ?_⟩⟩
  · rw [TooLong, hids] at hlong
    exact absurd (List.length_eq_zero_iff.mp hlong.1.symm) hks
  · rw [innerMakeMessage_null h, hids]
    rfl
  · rw [hids]
    exact .nil ht ks j

/-- The level on which a row starts: its message is there, and nothing is below it. -/
theorem walked_found {t t₁ t₂ : MessageTree V} {j : Nat} {i : Int64} {isNew : Bool}
    (hfound : MessageTree.Found t ⟨j, i⟩ t₁ isNew) (hsim : t₁.Similar t₂) (ks : List Nat) :
    Walked ks j [i] t t₂ := by
  refine ⟨hsim.wellFormed hfound.wellFormed, fun l hl a => ?_, fun d a => ?_⟩
  · rw [hsim.kids, hfound.kids, if_neg fun h => absurd h.1 (Nat.ne_of_lt hl)]
  · rw [hsim.kids, hfound.kids]
    cases d with
    | zero => simp [attached, eq_comm]
    | succ d => simp

/-- The level on which a row starts, with the levels below it. -/
theorem walked_cons {t t₁ t₂ t₃ t₄ : MessageTree V} {ks : List Nat} {k j : Nat} {i c : Int64}
    {path : List Int64} {isNew : Bool} (hfound : MessageTree.Found t ⟨j, i⟩ t₁ isNew)
    (hsim : t₁.Similar t₂) (hwalked : Walked ks (j + 1) (c :: path) t₂ t₃) (hwf : t₄.WellFormed)
    (hkids : ∀ l a, t₄.kids l a = if l = j ∧ a = i ∧ (t.kids (j + 1) c).isNone = true
      then (t₃.kids l a).map (· ++ [(k + 1, ⟨j + 1, c⟩)]) else t₃.kids l a) :
    Walked (k :: ks) j (i :: c :: path) t t₄ := by
  have hkids₂ : ∀ l a, t₂.kids l a = if l = j ∧ a = i then some ((t.kids l a).getD []) else t.kids l a := by
    intro l a
    rw [hsim.kids, hfound.kids]
  -- the levels below the first one are as they were before it
  have hlower : ∀ l a, j < l → t₂.kids l a = t.kids l a := by
    intro l a hl
    rw [hkids₂, if_neg fun h => absurd h.1 (Nat.ne_of_gt hl)]
  refine ⟨hwf, fun l hl a => ?_, fun d a => ?_⟩
  · rw [hkids, if_neg fun h => absurd h.1 (Nat.ne_of_lt hl), hwalked.below l (by omega), hkids₂,
      if_neg fun h => absurd h.1 (Nat.ne_of_lt hl)]
  · cases d with
    | zero =>
      rw [Nat.add_zero, hkids, hwalked.below j (Nat.lt_succ_self j), hkids₂]
      by_cases ha : a = i
      · subst ha
        cases hnew : (t.kids (j + 1) c).isNone <;> simp [attached, hnew]
      · simp [ha, Ne.symm ha]
    | succ d =>
      have hne : j + (d + 1) ≠ j := by omega
      have hattached : attached t (k :: ks) j (i :: c :: path) (d + 1)
          = attached t₂ ks (j + 1) (c :: path) d := by
        rw [attached, attached, List.getElem?_cons_succ, List.getD_cons_succ,
          show j + (d + 1) + 1 = j + 1 + d + 1 by omega]
        cases (c :: path)[d + 1]? with
        | none => rfl
        | some x =>
          dsimp only
          rw [hlower _ x (by omega)]
      rw [hkids, if_neg fun h => absurd h.1 hne, hattached, List.getElem?_cons_succ,
        show j + (d + 1) = j + 1 + d by omega, hwalked.kids, hlower _ a (by omega)]

theorem Shape.ne_nil {e : Element} {ks : List Nat} (h : Shape lib e ks) : ks ≠ [] := by
  cases h <;> exact List.cons_ne_nil _ _

/-- A row that starts with an id, on an element without a nested one. -/
theorem outcome_last {name type : Bytes} {idElement : Element} {results : List Element}
    (known : lib.known type = true) (isId : idElement.isId = true)
    (hresults : ∀ e ∈ results, e.kind = .result) (v : V) (cells : List (Option V)) {t : MessageTree V}
    (ht : t.WellFormed) {j : Nat} (hj : j ≤ t.size) :
    Outcome lib [results.length] (some v :: cells) t j
      (innerMakeMessage lib (some v :: cells) (.mk name (some type) (idElement :: results)) t j) := by
  have hfound := MessageTree.found_findOrNew ht (p := ⟨j, lib.getId v⟩) hj type
  obtain ⟨t₂, hsim, heq⟩ := initMessage_results hresults cells [] (t.findOrNew ⟨j, lib.getId v⟩ type).1
    ⟨j, lib.getId v⟩ 1
  rw [List.append_nil] at heq
  rw [innerMakeMessage_some known isId]
  dsimp only
  rw [heq]
  have hids : ids lib [results.length] (some v :: cells) = [lib.getId v] := rfl
  have hlong : TooLong lib [results.length] (some v :: cells) ↔ ¬cells.length ≤ results.length := by
    simp [TooLong, hids, width]
  constructor
  · intro h
    have hdrop : cells.drop results.length ≠ [] := by
      rw [Ne, List.drop_eq_nil_iff]
      exact hlong.mp h
    obtain ⟨cell, rest, hcons⟩ := List.exists_cons_of_ne_nil hdrop
    rw [if_neg (hlong.mp h), hcons, initMessage_null]
    rfl
  · intro h
    rw [if_pos (not_not.mp fun hnot => h (hlong.mpr hnot)), hids]
    refine ⟨t₂, ?_, walked_found hfound hsim _⟩
    rw [hfound.isNew]
    rfl

theorem Walked.congr {ks : List Nat} {j : Nat} {path : List Int64} {t t' t'' : MessageTree V}
    (h : Walked ks j path t t') (hwf : t''.WellFormed) (hkids : t''.kids = t'.kids) :
    Walked ks j path t t'' :=
  ⟨hwf, by rw [hkids]; exact h.below, by rw [hkids]; exact h.kids⟩

/-- Where a row has no id on a level, no children change from there on. -/
theorem Walked.kids_eq {ks : List Nat} {j : Nat} {t t' : MessageTree V} (h : Walked ks j [] t t') :
    t'.kids = t.kids := by
  funext l a
  by_cases hl : l < j
  · exact h.below l hl a
  · obtain ⟨d, rfl⟩ := Nat.exists_eq_add_of_le (Nat.le_of_not_lt hl)
    exact h.kids d a

/-- The message of a level gets the one below it, if that is new. -/
theorem kids_addIfNew {t : MessageTree V} (p x : MessagePtr) (f : Nat) (isNew : Bool) (l : Nat) (a : Int64) :
    (t.addIfNew p f (some x) isNew).kids l a
      = if l = p.treeIndex ∧ a = p.id ∧ isNew = true then (t.kids l a).map (· ++ [(f, x)])
        else t.kids l a := by
  cases isNew with
  | false => simp [MessageTree.addIfNew]
  | true => simp [MessageTree.addIfNew, MessageTree.kids_addMessage]

theorem wellFormed_addIfNew {t : MessageTree V} (h : t.WellFormed) (p : MessagePtr) (f : Nat)
    (x : Option MessagePtr) (isNew : Bool) : (t.addIfNew p f x isNew).WellFormed := by
  unfold MessageTree.addIfNew
  split
  · exact h.addMessage ..
  · exact h

/-- A row that starts with an id, on an element with a nested one. -/
theorem outcome_nested {name type : Bytes} {idElement inner : Element} {results rest : List Element}
    {ks : List Nat} (known : lib.known type = true) (isId : idElement.isId = true)
    (hresults : ∀ e ∈ results, e.kind = .result)
    (kind : inner.kind = .association ∨ inner.kind = .collection) (hks : ks ≠ [])
    (hinner : ∀ (cells : List (Option V)) (t : MessageTree V) (j : Nat), t.WellFormed → j ≤ t.size →
      Outcome lib ks cells t j (innerMakeMessage lib cells inner t j))
    (v : V) (cells : List (Option V)) {t : MessageTree V} (ht : t.WellFormed) {j : Nat} (hj : j ≤ t.size) :
    Outcome lib (results.length :: ks) (some v :: cells) t j (innerMakeMessage lib (some v :: cells)
      (.mk name (some type) (idElement :: (results ++ inner :: rest))) t j) := by
  have hfound := MessageTree.found_findOrNew ht (p := ⟨j, lib.getId v⟩) hj type
  obtain ⟨t₂, hsim, heq⟩ := initMessage_results hresults cells (inner :: rest)
    (t.findOrNew ⟨j, lib.getId v⟩ type).1 ⟨j, lib.getId v⟩ 1
  rw [innerMakeMessage_some known isId]
  dsimp only
  rw [heq]
  have hids : ids lib (results.length :: ks) (some v :: cells)
      = lib.getId v :: ids lib ks (cells.drop results.length) := rfl
  by_cases hshort : cells.length ≤ results.length
  · -- the row ends before the nested element
    have hdrop : ids lib ks (cells.drop results.length) = [] := by
      rw [List.drop_eq_nil_iff.mpr hshort, ids]
      exact fun _ _ _ _ _ => nofun
    rw [if_pos hshort]
    refine ⟨fun hlong => ?_, fun _ => ⟨t₂, ?_, ?_⟩⟩
    · rw [TooLong, hids, hdrop] at hlong
      exact absurd (List.length_eq_zero_iff.mp (Nat.succ.inj hlong.1).symm) hks
    · rw [hids, hfound.isNew]
      rfl
    · rw [hids, hdrop]
      exact walked_found hfound hsim _
  · obtain ⟨cell, more, hcons⟩ := List.exists_cons_of_ne_nil
      (fun h => hshort (List.drop_eq_nil_iff.mp h) : cells.drop results.length ≠ [])
    have hout := hinner (cell :: more) t₂ (j + 1) (hsim.wellFormed hfound.wellFormed)
      (hsim.size ▸ hfound.size)
    have hlong : TooLong lib (results.length :: ks) (some v :: cells) ↔ TooLong lib ks (cell :: more) := by
      have hlength : (cell :: more).length = cells.length - results.length := by
        rw [← hcons, List.length_drop]
      rw [TooLong, TooLong, hids, hcons, hlength]
      simp only [List.length_cons, width, List.map_cons, List.sum_cons]
      omega
    rw [if_neg hshort, hcons, initMessage_nested kind]
    constructor
    · intro h
      rw [hout.1 (hlong.mp h)]
      rfl
    · intro h
      obtain ⟨t₃, hres, hwalked⟩ := hout.2 fun h' => h (hlong.mpr h')
      rw [hres, hids, hcons, hfound.isNew]
      refine ⟨_, rfl, ?_⟩
      cases hpath : ids lib ks (cell :: more) with
      | nil =>
        rw [hpath] at hwalked
        exact (walked_found hfound hsim _).congr (wellFormed_addIfNew hwalked.wellFormed ..) hwalked.kids_eq
      | cons c path =>
        rw [hpath] at hwalked
        have hnew : t₂.kids (j + 1) c = t.kids (j + 1) c := by
          rw [hsim.kids, hfound.kids, if_neg fun h => absurd h.1 (Nat.succ_ne_self j)]
        refine walked_cons hfound hsim hwalked (wellFormed_addIfNew hwalked.wellFormed ..) fun l a => ?_
        rw [List.head?_cons, Option.map_some, Option.map_some, Option.getD_some, kids_addIfNew, hnew,
          Nat.add_comm 1]

/-- What a row does, on every mapper. -/
theorem Shape.outcome {e : Element} {ks : List Nat} (h : Shape lib e ks) : ∀ (cells : List (Option V))
    (t : MessageTree V) (j : Nat), t.WellFormed → j ≤ t.size →
    Outcome lib ks cells t j (innerMakeMessage lib cells e t j) := by
  induction h with
  | last known isId hresults =>
    intro cells t j ht hj
    by_cases hnull : ∀ v rest, cells ≠ some v :: rest
    · exact outcome_null (List.cons_ne_nil _ _) hnull _ ht j
    · simp only [not_forall, not_not] at hnull
      obtain ⟨v, rest, rfl⟩ := hnull
      exact outcome_last known isId hresults v rest ht hj
  | nested known isId hresults kind hinner ih =>
    intro cells t j ht hj
    by_cases hnull : ∀ v rest, cells ≠ some v :: rest
    · exact outcome_null (List.cons_ne_nil _ _) hnull _ ht j
    · simp only [not_forall, not_not] at hnull
      obtain ⟨v, rest, rfl⟩ := hnull
      exact outcome_nested known isId hresults kind hinner.ne_nil ih v rest ht hj

end

end Nemo.Orm
