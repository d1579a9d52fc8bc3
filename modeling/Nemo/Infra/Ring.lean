import Mathlib.Data.List.Chain
import Mathlib.Data.List.Nodup
import Mathlib.Logic.Function.Basic

/-!
# Doubly linked chains

The `next` and `prev` fields of all nodes are two functions. `Linked l zs` says that `zs` is linked
in both directions from each element to the following one, and a ring is a linked list that
comes back to its header. Every operation on links is a list of field writes; the lemmas here say
what the two writes that take a node out, and the four that put one in, do to a chain.
-/

namespace Infra

variable {N : Type}

/-- The link fields of the nodes. -/
structure Links (N : Type) where
  next : N → N
  prev : N → N

namespace Links

variable [DecidableEq N]

/-- Writes `node->next`. -/
def setNext (l : Links N) (node target : N) : Links N :=
  { l with next := Function.update l.next node target }

/-- Writes `node->prev`. -/
def setPrev (l : Links N) (node target : N) : Links N :=
  { l with prev := Function.update l.prev node target }

@[simp] theorem setNext_next_self (l : Links N) (a b : N) : (l.setNext a b).next a = b :=
  Function.update_self ..

@[simp] theorem setPrev_prev_self (l : Links N) (a b : N) : (l.setPrev a b).prev a = b :=
  Function.update_self ..

theorem setNext_next_ne (l : Links N) {a c : N} (b : N) (h : c ≠ a) :
    (l.setNext a b).next c = l.next c := Function.update_of_ne h ..

theorem setPrev_prev_ne (l : Links N) {a c : N} (b : N) (h : c ≠ a) :
    (l.setPrev a b).prev c = l.prev c := Function.update_of_ne h ..

@[simp] theorem setNext_prev (l : Links N) (a b : N) : (l.setNext a b).prev = l.prev := rfl

@[simp] theorem setPrev_next (l : Links N) (a b : N) : (l.setPrev a b).next = l.next := rfl

end Links

/-- Each element of `zs` is linked with the one after it, in both directions. -/
def Linked (l : Links N) (zs : List N) : Prop :=
  zs.IsChain fun a b => l.next a = b ∧ l.prev b = a

namespace Linked

variable {l l' : Links N} {a b x : N} {p q : List N}

/-- A chain depends on the `next` of all but its last and the `prev` of all but its first element. -/
theorem congr {zs : List N} (h : Linked l zs) (hn : ∀ c ∈ zs.dropLast, l'.next c = l.next c)
    (hp : ∀ c ∈ zs.tail, l'.prev c = l.prev c) : Linked l' zs := by
  induction zs with
  | nil => exact .nil
  | cons a zs ih =>
    cases zs with
    | nil => exact .singleton a
    | cons b zs =>
      obtain ⟨⟨h1, h2⟩, h⟩ := List.isChain_cons_cons.mp h
      have hrest : Linked l' (b :: zs) :=
        ih h (fun c hc => hn c (List.mem_cons_of_mem _ hc))
          fun c hc => hp c (List.mem_cons_of_mem _ hc)
      refine List.isChain_cons_cons.mpr ⟨⟨?_, ?_⟩, hrest⟩
      · rw [hn a List.mem_cons_self, h1]
      · rw [hp b List.mem_cons_self, h2]

/-- The two ends of a chain that has a middle link. -/
theorem split_iff : Linked l (p ++ a :: b :: q) ↔
    Linked l (p ++ [a]) ∧ (l.next a = b ∧ l.prev b = a) ∧ Linked l (b :: q) :=
  List.isChain_append_cons_cons

variable [DecidableEq N]

/-- Writing the two fields around `x` takes `x` out of the chain. -/
theorem remove (h : Linked l (p ++ a :: x :: b :: q)) (hn : (p ++ a :: x :: b :: q).dropLast.Nodup)
    (hp : (p ++ a :: x :: b :: q).tail.Nodup) :
    Linked ((l.setNext a b).setPrev b a) (p ++ a :: b :: q) := by
  obtain ⟨h1, -, h2⟩ := split_iff.mp h
  obtain ⟨-, h2⟩ := List.isChain_cons_cons.mp h2
  rw [List.dropLast_append_of_ne_nil (List.cons_ne_nil _ _), List.dropLast_cons_of_ne_nil
    (List.cons_ne_nil _ _), List.dropLast_cons_of_ne_nil (List.cons_ne_nil _ _)] at hn
  obtain ⟨-, hn2, hn3⟩ := List.nodup_append.mp hn
  refine split_iff.mpr ⟨?_, ⟨Links.setNext_next_self .., Links.setPrev_prev_self ..⟩, ?_⟩
  · refine h1.congr (fun c hc => ?_) fun c hc => ?_
    · rw [List.dropLast_concat] at hc
      exact Links.setNext_next_ne _ _ (hn3 c hc a List.mem_cons_self)
    · refine Links.setPrev_prev_ne _ _ ?_
      rintro rfl
      cases p with
      | nil => cases hc
      | cons y p =>
        have hp' : (p ++ [a] ++ x :: c :: q).Nodup := by
          rw [List.append_assoc]
          exact hp
        exact (List.nodup_append.mp hp').2.2 c hc c
          (List.mem_cons_of_mem _ List.mem_cons_self) rfl
  · refine congr (l := l) h2 (fun c hc => ?_) fun c hc => ?_
    · refine Links.setNext_next_ne _ _ ?_
      rintro rfl
      exact (List.nodup_cons.mp hn2).1 (List.mem_cons_of_mem _ hc)
    · refine Links.setPrev_prev_ne _ _ ?_
      rintro rfl
      have hp' : (c :: q).Nodup := by
        refine hp.sublist ?_
        cases p with
        | nil => exact List.sublist_cons_self _ _
        | cons y p =>
          refine List.Sublist.trans ?_ (List.sublist_append_right _ _)
          exact (List.sublist_cons_self _ _).trans (List.sublist_cons_self _ _)
      exact (List.nodup_cons.mp hp').1 hc

/-- Writing the four fields between `a` and `b` puts a new node `x` there. -/
theorem insert (h : Linked l (p ++ a :: b :: q)) (hn : (p ++ a :: b :: q).dropLast.Nodup)
    (hp : (p ++ a :: b :: q).tail.Nodup) (hx : x ∉ p ++ a :: b :: q)
    (hl : l'.next = Function.update (Function.update l.next x b) a x)
    (hl' : l'.prev = Function.update (Function.update l.prev x a) b x) :
    Linked l' (p ++ a :: x :: b :: q) := by
  obtain ⟨h1, -, h2⟩ := split_iff.mp h
  rw [List.dropLast_append_of_ne_nil (List.cons_ne_nil _ _), List.dropLast_cons_of_ne_nil
    (List.cons_ne_nil _ _)] at hn
  obtain ⟨-, hn2, hn3⟩ := List.nodup_append.mp hn
  simp only [List.mem_append, List.mem_cons, not_or] at hx
  obtain ⟨hxp, hxa, hxb, hxq⟩ := hx
  refine split_iff.mpr ⟨?_, ⟨?_, ?_⟩, List.isChain_cons_cons.mpr ⟨⟨?_, ?_⟩, ?_⟩⟩
  · refine h1.congr (fun c hc => ?_) fun c hc => ?_
    · rw [List.dropLast_concat] at hc
      rw [hl, Function.update_of_ne (hn3 c hc a List.mem_cons_self), Function.update_of_ne]
      rintro rfl
      exact hxp hc
    · have hmem : c ∈ p ++ [a] := List.mem_of_mem_tail hc
      rw [hl', Function.update_of_ne, Function.update_of_ne]
      · rintro rfl
        rcases List.mem_append.mp hmem with hm | hm
        · exact hxp hm
        · exact hxa (List.mem_singleton.mp hm)
      · rintro rfl
        cases p with
        | nil => cases hc
        | cons y p =>
          have hp' : (p ++ [a] ++ c :: q).Nodup := by
            rw [List.append_assoc]
            exact hp
          exact (List.nodup_append.mp hp').2.2 c hc c List.mem_cons_self rfl
  · rw [hl, Function.update_self]
  · rw [hl', Function.update_of_ne hxb, Function.update_self]
  · rw [hl, Function.update_of_ne hxa, Function.update_self]
  · rw [hl', Function.update_self]
  · refine congr (l := l) h2 (fun c hc => ?_) fun c hc => ?_
    · rw [hl, Function.update_of_ne, Function.update_of_ne]
      · rintro rfl
        rcases List.mem_cons.mp ((List.dropLast_sublist _).subset hc) with hm | hm
        · exact hxb hm
        · exact hxq hm
      · rintro rfl
        exact (List.nodup_cons.mp hn2).1 hc
    · rw [hl', Function.update_of_ne, Function.update_of_ne]
      · rintro rfl
        exact hxq hc
      · rintro rfl
        have hp' : (c :: q).Nodup := by
          refine hp.sublist ?_
          cases p with
          | nil => exact List.Sublist.refl _
          | cons y p =>
            refine List.Sublist.trans ?_ (List.sublist_append_right _ _)
            exact List.sublist_cons_self _ _
        exact (List.nodup_cons.mp hp').1 hc

end Linked

/-- The nodes `xs`, in this order, form a ring with the header `h`. -/
structure IsRing (l : Links N) (h : N) (xs : List N) : Prop where
  linked : Linked l (h :: xs ++ [h])
  nodup : (h :: xs).Nodup

namespace IsRing

variable {l l' : Links N} {h : N} {xs ys : List N} {x : N}

theorem dropLast_nodup (hr : IsRing l h xs) : (h :: xs ++ [h]).dropLast.Nodup := by
  rw [List.dropLast_concat]
  exact hr.nodup

theorem tail_nodup (hr : IsRing l h xs) : (h :: xs ++ [h]).tail.Nodup :=
  (List.perm_append_singleton h xs).nodup_iff.mpr hr.nodup

/-- A header that is linked to itself is an empty ring. -/
theorem empty (hn : l.next h = h) (hp : l.prev h = h) : IsRing l h [] where
  linked := List.isChain_cons_cons.mpr ⟨⟨hn, hp⟩, .singleton h⟩
  nodup := List.nodup_singleton h

theorem ring_cut (h : N) (xs ys : List N) :
    h :: (xs ++ ys) ++ [h] = h :: xs ++ (ys ++ [h]) := by
  rw [← List.cons_append, List.append_assoc]

/-- The neighbours of the node `x`. -/
theorem neighbours (hr : IsRing l h (xs ++ x :: ys)) :
    ∃ p a b q, h :: xs = p ++ [a] ∧ ys ++ [h] = b :: q ∧ l.prev x = a ∧ l.next x = b := by
  obtain hnil | ⟨p, a, hpa⟩ := List.eq_nil_or_concat (h :: xs)
  · cases hnil
  rw [List.concat_eq_append] at hpa
  obtain ⟨b, q, hbq⟩ := List.exists_cons_of_ne_nil
    (List.append_ne_nil_of_right_ne_nil ys (List.cons_ne_nil h []))
  refine ⟨p, a, b, q, hpa, hbq, ?_⟩
  have hl := hr.linked
  rw [ring_cut, hpa, List.cons_append, hbq, List.append_assoc] at hl
  obtain ⟨-, ⟨-, h1⟩, h2⟩ := Linked.split_iff.mp hl
  obtain ⟨⟨h2, -⟩, -⟩ := List.isChain_cons_cons.mp h2
  exact ⟨h1, h2⟩

/-- In a ring `next` and `prev` are inverse to each other. -/
theorem inverse (hr : IsRing l h xs) : ∀ n ∈ h :: xs, l.prev (l.next n) = n ∧ l.next (l.prev n) = n := by
  intro n hn
  have hchain : ∀ zs : List N, Linked l zs →
      (∀ n ∈ zs.dropLast, l.prev (l.next n) = n) ∧ ∀ n ∈ zs.tail, l.next (l.prev n) = n := by
    intro zs
    induction zs with
    | nil => exact fun _ => ⟨nofun, nofun⟩
    | cons a zs ih =>
      intro hz
      cases zs with
      | nil => exact ⟨nofun, nofun⟩
      | cons b zs =>
        obtain ⟨⟨h1, h2⟩, h3⟩ := List.isChain_cons_cons.mp hz
        obtain ⟨h4, h5⟩ := ih h3
        constructor
        · intro n hn
          rw [List.dropLast_cons_of_ne_nil (List.cons_ne_nil _ _)] at hn
          rcases List.mem_cons.mp hn with rfl | hn
          · rw [h1, h2]
          · exact h4 n hn
        · intro n hn
          rcases List.mem_cons.mp hn with rfl | hn
          · rw [h2, h1]
          · exact h5 n hn
  obtain ⟨h1, h2⟩ := hchain _ hr.linked
  refine ⟨h1 n ?_, h2 n ?_⟩
  · rw [List.dropLast_concat]
    exact hn
  · show n ∈ xs ++ [h]
    rcases List.mem_cons.mp hn with rfl | hn
    · exact List.mem_append_right _ List.mem_cons_self
    · exact List.mem_append_left _ hn

/-- The node before the header is the last one. -/
theorem prev_header (hr : IsRing l h (xs ++ [x])) : l.prev h = x ∧ l.next x = h := by
  have hl := hr.linked
  rw [ring_cut] at hl
  obtain ⟨-, ⟨h1, h2⟩, -⟩ := Linked.split_iff.mp hl
  exact ⟨h2, h1⟩

variable [DecidableEq N]

/-- Linking the neighbours of `x` with each other takes `x` out of the ring. -/
theorem remove (hr : IsRing l h (xs ++ x :: ys)) :
    IsRing ((l.setNext (l.prev x) (l.next x)).setPrev (l.next x) (l.prev x)) h (xs ++ ys) := by
  obtain ⟨p, a, b, q, hpa, hbq, ha, hb⟩ := hr.neighbours
  have hcut : h :: (xs ++ x :: ys) ++ [h] = p ++ a :: x :: b :: q := by
    rw [ring_cut, hpa, List.cons_append, hbq, List.append_assoc]
    rfl
  have hcut' : h :: (xs ++ ys) ++ [h] = p ++ a :: b :: q := by
    rw [ring_cut, hpa, hbq, List.append_assoc]
    rfl
  have hl := hr.linked
  have hn := hr.dropLast_nodup
  have ht := hr.tail_nodup
  rw [hcut] at hl hn ht
  refine ⟨?_, ?_⟩
  · rw [hcut', ha, hb]
    exact hl.remove hn ht
  · refine hr.nodup.sublist ?_
    exact List.Sublist.cons_cons h (List.Sublist.append_left (List.sublist_cons_self x ys) xs)

/-- Writing the four fields between two neighbours of a ring puts `x` there. -/
theorem insert {p q : List N} {a b : N} (hr : IsRing l h (xs ++ ys)) (hpa : h :: xs = p ++ [a])
    (hbq : ys ++ [h] = b :: q) (hx : x ∉ h :: (xs ++ ys))
    (hl : l'.next = Function.update (Function.update l.next x b) a x)
    (hl' : l'.prev = Function.update (Function.update l.prev x a) b x) :
    IsRing l' h (xs ++ x :: ys) := by
  have hcut : h :: (xs ++ ys) ++ [h] = p ++ a :: b :: q := by
    rw [ring_cut, hpa, hbq, List.append_assoc]
    rfl
  have hcut' : h :: (xs ++ x :: ys) ++ [h] = p ++ a :: x :: b :: q := by
    rw [ring_cut, hpa, List.cons_append, hbq, List.append_assoc]
    rfl
  have hlk := hr.linked
  have hn := hr.dropLast_nodup
  have ht := hr.tail_nodup
  rw [hcut] at hlk hn ht
  have hx' : x ∉ p ++ a :: b :: q := by
    rw [← hcut, List.mem_append, List.mem_singleton]
    rintro (hm | rfl)
    · exact hx hm
    · exact hx List.mem_cons_self
  refine ⟨?_, ?_⟩
  · rw [hcut']
    exact hlk.insert hn ht hx' hl hl'
  · rw [← List.cons_append]
    refine List.nodup_middle.mpr (List.nodup_cons.mpr ⟨hx, ?_⟩)
    exact hr.nodup

end IsRing

end Infra
