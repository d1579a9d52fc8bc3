import Nemo.Infra.Ring

/-!
# `list.h`: the helpers on doubly linked nodes

Each helper is its field writes in the order of the source. What they do is said for a ring with
a header: taking a node out, taking the last node out, and putting a new node behind or before the
header.
-/

namespace Nemo

open Infra

variable {N : Type} [DecidableEq N]

def unlinkSelfUnckecked (l : Links N) (node : N) : Links N :=
  let prevNode := l.prev node
  let nextNode := l.next node
  let l := l.setNext prevNode nextNode
  l.setPrev nextNode prevNode

/-- The node taken out and the links without it, or `none` when there is none. -/
def unlinkBefore (l : Links N) (node : N) : Option (N × Links N) :=
  if node = l.prev node then none
  else
    let prevNode := l.prev node
    let l := l.setNext (l.prev prevNode) node
    let l := l.setPrev node (l.prev prevNode)
    some (prevNode, l)

def linkAfter (l : Links N) (linkedNode linkingNode : N) : Links N :=
  let l := l.setNext linkingNode (l.next linkedNode)
  let l := l.setPrev linkingNode linkedNode
  let l := l.setPrev (l.next linkedNode) linkingNode
  l.setNext linkedNode linkingNode

def linkBefore (l : Links N) (linkedNode linkingNode : N) : Links N :=
  let l := l.setPrev linkingNode (l.prev linkedNode)
  let l := l.setNext linkingNode linkedNode
  let l := l.setNext (l.prev linkedNode) linkingNode
  l.setPrev linkedNode linkingNode

variable {l : Links N} {h x : N} {xs ys : List N}

theorem isRing_unlinkSelfUnckecked (hr : IsRing l h (xs ++ x :: ys)) :
    IsRing (unlinkSelfUnckecked l x) h (xs ++ ys) := hr.remove

/-- The last node is taken out, as `unlinkSelfUnckecked` would do it. -/
theorem unlinkBefore_eq (hr : IsRing l h (xs ++ [x])) :
    ∃ l', unlinkBefore l h = some (x, l') ∧ IsRing l' h xs := by
  obtain ⟨hp, hn⟩ := hr.prev_header
  have hne : h ≠ x := by
    rintro rfl
    exact (List.nodup_cons.mp hr.nodup).1 (List.mem_append_right _ List.mem_cons_self)
  refine ⟨(l.setNext (l.prev x) h).setPrev h (l.prev x), ?_, ?_⟩
  · rw [unlinkBefore, hp, if_neg hne]
    rfl
  · have hrem := hr.remove
    rwa [hn, List.append_nil] at hrem

/-- A new node becomes the first one. -/
theorem isRing_linkAfter (hr : IsRing l h xs) (hx : x ∉ h :: xs) :
    IsRing (linkAfter l h x) h (x :: xs) := by
  obtain ⟨b, q, hbq⟩ := List.exists_cons_of_ne_nil
    (List.append_ne_nil_of_right_ne_nil xs (List.cons_ne_nil h []))
  have hb : l.next h = b := by
    have hl := hr.linked
    rw [List.cons_append, hbq] at hl
    exact (List.isChain_cons_cons.mp hl).1.1
  have hne : h ≠ x := fun he => hx (he ▸ List.mem_cons_self)
  have hr' : IsRing l h ([] ++ xs) := hr
  refine hr'.insert (p := []) rfl hbq hx ?_ ?_
  · rw [← hb]
    rfl
  · show Function.update (Function.update l.prev x h) _ x = _
    congr 1
    exact (Links.setNext_next_ne l _ hne).trans hb

/-- A new node becomes the last one. -/
theorem isRing_linkBefore (hr : IsRing l h xs) (hx : x ∉ h :: xs) :
    IsRing (linkBefore l h x) h (xs ++ [x]) := by
  obtain hnil | ⟨p, a, hpa⟩ := List.eq_nil_or_concat (h :: xs)
  · cases hnil
  rw [List.concat_eq_append] at hpa
  have ha : l.prev h = a := by
    have hl := hr.linked
    rw [hpa, List.append_assoc] at hl
    obtain ⟨-, ⟨-, h2⟩, -⟩ := Linked.split_iff.mp hl
    exact h2
  have hne : h ≠ x := fun he => hx (he ▸ List.mem_cons_self)
  rw [← List.append_nil xs] at hr hx
  refine hr.insert hpa rfl hx ?_ ?_
  · show Function.update (Function.update l.next x h) _ x = _
    congr 1
    exact (Links.setPrev_prev_ne l _ hne).trans ha
  · rw [← ha]
    rfl

end Nemo
