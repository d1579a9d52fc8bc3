import Mathlib.Data.List.Nodup
import Mathlib.Logic.Function.Basic

/-!
# Singly linked chains

The `next` fields of all nodes are a function; a null pointer is `none`. `Leads next p l q` says that the pointer `p`
leads through the nodes `l` to the pointer `q`. A chain is a list of nodes that leads to a null pointer: it is
determined by its first pointer, and no node is in it twice.
-/

namespace Infra

variable {N : Type}

/-- From `p`, the nodes `l`, and then `q`. -/
def Leads (next : N → Option N) : Option N → List N → Option N → Prop
  | p, [], q => p = q
  | p, a :: l, q => p = some a ∧ Leads next (next a) l q

namespace Leads

variable {next next' : N → Option N} {p q : Option N} {a : N} {l l' : List N}

theorem append_iff : Leads next p (l ++ l') q ↔ ∃ m, Leads next p l m ∧ Leads next m l' q := by
  induction l generalizing p with
  | nil => exact ⟨fun h => ⟨p, rfl, h⟩, fun ⟨_, hpm, h⟩ => hpm ▸ h⟩
  | cons a l ih =>
    constructor
    · rintro ⟨hp, h⟩
      obtain ⟨m, hl, hl'⟩ := ih.mp h
      exact ⟨m, ⟨hp, hl⟩, hl'⟩
    · rintro ⟨m, ⟨hp, hl⟩, hl'⟩
      exact ⟨hp, ih.mpr ⟨m, hl, hl'⟩⟩

/-- Where the last node points to. -/
theorem next_last (h : Leads next p (l ++ [a]) q) : next a = q := by
  obtain ⟨_, -, -, h⟩ := append_iff.mp h
  exact h

/-- Only the `next` of the nodes between matters. -/
theorem congr (h : Leads next p l q) (hnext : ∀ c ∈ l, next' c = next c) : Leads next' p l q := by
  induction l generalizing p with
  | nil => exact h
  | cons a l ih =>
    obtain ⟨hp, h⟩ := h
    refine ⟨hp, ?_⟩
    rw [hnext a List.mem_cons_self]
    exact ih h fun c hc => hnext c (List.mem_cons_of_mem _ hc)

theorem unique (h : Leads next p l none) (h' : Leads next p l' none) : l = l' := by
  induction l generalizing p l' with
  | nil =>
    obtain rfl : p = none := h
    cases l' with
    | nil => rfl
    | cons b l' => exact absurd h'.1 nofun
  | cons a l ih =>
    obtain ⟨rfl, h⟩ := h
    cases l' with
    | nil => exact absurd h' nofun
    | cons b l' =>
      obtain ⟨hab, h'⟩ := h'
      obtain rfl : a = b := Option.some.inj hab
      rw [ih h h']

/-- A node that comes again would come again and again. -/
theorem nodup (h : Leads next p l none) : l.Nodup := by
  induction l generalizing p with
  | nil => exact List.nodup_nil
  | cons a l ih =>
    obtain ⟨-, h⟩ := h
    refine List.nodup_cons.mpr ⟨fun hmem => ?_, ih h⟩
    obtain ⟨s, t, rfl⟩ := List.append_of_mem hmem
    obtain ⟨m, -, -, hagain⟩ := append_iff.mp h
    have hlen := congrArg List.length (unique h hagain)
    simp only [List.length_append, List.length_cons] at hlen
    omega

variable [DecidableEq N]

/-- The chain is cut behind `a`. -/
theorem cut (h : Leads next p (l ++ a :: l') none) :
    Leads (Function.update next a none) p (l ++ [a]) none := by
  have hnodup := h.nodup
  obtain ⟨m, hl, hm, -⟩ := append_iff.mp h
  have hne : ∀ c ∈ l, c ≠ a := fun c hc => (List.nodup_append.mp hnodup).2.2 c hc a List.mem_cons_self
  exact append_iff.mpr ⟨m, hl.congr fun c hc => Function.update_of_ne (hne c hc) .., hm, Function.update_self ..⟩

/-- A new node is linked behind the last one. -/
theorem link {b : N} (h : Leads next p (l ++ [a]) none) (hb : b ∉ l ++ [a]) :
    Leads (Function.update (Function.update next b none) a (some b)) p (l ++ [a, b]) none := by
  have hnodup := h.nodup
  have hab : b ≠ a := fun hba => hb (hba ▸ List.mem_append_right _ List.mem_cons_self)
  obtain ⟨m, hl, hm, -⟩ := append_iff.mp h
  refine append_iff.mpr ⟨m, hl.congr fun c hc => ?_, hm, ?_, ?_⟩
  · have hca : c ≠ a := (List.nodup_append.mp hnodup).2.2 c hc a List.mem_cons_self
    have hcb : c ≠ b := ne_of_mem_of_not_mem (List.mem_append_left _ hc) hb
    rw [Function.update_of_ne hca, Function.update_of_ne hcb]
  · exact Function.update_self ..
  · show Function.update (Function.update next b none) a (some b) b = none
    rw [Function.update_of_ne hab, Function.update_self]

end Leads

end Infra
