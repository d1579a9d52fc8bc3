import Mathlib.Algebra.Group.Nat.Defs
import Mathlib.Data.List.Basic

/-!
# Eight groups of hexadecimal digits as a text

The text form of RFC 4291, section 2.2, without a dotted tail. The groups have one to four hexadecimal digits and
stand between colons, and `::`, which stands at most once, is one or more groups of zeros.

`expand` reads such a text. The results are that it reads back what is written with all groups (`expand_textOf`) and
what is written with a `::` (`expand_textOf_textOf`).
-/

namespace Infra.GroupText

/-- The value of a hexadecimal digit. -/
def digitValue (c : Char) : Option Nat :=
  if '0' ≤ c ∧ c ≤ '9' then some (c.toNat - '0'.toNat)
  else if 'a' ≤ c ∧ c ≤ 'f' then some (c.toNat - 'a'.toNat + 10)
  else if 'A' ≤ c ∧ c ≤ 'F' then some (c.toNat - 'A'.toNat + 10)
  else none

def digitsValue (digits : List Char) : Option Nat :=
  digits.foldlM (fun value c => (digitValue c).map (16 * value + ·)) 0

/-- The value of a group of one to four digits. -/
def groupValue (digits : List Char) : Option Nat :=
  if 1 ≤ digits.length ∧ digits.length ≤ 4 then digitsValue digits else none

/-- Groups between single colons. -/
def groupsOf (t : List Char) : Option (List Nat) := (t.splitOn ':').mapM groupValue

/-- What stands before and behind the first `::`. -/
def cut : List Char → Option (List Char × List Char)
  | [] => none
  | c :: rest =>
    if c = ':' ∧ rest.head? = some ':' then some ([], rest.tail)
    else (cut rest).map fun (l, r) => (c :: l, r)

/-- How often there is a `::`. -/
def doubleColons : List Char → Nat
  | [] => 0
  | c :: rest => (if c = ':' ∧ rest.head? = some ':' then 1 else 0) + doubleColons rest

/-- One side of the `::`, which may be empty. -/
def sideOf (t : List Char) : Option (List Nat) := if t = [] then some [] else groupsOf t

/-- The eight groups of a text, if it is one. A second `::` would leave an empty group. -/
def expand (t : List Char) : Option (List Nat) :=
  match cut t with
  | none => (groupsOf t).filter fun groups => groups.length = 8
  | some (l, r) => do
    let left ← sideOf l
    let right ← sideOf r
    if left.length + right.length < 8 then
      some (left ++ List.replicate (8 - left.length - right.length) 0 ++ right)
    else none

/-! ## Digits -/

/-- The hexadecimal digits of a number, without leading zeros. -/
def hex (n : Nat) : List Char := Nat.toDigits 16 n

theorem digitValue_digitChar : ∀ d < 16, digitValue d.digitChar = some d := by
  decide

theorem digitChar_ne_colon : ∀ d < 16, d.digitChar ≠ ':' := by
  decide

theorem digitsValue_hex (n : Nat) : digitsValue (hex n) = some n := by
  induction n using Nat.strongRecOn with
  | ind n ih =>
    unfold digitsValue hex at *
    rw [Nat.toDigits_eq_if (by decide)]
    split
    · next hlt =>
      rw [List.foldlM_cons, digitValue_digitChar n hlt]
      show some (0 + n) = some n
      rw [Nat.zero_add]
    · next hge =>
      rw [List.foldlM_append, ih (n / 16) (by omega), Option.bind_eq_bind, Option.bind_some,
        List.foldlM_cons, digitValue_digitChar _ (Nat.mod_lt n (by decide))]
      show some (16 * (n / 16) + n % 16) = some n
      rw [Nat.div_add_mod]

theorem colon_notMem_hex (n : Nat) : ':' ∉ hex n := by
  induction n using Nat.strongRecOn with
  | ind n ih =>
    unfold hex at *
    rw [Nat.toDigits_eq_if (by decide)]
    split
    · next hlt => exact fun h => digitChar_ne_colon n hlt (List.mem_singleton.mp h).symm
    · next hge =>
      intro h
      rcases List.mem_append.mp h with h | h
      · exact ih (n / 16) (by omega) h
      · exact digitChar_ne_colon _ (Nat.mod_lt n (by decide)) (List.mem_singleton.mp h).symm

theorem groupValue_hex {n : Nat} (h : n < 16 ^ 4) : groupValue (hex n) = some n := by
  have hlow : 1 ≤ (hex n).length := Nat.length_toDigits_pos
  have hhigh : (hex n).length ≤ 4 := (Nat.length_toDigits_le_iff (by decide) (by decide)).mpr h
  rw [groupValue, if_pos ⟨hlow, hhigh⟩, digitsValue_hex]

/-! ## Groups between colons -/

/-- A group can stand between colons. -/
def IsPiece (p : List Char) : Prop := p ≠ [] ∧ ':' ∉ p

theorem isPiece_hex (n : Nat) : IsPiece (hex n) := ⟨Nat.toDigits_ne_nil, colon_notMem_hex n⟩

theorem isPiece_of_mem_map_hex (gs : List Nat) : ∀ p ∈ gs.map hex, IsPiece p :=
  List.forall_mem_map.mpr fun n _ => isPiece_hex n

/-- The groups behind the first one. -/
def behind (ps : List (List Char)) : List Char := ps.flatMap (':' :: ·)

def join : List (List Char) → List Char
  | [] => []
  | p :: ps => p ++ behind ps

theorem splitOn_join {p : List Char} {ps : List (List Char)} (h : ∀ q ∈ p :: ps, ':' ∉ q) :
    (join (p :: ps)).splitOn ':' = p :: ps := by
  induction ps generalizing p with
  | nil =>
    show (p ++ []).splitOn ':' = [p]
    rw [List.append_nil, List.splitOn_eq_singleton (h p List.mem_cons_self)]
  | cons q ps ih =>
    show (p ++ ':' :: (q ++ behind ps)).splitOn ':' = p :: q :: ps
    rw [List.splitOn_append_cons_self_of_not_mem (h p List.mem_cons_self)]
    exact congrArg (p :: ·) (ih fun r hr => h r (List.mem_cons_of_mem _ hr))

theorem mapM_groupValue : ∀ gs : List Nat, (∀ g ∈ gs, g < 16 ^ 4) → (gs.map hex).mapM groupValue = some gs
  | [], _ => rfl
  | g :: gs, h => by
    obtain ⟨hg, hgs⟩ := List.forall_mem_cons.mp h
    rw [List.map_cons, List.mapM_cons, groupValue_hex hg, mapM_groupValue gs hgs]
    rfl

/-- The text of some groups. -/
def textOf (gs : List Nat) : List Char := join (gs.map hex)

variable {gs left right : List Nat}

theorem groupsOf_textOf (hne : gs ≠ []) (h : ∀ g ∈ gs, g < 16 ^ 4) : groupsOf (textOf gs) = some gs := by
  cases gs with
  | nil => exact absurd rfl hne
  | cons g gs =>
    have hcolon : ∀ q ∈ hex g :: gs.map hex, ':' ∉ q := fun q hq =>
      (isPiece_of_mem_map_hex (g :: gs) q hq).2
    rw [groupsOf, textOf, List.map_cons, splitOn_join hcolon, ← List.map_cons, mapM_groupValue _ h]

theorem sideOf_textOf (h : ∀ g ∈ gs, g < 16 ^ 4) : sideOf (textOf gs) = some gs := by
  cases gs with
  | nil => rfl
  | cons g gs =>
    have hne : textOf (g :: gs) ≠ [] := fun hnil =>
      (isPiece_hex g).1 (List.append_eq_nil_iff.mp hnil).1
    rw [sideOf, if_neg hne, groupsOf_textOf (List.cons_ne_nil g gs) h]

/-! ## No `::` in the text of groups -/

/-- Whatever goes through a text pair by pair gets over a group. -/
theorem head_ne_colon {p rest : List Char} (h : IsPiece p) : (p ++ rest).head? ≠ some ':' := by
  obtain ⟨c, p, rfl⟩ := List.exists_cons_of_ne_nil h.1
  intro heq
  have hc : c = ':' := Option.some.inj heq
  exact h.2 (hc ▸ List.mem_cons_self)

theorem cut_append {p : List Char} (hp : ':' ∉ p) (rest : List Char) :
    cut (p ++ rest) = (cut rest).map fun x => (p ++ x.1, x.2) := by
  induction p with
  | nil =>
    show cut rest = (cut rest).map fun x => x
    rw [Option.map_id']
  | cons c p ih =>
    obtain ⟨hc, hp'⟩ := not_or.mp (List.mem_cons.not.mp hp)
    rw [List.cons_append, cut, if_neg fun h => hc h.1.symm, ih hp', Option.map_map]
    rfl

theorem cut_behind {ps : List (List Char)} (h : ∀ p ∈ ps, IsPiece p) (rest : List Char) :
    cut (behind ps ++ rest) = (cut rest).map fun x => (behind ps ++ x.1, x.2) := by
  induction ps with
  | nil =>
    show cut rest = (cut rest).map fun x => x
    rw [Option.map_id']
  | cons p ps ih =>
    obtain ⟨hp, hps⟩ := List.forall_mem_cons.mp h
    have hbehind : behind (p :: ps) = ':' :: (p ++ behind ps) := rfl
    rw [hbehind, List.cons_append, List.append_assoc, cut, if_neg fun h => head_ne_colon hp h.2,
      cut_append hp.2, ih hps, Option.map_map, Option.map_map]
    refine congrFun (congrArg _ (funext fun x => ?_)) _
    simp only [Function.comp_apply, List.cons_append, List.append_assoc]

theorem cut_join {ps : List (List Char)} (h : ∀ p ∈ ps, IsPiece p) (rest : List Char) :
    cut (join ps ++ rest) = (cut rest).map fun x => (join ps ++ x.1, x.2) := by
  cases ps with
  | nil => exact cut_behind h rest
  | cons p ps =>
    obtain ⟨hp, hps⟩ := List.forall_mem_cons.mp h
    rw [join, List.append_assoc, cut_append hp.2, cut_behind hps, Option.map_map]
    refine congrFun (congrArg _ (funext fun x => ?_)) _
    simp only [Function.comp_apply, List.append_assoc]

theorem doubleColons_append {p : List Char} (hp : ':' ∉ p) (rest : List Char) :
    doubleColons (p ++ rest) = doubleColons rest := by
  induction p with
  | nil => rfl
  | cons c p ih =>
    obtain ⟨hc, hp'⟩ := not_or.mp (List.mem_cons.not.mp hp)
    rw [List.cons_append, doubleColons, if_neg fun h => hc h.1.symm, ih hp', Nat.zero_add]

theorem doubleColons_behind {ps : List (List Char)} (h : ∀ p ∈ ps, IsPiece p) (rest : List Char) :
    doubleColons (behind ps ++ rest) = doubleColons rest := by
  induction ps with
  | nil => rfl
  | cons p ps ih =>
    obtain ⟨hp, hps⟩ := List.forall_mem_cons.mp h
    have hbehind : behind (p :: ps) = ':' :: (p ++ behind ps) := rfl
    rw [hbehind, List.cons_append, List.append_assoc, doubleColons, if_neg fun h => head_ne_colon hp h.2,
      doubleColons_append hp.2, ih hps, Nat.zero_add]

theorem doubleColons_join {ps : List (List Char)} (h : ∀ p ∈ ps, IsPiece p) (rest : List Char) :
    doubleColons (join ps ++ rest) = doubleColons rest := by
  cases ps with
  | nil => rfl
  | cons p ps =>
    obtain ⟨hp, hps⟩ := List.forall_mem_cons.mp h
    rw [join, List.append_assoc, doubleColons_append hp.2, doubleColons_behind hps]

/-! ## Both forms -/

/-- Eight groups. -/
theorem expand_textOf (hlength : gs.length = 8) (h : ∀ g ∈ gs, g < 16 ^ 4) :
    expand (textOf gs) = some gs ∧ doubleColons (textOf gs) = 0 := by
  have hcut : cut (textOf gs) = none := by
    have := cut_join (isPiece_of_mem_map_hex gs) []
    rwa [List.append_nil] at this
  have hcount : doubleColons (textOf gs) = 0 := by
    have := doubleColons_join (isPiece_of_mem_map_hex gs) []
    rwa [List.append_nil] at this
  have hne : gs ≠ [] := List.ne_nil_of_length_pos (hlength ▸ by decide)
  refine ⟨?_, hcount⟩
  rw [expand, hcut]
  dsimp only
  rw [groupsOf_textOf hne h, Option.filter_some, if_pos (decide_eq_true hlength)]

/-- Fewer groups, on both sides of a `::`. -/
theorem expand_textOf_textOf (hlength : left.length + right.length < 8) (hleft : ∀ g ∈ left, g < 16 ^ 4)
    (hright : ∀ g ∈ right, g < 16 ^ 4) :
    expand (textOf left ++ ':' :: ':' :: textOf right) =
        some (left ++ List.replicate (8 - left.length - right.length) 0 ++ right) ∧
      doubleColons (textOf left ++ ':' :: ':' :: textOf right) = 1 := by
  have hcut : cut (textOf left ++ ':' :: ':' :: textOf right) = some (textOf left, textOf right) := by
    have := cut_join (isPiece_of_mem_map_hex left) (':' :: ':' :: textOf right)
    rw [cut, if_pos ⟨rfl, rfl⟩, Option.map_some, List.append_nil] at this
    exact this
  have hcount : doubleColons (':' :: textOf right) = 0 := by
    cases right with
    | nil => rfl
    | cons g gs =>
      have := doubleColons_behind (isPiece_of_mem_map_hex (g :: gs)) []
      rwa [List.append_nil] at this
  constructor
  · rw [expand, hcut]
    dsimp only
    rw [sideOf_textOf hleft, sideOf_textOf hright]
    exact if_pos hlength
  · rw [textOf, doubleColons_join (isPiece_of_mem_map_hex left), doubleColons, if_pos ⟨rfl, rfl⟩, hcount]

end Infra.GroupText
