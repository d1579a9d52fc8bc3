import Mathlib.Data.List.TakeWhile
import Nemo.Common.CString

/-!
# Hosts with a service

`GetAddrInfo` cuts a host into the node and the service that `getaddrinfo` gets. A host is a view: its bytes are
followed by whatever is behind it in memory, and `getaddrinfo` reads both texts up to a NUL byte. `[`, `]` and `:` are
the bytes 91, 93 and 58.

* `splits_iff` — hosts for which the texts are right: outside brackets there is at most one colon, nothing but a
  service is behind the brackets, there is no NUL byte, and there is one behind the view if there is a service

`service` is set to the first colon before the second is looked for, and stays there when there is one.
-/

namespace Nemo.Net

open Http (Bytes ascii)

/-! ## The function -/

/-- `memchr` in the `n` bytes from `p`: where the first `c` is. -/
def memchr (s : Bytes) (p : Nat) (c : UInt8) (n : Nat) : Option Nat :=
  (((s.drop p).take n).findIdx? (· == c)).map (p + ·)

/-- The two arguments that are computed. The service is a pointer into the host. -/
structure HostService where
  node : Bytes := []
  service : Option Nat := none

namespace HostService

/-- The address in brackets. Without the closing bracket nothing is looked up. -/
def checkIpv6 (host : Bytes) : Option HostService :=
  if host.head? = some 91 then
    (memchr host 1 93 (host.length - 1)).map fun endipv6 =>
      { node := (host.drop 1).take (endipv6 - 1)
        service := if endipv6 + 1 < host.length ∧ host[endipv6 + 1]? = some 58 then some (endipv6 + 2) else none }
  else
    some {}

/-- The colon, if there is no node yet. -/
def checkService (host : Bytes) (r : HostService) : HostService :=
  if r.node = [] then
    match memchr host 0 58 host.length with
    | none => { r with service := none }
    | some service =>
      match memchr host (service + 1) 58 (host.length - service - 1) with
      | none => { node := host.take service, service := some (service + 1) }
      -- `service` has been assigned
      | some _ => { r with service := some service }
  else
    r

def checkNode (host : Bytes) (r : HostService) : HostService :=
  if r.node = [] then { r with node := host } else r

/-- The service as `getaddrinfo` reads it, with the bytes behind the host. -/
def serviceText (host after : Bytes) (r : HostService) : Option Bytes :=
  r.service.map fun i => cString ((host ++ after).drop i)

end HostService

/-- `GetAddrInfo`, up to the call of `getaddrinfo`. -/
def getAddrInfo (host : Bytes) : Option HostService :=
  (HostService.checkIpv6 host).map fun r => HostService.checkNode host (HostService.checkService host r)

/-- The texts that `getaddrinfo` reads. -/
def passed (host after : Bytes) : Option (Bytes × Option Bytes) :=
  (getAddrInfo host).map fun r => (cString r.node, r.serviceText host after)

/-! ## What is right -/

/-- The host begins with a bracket that is not closed, or with brackets that have something in them. -/
def StartsBracketed (host : Bytes) : Prop :=
  ∃ t, host = 91 :: t ∧ (93 ∉ t ∨ ∃ X R, t = X ++ 93 :: R ∧ X ≠ [] ∧ 93 ∉ X)

/-- `[X]`, `[X]:S`, or a bracket that is not closed. -/
def InBrackets (host : Bytes) : Prop :=
  ∃ t, host = 91 :: t ∧
    (93 ∉ t ∨ ∃ X R, t = X ++ 93 :: R ∧ X ≠ [] ∧ 93 ∉ X ∧ (R = [] ∨ ∃ S, R = 58 :: S))

/-- The texts of a host. -/
structure Splits (host after : Bytes) : Prop where
  bracketed : ∀ X, host = 91 :: (X ++ [93]) → X ≠ [] → 93 ∉ X → passed host after = some (X, none)
  bracketedService : ∀ X S, host = 91 :: (X ++ 93 :: 58 :: S) → X ≠ [] → 93 ∉ X →
    passed host after = some (X, some S)
  single : ∀ N S, host = N ++ 58 :: S → ¬ InBrackets host → N ≠ [] → 58 ∉ N → 58 ∉ S →
    passed host after = some (N, some S)
  whole : ¬ InBrackets host → 58 ∉ host ∨ 2 ≤ host.count 58 → passed host after = some (host, none)
  unclosed : ∀ t, host = 91 :: t → 93 ∉ t → getAddrInfo host = none
  inside : ∀ r i, getAddrInfo host = some r → r.service = some i →
    i ≤ host.length ∧ r.serviceText host after = some (host.drop i)

/-- A NUL byte is behind the view, or nothing. -/
def Terminated (after : Bytes) : Prop := ∀ b ∈ after.head?, b = 0

/-- The hosts that are cut where they should be. -/
inductive Clear (after : Bytes) : Bytes → Prop
  | unclosed {t : Bytes} (ht : 93 ∉ t) : Clear after (91 :: t)
  | bracketed {X : Bytes} (hX : X ≠ []) (hclose : 93 ∉ X) (hnul : 0 ∉ X) : Clear after (91 :: (X ++ [93]))
  | bracketedService {X S : Bytes} (hX : X ≠ []) (hclose : 93 ∉ X) (hnul : 0 ∉ X) (hnul' : 0 ∉ S)
    (hafter : Terminated after) : Clear after (91 :: (X ++ 93 :: 58 :: S))
  | single {N S : Bytes} (hstart : ¬ StartsBracketed (N ++ 58 :: S)) (hN : 58 ∉ N) (hS : 58 ∉ S)
    (hnul : 0 ∉ N) (hnul' : 0 ∉ S) (hafter : Terminated after) : Clear after (N ++ 58 :: S)
  | whole {host : Bytes} (hstart : ¬ StartsBracketed host) (hcolon : 58 ∉ host) (hnul : 0 ∉ host) : Clear after host

/-! ## What the function finds -/

theorem memchr_of_drop {s a b : Bytes} {p n : Nat} {c : UInt8} (h : s.drop p = a ++ c :: b) (ha : c ∉ a)
    (hn : a.length < n) : memchr s p c n = some (p + a.length) := by
  have htake : (s.drop p).take n = a ++ c :: b.take (n - a.length - 1) := by
    obtain ⟨k, rfl⟩ : ∃ k, n = a.length + (k + 1) := ⟨n - a.length - 1, by omega⟩
    rw [h, List.take_length_add_append, List.take_succ_cons]
    congr 3
    omega
  have hnone : a.findIdx? (· == c) = none :=
    List.findIdx?_eq_none_iff.mpr fun b hb => beq_false_of_ne fun h => ha (h ▸ hb)
  rw [memchr, htake, List.findIdx?_append, hnone, List.findIdx?_cons]
  simp

theorem memchr_eq_none {s : Bytes} {p n : Nat} {c : UInt8} (h : c ∉ s.drop p) : memchr s p c n = none := by
  rw [memchr, Option.map_eq_none_iff, List.findIdx?_eq_none_iff]
  exact fun b hb => beq_false_of_ne fun hbc => h (hbc ▸ List.mem_of_mem_take hb)

namespace HostService

theorem checkIpv6_unclosed {t : Bytes} (ht : 93 ∉ t) : checkIpv6 (91 :: t) = none := by
  rw [checkIpv6, if_pos List.head?_cons, memchr_eq_none (by simpa using ht), Option.map_none]

/-- The service is behind the brackets if there is a colon. -/
theorem checkIpv6_closed {X R : Bytes} (hX : 93 ∉ X) :
    checkIpv6 (91 :: (X ++ 93 :: R)) =
      some { node := X, service := if R.head? = some 58 then some (X.length + 3) else none } := by
  have hfind : memchr (91 :: (X ++ 93 :: R)) 1 93 ((91 :: (X ++ 93 :: R) : Bytes).length - 1) =
      some (1 + X.length) :=
    memchr_of_drop (a := X) (b := R) rfl hX (by simp)
  have hnode : ((91 :: (X ++ 93 :: R) : Bytes).drop 1).take (1 + X.length - 1) = X := by simp
  have hnext : (91 :: (X ++ 93 :: R) : Bytes)[1 + X.length + 1]? = R.head? := by
    rw [Nat.add_comm 1, List.getElem?_cons_succ, List.getElem?_append_right (Nat.le_succ _),
      Nat.succ_sub (Nat.le_refl _), Nat.sub_self]
    simp [List.head?_eq_getElem?]
  have hlt : R.head? = some 58 → 1 + X.length + 1 < (91 :: (X ++ 93 :: R) : Bytes).length := fun h => by
    have := List.length_pos_of_mem (List.mem_of_mem_head? h)
    simp only [List.length_cons, List.length_append]
    omega
  rw [checkIpv6, if_pos List.head?_cons, hfind, Option.map_some, hnode, hnext]
  by_cases h : R.head? = some 58
  · rw [if_pos ⟨hlt h, h⟩, if_pos h]
    congr 3
    omega
  · rw [if_neg fun h' => h h'.2, if_neg h]

/-- Without brackets there is no node yet. -/
theorem checkIpv6_plain {host : Bytes} (h : ¬ StartsBracketed host) :
    ∃ r, checkIpv6 host = some r ∧ r.node = [] := by
  by_cases hhead : host.head? = some 91
  · obtain ⟨t, rfl⟩ := List.head?_eq_some_iff.mp hhead
    obtain ⟨X, R, hX, ht⟩ : ∃ X R, 93 ∉ X ∧ t = X ++ 93 :: R := by
      by_contra hcon
      refine h ⟨t, rfl, .inl fun hmem => ?_⟩
      obtain ⟨X, R, ht, hX⟩ := List.eq_append_cons_of_mem hmem
      exact hcon ⟨X, R, hX, ht⟩
    have hnil : X = [] := by
      by_contra hne
      exact h ⟨t, rfl, .inr ⟨X, R, ht, hne, hX⟩⟩
    exact ⟨_, ht ▸ checkIpv6_closed hX, hnil⟩
  · exact ⟨{}, if_neg hhead, rfl⟩

section

variable {N S : Bytes} {r : HostService} (hr : r.node = [])

include hr

theorem checkService_none {host : Bytes} (h : 58 ∉ host) : checkService host r = {} := by
  rw [checkService, if_pos hr, memchr_eq_none (by simpa using h)]
  exact HostService.mk.injEq .. ▸ ⟨hr, rfl⟩

theorem checkService_single (hN : 58 ∉ N) (hS : 58 ∉ S) :
    checkService (N ++ 58 :: S) r = { node := N, service := some (N.length + 1) } := by
  have hsecond : (N ++ 58 :: S).drop (N.length + 1) = S := by simp [← List.drop_drop]
  rw [checkService, if_pos hr, memchr_of_drop List.drop_zero hN (by simp), Nat.zero_add]
  dsimp only
  rw [memchr_eq_none (by rwa [hsecond]), List.take_left]

/-- There is a second colon: the service stays at the first. -/
theorem checkService_many (hN : 58 ∉ N) (hS : 58 ∈ S) :
    checkService (N ++ 58 :: S) r = { service := some N.length } := by
  obtain ⟨a, b, hab, ha⟩ := List.eq_append_cons_of_mem hS
  have hsecond : (N ++ 58 :: S).drop (N.length + 1) = a ++ 58 :: b := by simp [← List.drop_drop, hab]
  rw [checkService, if_pos hr, memchr_of_drop List.drop_zero hN (by simp), Nat.zero_add]
  dsimp only
  rw [memchr_of_drop hsecond ha (by simp [hab])]
  exact HostService.mk.injEq .. ▸ ⟨hr, rfl⟩

end

end HostService

open HostService

section

variable {X R N S host : Bytes}

theorem getAddrInfo_unclosed {t : Bytes} (ht : 93 ∉ t) : getAddrInfo (91 :: t) = none := by
  rw [getAddrInfo, checkIpv6_unclosed ht, Option.map_none]

theorem getAddrInfo_closed (hX : X ≠ []) (hclose : 93 ∉ X) :
    getAddrInfo (91 :: (X ++ 93 :: R)) =
      some { node := X, service := if R.head? = some 58 then some (X.length + 3) else none } := by
  rw [getAddrInfo, checkIpv6_closed hclose, Option.map_some, checkService, if_neg hX, checkNode, if_neg hX]

theorem getAddrInfo_none (hstart : ¬ StartsBracketed host) (hcolon : 58 ∉ host) :
    getAddrInfo host = some { node := host } := by
  obtain ⟨r, hcheck, hr⟩ := checkIpv6_plain hstart
  rw [getAddrInfo, hcheck, Option.map_some, checkService_none hr hcolon, checkNode, if_pos rfl]

theorem getAddrInfo_single (hstart : ¬ StartsBracketed (N ++ 58 :: S)) (hN : 58 ∉ N) (hS : 58 ∉ S) :
    getAddrInfo (N ++ 58 :: S) =
      some { node := if N = [] then N ++ 58 :: S else N, service := some (N.length + 1) } := by
  obtain ⟨r, hcheck, hr⟩ := checkIpv6_plain hstart
  rw [getAddrInfo, hcheck, Option.map_some, checkService_single hr hN hS, checkNode]
  split <;> rfl

theorem getAddrInfo_many (hstart : ¬ StartsBracketed (N ++ 58 :: S)) (hN : 58 ∉ N) (hS : 58 ∈ S) :
    getAddrInfo (N ++ 58 :: S) = some { node := N ++ 58 :: S, service := some N.length } := by
  obtain ⟨r, hcheck, hr⟩ := checkIpv6_plain hstart
  rw [getAddrInfo, hcheck, Option.map_some, checkService_many hr hN hS, checkNode, if_pos rfl]

end

/-! ## The texts -/

theorem cString_eq_self_iff {s : Bytes} : cString s = s ↔ 0 ∉ s := by
  rw [cString, List.takeWhile_eq_self_iff]
  exact ⟨fun h hmem => by simpa using h 0 hmem, fun h b hb => bne_iff_ne.mpr (ne_of_mem_of_not_mem hb h)⟩

/-- Bytes without a NUL are read through. -/
theorem cString_append {s : Bytes} (hs : 0 ∉ s) (after : Bytes) : cString (s ++ after) = s ++ cString after :=
  List.takeWhile_append_of_pos fun _ hb => bne_iff_ne.mpr (ne_of_mem_of_not_mem hb hs)

/-- A text ends with the view if the NUL byte is behind it. -/
theorem cString_append_iff {s after : Bytes} : cString (s ++ after) = s ↔ 0 ∉ s ∧ Terminated after := by
  constructor
  · intro h
    have hs : 0 ∉ s := fun hmem => by
      rw [← h] at hmem
      exact absurd (List.mem_takeWhile_imp hmem) (by decide)
    refine ⟨hs, fun b hb => ?_⟩
    by_contra hne
    obtain ⟨t, rfl⟩ := List.head?_eq_some_iff.mp hb
    rw [cString_append hs, cString, List.takeWhile_cons_of_pos (p := (· != 0)) (bne_iff_ne.mpr hne)] at h
    simp at h
  · rintro ⟨hs, hafter⟩
    have hnil : cString after = [] := by
      cases after with
      | nil => rfl
      | cons b t => exact List.takeWhile_cons_of_neg (by simp [hafter b rfl])
    rw [cString_append hs, hnil, List.append_nil]

/-- The place of the first separator is the only one. -/
theorem cut_unique {c : UInt8} {a a' b b' : Bytes} (ha : c ∉ a) (ha' : c ∉ a') (h : a ++ c :: b = a' ++ c :: b') :
    a = a' ∧ b = b' := by
  rcases List.append_eq_append_iff.mp h with ⟨m, rfl, hm⟩ | ⟨m, rfl, hm⟩
  · cases m with
    | nil => simpa using hm
    | cons x m =>
      obtain ⟨rfl, -⟩ := List.cons.inj hm
      simp at ha'
  · cases m with
    | nil => simpa [eq_comm] using hm
    | cons x m =>
      obtain ⟨rfl, -⟩ := List.cons.inj hm
      simp at ha

theorem serviceText_behind (p S after : Bytes) (node : Bytes) :
    serviceText (p ++ S) after { node, service := some p.length } = some (cString (S ++ after)) := by
  rw [serviceText, Option.map_some, List.append_assoc, List.drop_left]

/-! ## Hosts in brackets -/

section

variable {after X R S t : Bytes}

theorem inBrackets_unclosed (ht : 93 ∉ t) : InBrackets (91 :: t) := ⟨t, rfl, .inl ht⟩

theorem inBrackets_closed (hX : X ≠ []) (hclose : 93 ∉ X) (hR : R = [] ∨ ∃ S, R = 58 :: S) :
    InBrackets (91 :: (X ++ 93 :: R)) :=
  ⟨_, rfl, .inr ⟨X, R, rfl, hX, hclose, hR⟩⟩

/-- Anything else behind the brackets makes the host one without. -/
theorem not_inBrackets_of_junk (hclose : 93 ∉ X) (hR : R ≠ []) (hcolon : R.head? ≠ some 58) :
    ¬ InBrackets (91 :: (X ++ 93 :: R)) := by
  rintro ⟨t, heq, hcase⟩
  obtain rfl : X ++ 93 :: R = t := (List.cons.inj heq).2
  rcases hcase with ht | ⟨X', R', h, -, hX', hR'⟩
  · simp at ht
  · obtain ⟨-, rfl⟩ := cut_unique hclose hX' h
    rcases hR' with rfl | ⟨S, rfl⟩
    · exact hR rfl
    · exact hcolon rfl

theorem splits_unclosed (ht : 93 ∉ t) : Splits (91 :: t) after where
  bracketed X heq _ _ := by simp [(List.cons.inj heq).2] at ht
  bracketedService X S heq _ _ := by simp [(List.cons.inj heq).2] at ht
  single _ _ _ hin := absurd (inBrackets_unclosed ht) hin
  whole hin := absurd (inBrackets_unclosed ht) hin
  unclosed _ _ _ := getAddrInfo_unclosed ht
  inside r i hr := by rw [getAddrInfo_unclosed ht] at hr; cases hr

theorem passed_bracketed (hX : X ≠ []) (hclose : 93 ∉ X) :
    passed (91 :: (X ++ [93])) after = some (cString X, none) := by
  rw [passed, getAddrInfo_closed hX hclose]
  rfl

theorem passed_bracketedService (hX : X ≠ []) (hclose : 93 ∉ X) :
    passed (91 :: (X ++ 93 :: 58 :: S)) after = some (cString X, some (cString (S ++ after))) := by
  have hplace : 91 :: (X ++ 93 :: 58 :: S) = (91 :: (X ++ [93, 58])) ++ S := by simp
  have hlength : X.length + 3 = (91 :: (X ++ [93, 58]) : Bytes).length := by simp
  rw [passed, getAddrInfo_closed hX hclose, Option.map_some, List.head?_cons, if_pos rfl, hlength, hplace,
    serviceText_behind]

/-- Only the node is passed. -/
theorem passed_junk (hX : X ≠ []) (hclose : 93 ∉ X) (hcolon : R.head? ≠ some 58) :
    passed (91 :: (X ++ 93 :: R)) after = some (cString X, none) := by
  rw [passed, getAddrInfo_closed hX hclose, if_neg hcolon]
  rfl

theorem splits_bracketed_iff (hX : X ≠ []) (hclose : 93 ∉ X) : Splits (91 :: (X ++ [93])) after ↔ 0 ∉ X := by
  have hpassed : passed _ after = _ := passed_bracketed hX hclose
  have hin := inBrackets_closed hX hclose (.inl rfl)
  constructor
  · intro h
    have := h.bracketed X rfl hX hclose
    rw [hpassed] at this
    exact cString_eq_self_iff.mp (Prod.ext_iff.mp (Option.some.inj this)).1
  · intro hnul
    refine ⟨fun X' heq _ hX' => ?_, fun X' S heq _ hX' => ?_, fun _ _ _ h => absurd hin h, fun h => absurd hin h,
      fun t heq ht => ?_, fun r i hr hi => ?_⟩
    · obtain ⟨rfl, -⟩ := cut_unique hclose hX' (List.cons.inj heq).2
      rw [hpassed, cString_eq_self_iff.mpr hnul]
    · cases (cut_unique hclose hX' (List.cons.inj heq).2).2
    · simp [← (List.cons.inj heq).2] at ht
    · rw [getAddrInfo_closed hX hclose] at hr
      cases hr
      cases hi

theorem splits_bracketedService_iff (hX : X ≠ []) (hclose : 93 ∉ X) :
    Splits (91 :: (X ++ 93 :: 58 :: S)) after ↔ 0 ∉ X ∧ 0 ∉ S ∧ Terminated after := by
  have hpassed : passed (91 :: (X ++ 93 :: 58 :: S)) after = _ := passed_bracketedService hX hclose
  have hin := inBrackets_closed hX hclose (.inr ⟨S, rfl⟩)
  constructor
  · intro h
    have := h.bracketedService X S rfl hX hclose
    rw [hpassed] at this
    obtain ⟨hnode, hservice⟩ := Prod.ext_iff.mp (Option.some.inj this)
    exact ⟨cString_eq_self_iff.mp hnode, cString_append_iff.mp (Option.some.inj hservice)⟩
  · rintro ⟨hnul, hS⟩
    have hservice := cString_append_iff.mpr hS
    refine ⟨fun X' heq _ hX' => ?_, fun X' S' heq _ hX' => ?_, fun _ _ _ h => absurd hin h, fun h => absurd hin h,
      fun t heq ht => ?_, fun r i hr hi => ?_⟩
    · cases (cut_unique hclose hX' (List.cons.inj heq).2).2
    · obtain ⟨rfl, hS'⟩ := cut_unique hclose hX' (List.cons.inj heq).2
      obtain rfl : S = S' := (List.cons.inj hS').2
      rw [hpassed, hservice, cString_eq_self_iff.mpr hnul]
    · simp [← (List.cons.inj heq).2] at ht
    · rw [getAddrInfo_closed hX hclose, List.head?_cons, if_pos rfl] at hr
      cases hr
      cases hi
      have hplace : 91 :: (X ++ 93 :: 58 :: S) = (91 :: (X ++ [93, 58])) ++ S := by simp
      have hlength : X.length + 3 = (91 :: (X ++ [93, 58]) : Bytes).length := by simp
      rw [hlength, hplace, serviceText_behind, List.drop_left, hservice]
      exact ⟨by simp, rfl⟩

end

/-! ## Hosts without brackets -/

section

variable {after X R N S host : Bytes}

/-- No colon, one, or more. -/
theorem colons (host : Bytes) :
    58 ∉ host ∨ (∃ N S, host = N ++ 58 :: S ∧ 58 ∉ N ∧ 58 ∉ S) ∨
      ∃ N S, host = N ++ 58 :: S ∧ 58 ∉ N ∧ 58 ∈ S := by
  by_cases h : 58 ∈ host
  · obtain ⟨N, S, rfl, hN⟩ := List.eq_append_cons_of_mem h
    by_cases hS : 58 ∈ S
    · exact .inr (.inr ⟨N, S, rfl, hN, hS⟩)
    · exact .inr (.inl ⟨N, S, rfl, hN, hS⟩)
  · exact .inl h

theorem two_le_count (hS : 58 ∈ S) : 2 ≤ (N ++ 58 :: S).count 58 := by
  have := List.count_pos_iff.mpr hS
  rw [List.count_append, List.count_cons_self]
  omega

theorem InBrackets.startsBracketed (h : InBrackets host) : StartsBracketed host := by
  obtain ⟨t, rfl, ht | ⟨X, R, rfl, hX, hclose, -⟩⟩ := h
  · exact ⟨t, rfl, .inl ht⟩
  · exact ⟨_, rfl, .inr ⟨X, R, rfl, hX, hclose⟩⟩

/-- What is behind the brackets is lost. -/
theorem not_splits_junk (hX : X ≠ []) (hclose : 93 ∉ X) (hR : R ≠ []) (hcolon : R.head? ≠ some 58) :
    ¬ Splits (91 :: (X ++ 93 :: R)) after := by
  intro h
  have hpassed : passed _ after = _ := passed_junk hX hclose hcolon
  have hin := not_inBrackets_of_junk hclose hR hcolon
  have hwhole : ¬ (58 ∉ (91 :: (X ++ 93 :: R) : Bytes) ∨ 2 ≤ (91 :: (X ++ 93 :: R) : Bytes).count 58) := by
    intro hcount
    have heq := h.whole hin hcount
    rw [hpassed] at heq
    have hnode : cString X = 91 :: (X ++ 93 :: R) := (Prod.ext_iff.mp (Option.some.inj heq)).1
    have hle : (cString X).length ≤ X.length := (List.takeWhile_sublist _).length_le
    rw [hnode, List.length_cons, List.length_append] at hle
    omega
  rcases colons (91 :: (X ++ 93 :: R)) with hnone | ⟨N, S, heq, hN, hS⟩ | ⟨N, S, heq, -, hS⟩
  · exact hwhole (.inl hnone)
  · have hne : N ≠ [] := by
      rintro rfl
      exact absurd (List.cons.inj heq).1 (by decide)
    have := h.single N S heq hin hne hN hS
    rw [hpassed] at this
    cases (Prod.ext_iff.mp (Option.some.inj this)).2
  · exact hwhole (.inr (heq ▸ two_le_count hS))

theorem splits_none_iff (hstart : ¬ StartsBracketed host) (hcolon : 58 ∉ host) : Splits host after ↔ 0 ∉ host := by
  have hpassed : passed host after = some (cString host, none) := by
    rw [passed, getAddrInfo_none hstart hcolon]
    rfl
  have hin : ¬ InBrackets host := fun h => hstart h.startsBracketed
  constructor
  · intro h
    have := h.whole hin (.inl hcolon)
    rw [hpassed] at this
    exact cString_eq_self_iff.mp (Prod.ext_iff.mp (Option.some.inj this)).1
  · intro hnul
    refine ⟨fun X heq hX hclose => ?_, fun X S heq hX hclose => ?_, fun N S heq => ?_, fun _ _ => ?_,
      fun t heq ht => ?_, fun r i hr hi => ?_⟩
    · exact absurd (heq ▸ inBrackets_closed hX hclose (.inl rfl)) hin
    · exact absurd (heq ▸ inBrackets_closed hX hclose (.inr ⟨S, rfl⟩)) hin
    · simp [heq] at hcolon
    · rw [hpassed, cString_eq_self_iff.mpr hnul]
    · exact absurd (heq ▸ inBrackets_unclosed ht) hin
    · rw [getAddrInfo_none hstart hcolon] at hr
      cases hr
      cases hi

theorem splits_single_iff (hstart : ¬ StartsBracketed (N ++ 58 :: S)) (hN : 58 ∉ N) (hS : 58 ∉ S) :
    Splits (N ++ 58 :: S) after ↔ 0 ∉ N ∧ 0 ∉ S ∧ Terminated after := by
  have hcall := getAddrInfo_single hstart hN hS
  have hservice : ∀ node, serviceText (N ++ 58 :: S) after { node, service := some (N.length + 1) } =
      some (cString (S ++ after)) := fun node => by
    have hplace : N ++ 58 :: S = (N ++ [58]) ++ S := by simp
    have hlength : N.length + 1 = (N ++ [58]).length := by simp
    rw [hlength, hplace, serviceText_behind]
  have hin : ¬ InBrackets (N ++ 58 :: S) := fun h => hstart h.startsBracketed
  have hdrop : (N ++ 58 :: S).drop (N.length + 1) = S := by simp [← List.drop_drop]
  have hcount : ¬ (58 ∉ N ++ 58 :: S ∨ 2 ≤ (N ++ 58 :: S).count 58) := by
    rw [List.count_append, List.count_cons_self, List.count_eq_zero.mpr hN, List.count_eq_zero.mpr hS]
    simp
  constructor
  · intro h
    obtain ⟨-, htext⟩ := h.inside _ _ hcall rfl
    rw [hservice, hdrop] at htext
    refine ⟨?_, cString_append_iff.mp (Option.some.inj htext)⟩
    by_cases hne : N = []
    · simp [hne]
    · have := h.single N S rfl hin hne hN hS
      rw [passed, hcall, if_neg hne] at this
      exact cString_eq_self_iff.mp (Prod.ext_iff.mp (Option.some.inj this)).1
  · rintro ⟨hnul, hafter⟩
    have htext := cString_append_iff.mpr hafter
    refine ⟨fun X heq hX hclose => ?_, fun X S heq hX hclose => ?_, fun N' S' heq _ hne hN' _ => ?_,
      fun _ h => absurd h hcount, fun t heq ht => ?_, fun r i hr hi => ?_⟩
    · exact absurd (heq ▸ inBrackets_closed hX hclose (.inl rfl)) hin
    · exact absurd (heq ▸ inBrackets_closed hX hclose (.inr ⟨S, rfl⟩)) hin
    · obtain ⟨rfl, rfl⟩ := cut_unique hN hN' heq
      rw [passed, hcall, if_neg hne, Option.map_some, hservice, htext, cString_eq_self_iff.mpr hnul]
    · exact absurd (heq ▸ inBrackets_unclosed ht) hin
    · rw [hcall] at hr
      cases hr
      cases hi
      rw [hservice, hdrop, htext]
      exact ⟨by simp, rfl⟩

/-- The service stays at the first of several colons. -/
theorem not_splits_many (hstart : ¬ StartsBracketed (N ++ 58 :: S)) (hN : 58 ∉ N) (hS : 58 ∈ S) :
    ¬ Splits (N ++ 58 :: S) after := by
  intro h
  have := h.whole (fun hin => hstart hin.startsBracketed) (.inr (two_le_count hS))
  rw [passed, getAddrInfo_many hstart hN hS] at this
  cases (Prod.ext_iff.mp (Option.some.inj this)).2

end

/-- **A host is cut into its node and its service if it is clear.** -/
theorem splits_iff (host after : Bytes) : Splits host after ↔ Clear after host := by
  constructor
  · intro h
    by_cases hstart : StartsBracketed host
    · obtain ⟨t, rfl, ht | ⟨X, R, rfl, hX, hclose⟩⟩ := hstart
      · exact .unclosed ht
      · by_cases hR : R = []
        · subst hR
          exact .bracketed hX hclose ((splits_bracketed_iff hX hclose).mp h)
        · by_cases hcolon : R.head? = some 58
          · obtain ⟨S, rfl⟩ := List.head?_eq_some_iff.mp hcolon
            obtain ⟨hnul, hnul', hafter⟩ := (splits_bracketedService_iff hX hclose).mp h
            exact .bracketedService hX hclose hnul hnul' hafter
          · exact absurd h (not_splits_junk hX hclose hR hcolon)
    · rcases colons host with hcolon | ⟨N, S, rfl, hN, hS⟩ | ⟨N, S, rfl, hN, hS⟩
      · exact .whole hstart hcolon ((splits_none_iff hstart hcolon).mp h)
      · obtain ⟨hnul, hnul', hafter⟩ := (splits_single_iff hstart hN hS).mp h
        exact .single hstart hN hS hnul hnul' hafter
      · exact absurd h (not_splits_many hstart hN hS)
  · intro h
    cases h with
    | unclosed ht => exact splits_unclosed ht
    | bracketed hX hclose hnul => exact (splits_bracketed_iff hX hclose).mpr hnul
    | bracketedService hX hclose hnul hnul' hafter =>
      exact (splits_bracketedService_iff hX hclose).mpr ⟨hnul, hnul', hafter⟩
    | single hstart hN hS hnul hnul' hafter => exact (splits_single_iff hstart hN hS).mpr ⟨hnul, hnul', hafter⟩
    | whole hstart hcolon hnul => exact (splits_none_iff hstart hcolon).mpr hnul

/-- An address without brackets has a service. -/
theorem not_splits_linkLocal : ¬ Splits (ascii "fe80::1") [] := by
  have hstart : ¬ StartsBracketed (ascii "fe80::1") := by
    rintro ⟨t, heq, -⟩
    exact absurd (List.cons.inj heq).1 (by decide)
  exact not_splits_many (N := ascii "fe80") (S := ascii ":1") hstart (by decide) (by decide)

end Nemo.Net
