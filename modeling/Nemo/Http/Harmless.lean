import Nemo.Http.Filling
import Nemo.Http.Seen
import Nemo.Http.TokenOrder
import Nemo.Http.Version

/-!
# Cuts that change nothing

`Harmless` says where the reads may cut a request head so that the callbacks still make the same
request of it. `fill_iff` : the condition is exact.
-/

namespace Nemo.Http

open Infra

/-! ## What the callbacks write of a token -/

section Written

variable {reads : List Bytes} {text : Bytes}

/-- A callback for the element `e` is made for a token of the place of `e`. -/
theorem place_of_seen {cuts : Cuts} {t : Token Element} {e : Element} {s : Bytes} {n : Nat}
    (h : t.seen cuts = .element e s n) : t.place = e.place := by
  cases t with
  | field => cases h
  | _ =>
    simp only [Token.seen, element, Report.element.injEq] at h
    rw [← h.1]
    rfl

theorem methodOf_seen {i p : Nat} (hat : (Cuts.of reads).At text p) (hi : i ≤ p) :
    methodOf ((Token.element .requestMethod i p).seen (Cuts.of reads))
      = some (string2HttpMethod (slice text (max i ((Cuts.of reads).base p)) p)) := by
  simp only [Token.seen, element, methodOf, stringArg_element hat hi, Option.map_some]

theorem textOf_seen {e : Element} {i p : Nat} (hat : (Cuts.of reads).At text p) (hi : i ≤ p) :
    textOf e ((Token.element e i p).seen (Cuts.of reads))
      = some (slice text (max i ((Cuts.of reads).base p)) p) := by
  simp only [Token.seen, element, textOf, if_true, stringArg_element hat hi]

theorem textOf_seen_kept {e : Element} {i p : Nat} :
    textOf e ((Token.kept e i p).seen (Cuts.of reads)) = keptSeen (Cuts.of reads) i p := by
  simp only [Token.seen, element, textOf, if_true, keptSeen]

theorem fieldOf_seen {t : Token Element} (ht : t.Within text.length)
    (hat : ∀ p < text.length, (Cuts.of reads).At text p) :
    fieldOf (t.seen (Cuts.of reads)) = t.fieldSeen (Cuts.of reads) text := by
  cases t with
  | field i colon value p =>
    obtain ⟨hc, hv, hp⟩ := ht
    have hatp := hat p hp
    simp only [Token.seen, fieldOf, Token.fieldSeen]
    by_cases hle : colon ≤ max i ((Cuts.of reads).base p)
    · have h0 : colon - (Cuts.of reads).base p - (i - (Cuts.of reads).base p) = 0 := by omega
      rw [if_pos h0, if_pos hle]
    · have h0 : colon - (Cuts.of reads).base p - (i - (Cuts.of reads).base p) ≠ 0 := by omega
      rw [if_neg h0, if_neg hle, stringArg_name hatp hc hle, stringArg_element hatp hv]
      rfl
  | _ => rfl

/-- The text of a version from its start on, and the byte behind it. -/
theorem drop_eq_slice {i p : Nat} (hat : (Cuts.of reads).At text p) (hp : p < text.length)
    (hi : i ≤ p) :
    ∃ m, ((Cuts.of reads).buffer p).drop (i - (Cuts.of reads).base p)
      = slice text (max i ((Cuts.of reads).base p)) p ++ text[p] :: m := by
  have hlt := hat.lt
  have hle := hat.base_le
  have hslice := hat.slice_eq i (p + 1) (by omega)
  have hsnoc : slice text (max i ((Cuts.of reads).base p)) (p + 1)
      = slice text (max i ((Cuts.of reads).base p)) p ++ [text[p]] := by
    have hsub : p + 1 - max i ((Cuts.of reads).base p)
        = p - max i ((Cuts.of reads).base p) + 1 := by omega
    have hget : (text.drop (max i ((Cuts.of reads).base p)))[p - max i ((Cuts.of reads).base p)]?
        = some text[p] := by
      rw [List.getElem?_drop, Nat.add_sub_cancel' (by omega), List.getElem?_eq_getElem hp]
    rw [slice, slice, hsub, List.take_add_one, hget, Option.toList_some]
  have hcut : ((Cuts.of reads).buffer p).drop (i - (Cuts.of reads).base p)
      = slice ((Cuts.of reads).buffer p) (i - (Cuts.of reads).base p)
            (p + 1 - (Cuts.of reads).base p) ++
          (((Cuts.of reads).buffer p).drop (i - (Cuts.of reads).base p)).drop
            (p + 1 - (Cuts.of reads).base p - (i - (Cuts.of reads).base p)) :=
    (List.take_append_drop _ _).symm
  rw [hslice, hsnoc, List.append_assoc] at hcut
  exact ⟨_, hcut⟩

/-- What is seen of a version is accepted if it is all of it, or nothing but its last digit. -/
theorem versionOf_seen {i p : Nat} {version : HttpVersion} (htext : reads.flatten = text)
    (hp : p < text.length) (hi : i + 8 = p) (hend : text[p] = 10 ∨ text[p] = 13 ∨ text[p] = 32)
    (hwhole : versionOf (((Cuts.of [text]).buffer p).drop (i - (Cuts.of [text]).base p))
      (len (i - (Cuts.of [text]).base p) (p - (Cuts.of [text]).base p)) = some version) :
    versionOf (((Cuts.of reads).buffer p).drop (i - (Cuts.of reads).base p))
        (len (i - (Cuts.of reads).base p) (p - (Cuts.of reads).base p))
      = if (Cuts.of reads).base p ≤ i ∨ (Cuts.of reads).base p + 1 = p then some version
        else none := by
  have hwholeAt : (Cuts.of [text]).At text p := Cuts.at_of (by simp) hp
  have hbase0 : (Cuts.of [text]).base p = 0 := by
    have := (Cuts.covers_of [] text [] p hp).1
    simpa using this
  have hat := Cuts.at_of htext hp
  have hle := hat.base_le
  obtain ⟨m, hm⟩ := drop_eq_slice hwholeAt hp (i := i) (by omega)
  obtain ⟨m', hm'⟩ := drop_eq_slice hat hp (i := i) (by omega)
  have h8 : len i p = 8 := by
    rw [len_of_le (by omega)]
    omega
  rw [hm, hbase0, Nat.max_zero, Nat.sub_zero, Nat.sub_zero, h8] at hwhole
  -- what is seen is the version without its first `k` bytes
  obtain ⟨k, hk⟩ : ∃ k, max i ((Cuts.of reads).base p) = i + k :=
    ⟨max i ((Cuts.of reads).base p) - i, by omega⟩
  have hdrop : slice text (i + k) p = (slice text i p).drop k := by
    rw [slice, slice, List.drop_take, List.drop_drop, Nat.sub_add_eq]
  have hlen' : len (i - (Cuts.of reads).base p) (p - (Cuts.of reads).base p) = 8 - k := by
    rw [len_of_le (by omega)]
    omega
  rw [hm', hlen', hk, hdrop, versionOf_drop (by rw [length_slice (by omega)]; omega)
    hend hwhole (by omega)]
  have hiff : (k = 0 ∨ k = 7) ↔
      ((Cuts.of reads).base p ≤ i ∨ (Cuts.of reads).base p + 1 = p) := by omega
  simp only [hiff]

/-- The version that is written: all of it is seen, or nothing but its last digit. -/
theorem versionWritten_seen {i p : Nat} {version : HttpVersion} (htext : reads.flatten = text)
    (hp : p < text.length) (hi : i + 8 = p) (hend : text[p] = 10 ∨ text[p] = 13)
    (hwhole : versionWritten ((Token.element .httpVersion i p).seen (Cuts.of [text]))
      = some version) :
    versionWritten ((Token.element .httpVersion i p).seen (Cuts.of reads))
      = if (Cuts.of reads).base p ≤ i ∨ (Cuts.of reads).base p + 1 = p then some version
        else none := versionOf_seen htext hp hi (hend.imp_right .inl) hwhole

end Written

/-! ## Harmless cuts -/

/-- The tokens of a text. -/
def tokens (uriRelaxed : Bool) (text : Bytes) : List (Token Element) := (scan uriRelaxed text).acc.2

/-- The header lines of a text, as far as they are seen when the reads cut it. -/
def headerLines (cuts : Cuts) (text : Bytes) (ts : List (Token Element)) : List (Bytes × Bytes) :=
  ts.filterMap (Token.fieldSeen cuts text)

/--
The cuts of the reads make no difference:

* what is left of the method means the same method
* of the version no byte is cut off, or all but the last
* no read ends in the path, in the query or in the fragment
* of every header name, what is left of the header lines has the same first spelling and the same
  last value
-/
structure Harmless (uriRelaxed : Bool) (reads : List Bytes) : Prop where
  method : ∀ i fpc, .element .requestMethod i fpc ∈ tokens uriRelaxed reads.flatten →
    string2HttpMethod (slice reads.flatten (max i ((Cuts.of reads).base fpc)) fpc)
      = string2HttpMethod (slice reads.flatten i fpc)
  version : ∀ i fpc, .element .httpVersion i fpc ∈ tokens uriRelaxed reads.flatten →
    (Cuts.of reads).base fpc ≤ i ∨ (Cuts.of reads).base fpc + 1 = fpc
  path : ∀ e ∈ [Element.requestPath, .fragment], ∀ i fpc,
    .element e i fpc ∈ tokens uriRelaxed reads.flatten → (Cuts.of reads).base fpc ≤ i
  query : ∀ i fpc, .kept .queryString i fpc ∈ tokens uriRelaxed reads.flatten →
    (Cuts.of reads).base fpc ≤ i
  headers : ∀ name,
    headerOf name (headerLines (Cuts.of reads) reads.flatten (tokens uriRelaxed reads.flatten))
      = headerOf name
          (headerLines (Cuts.of [reads.flatten]) reads.flatten (tokens uriRelaxed reads.flatten))

/-! ## The request of the callbacks -/

/-- The last of the values of a list, when only one member has a value. -/
theorem getLast?_filterMap {α β : Type} {w : α → Option β} {ts : List α} {t : α} (ht : t ∈ ts)
    (hone : ∀ t' ∈ ts, w t' ≠ none → t' = t) : (ts.filterMap w).getLast? = w t := by
  cases hw : w t with
  | none =>
    have hnil : ts.filterMap w = [] := by
      rw [List.filterMap_eq_nil_iff]
      intro t' ht'
      by_contra hne
      rw [hone t' ht' hne] at hne
      exact hne hw
    rw [hnil]
    rfl
  | some x =>
    have hall : ∀ y ∈ ts.filterMap w, y = x := by
      intro y hy
      obtain ⟨t', ht', hwt'⟩ := List.mem_filterMap.mp hy
      have heq := hone t' ht' (by rw [hwt']; nofun)
      rw [heq, hw, Option.some.injEq] at hwt'
      exact hwt'.symm
    have hne : ts.filterMap w ≠ [] := List.ne_nil_of_mem (List.mem_filterMap.mpr ⟨t, ht, hw⟩)
    rw [List.getLast?_eq_getLast_of_ne_nil hne, hall _ (List.getLast_mem hne)]

section Fill

variable {reads : List Bytes} {text : Bytes} {ts : List (Token Element)}

/-- A callback for the element `e` writes the only token of its place. -/
theorem getLast?_seen {γ : Type} {cuts : Cuts} {w : Report Element → Option γ} {e : Element}
    (hw : ∀ r, w r ≠ none → ∃ s n, r = .element e s n) (htokens : Tokens text ts)
    (he : e.place ≠ 6) {t : Token Element} (ht : t ∈ ts) (hplace : t.place = e.place) :
    ((ts.map (Token.seen cuts)).filterMap w).getLast? = w (t.seen cuts) := by
  rw [List.filterMap_map]
  refine getLast?_filterMap (w := w ∘ Token.seen cuts) ht fun t' ht' hne => ?_
  obtain ⟨s, n, hseen⟩ := hw _ hne
  have hplace' := place_of_seen hseen
  exact htokens.unique t' ht' t ht (hplace'.trans hplace.symm) (by rw [hplace']; exact he)

theorem element_of_methodOf (r : Report Element) (h : methodOf r ≠ none) :
    ∃ s n, r = .element .requestMethod s n := by
  cases r with
  | field => exact absurd rfl h
  | element e s n =>
    cases e with
    | requestMethod => exact ⟨s, n, rfl⟩
    | _ => exact absurd rfl h

theorem element_of_textOf (e : Element) (r : Report Element) (h : textOf e r ≠ none) :
    ∃ s n, r = .element e s n := by
  cases r with
  | field => exact absurd rfl h
  | element e' s n =>
    simp only [textOf] at h
    split at h
    · next heq => exact ⟨s, n, by rw [heq]⟩
    · exact absurd rfl h

theorem headerLines_eq (htext : reads.flatten = text) (htokens : Tokens text ts) :
    (ts.map (Token.seen (Cuts.of reads))).filterMap fieldOf
      = headerLines (Cuts.of reads) text ts := by
  rw [List.filterMap_map]
  refine List.filterMap_congr fun t ht => ?_
  exact fieldOf_seen (htokens.within t ht) fun p hp => Cuts.at_of htext hp

/-- A single read is seen whole. -/
theorem base_whole {p : Nat} (hp : p < text.length) : (Cuts.of [text]).base p = 0 := by
  have := (Cuts.covers_of [] text [] p hp).1
  simpa using this

/-- The callbacks of these reads and of a single read make the same request. -/
def SameRequest (reads : List Bytes) (text : Bytes) (ts : List (Token Element)) : Prop :=
  (∀ r ∈ ts.map (Token.seen (Cuts.of reads)), accepts r = true) ∧
    fillAll (ts.map (Token.seen (Cuts.of reads))) {}
      = fillAll (ts.map (Token.seen (Cuts.of [text]))) {}

/-- What is written of a token is the same if the cuts of the reads make no difference. -/
theorem seen_of_harmless {u : Bool} (hsize : reads.flatten.length < 2 ^ 63)
    (htokens : Tokens reads.flatten (tokens u reads.flatten))
    (hwhole : ∀ r ∈ (tokens u reads.flatten).map (Token.seen (Cuts.of [reads.flatten])),
      accepts r = true)
    (h : Harmless u reads) {t : Token Element} (ht : t ∈ tokens u reads.flatten) :
    accepts (t.seen (Cuts.of reads)) = true ∧
      methodOf (t.seen (Cuts.of reads)) = methodOf (t.seen (Cuts.of [reads.flatten])) ∧
      versionWritten (t.seen (Cuts.of reads))
        = versionWritten (t.seen (Cuts.of [reads.flatten])) ∧
      ∀ e ∈ [Element.requestPath, .queryString, .fragment],
        textOf e (t.seen (Cuts.of reads)) = textOf e (t.seen (Cuts.of [reads.flatten])) := by
  have hin := htokens.within t ht
  have hacc := hwhole _ (List.mem_map.mpr ⟨t, ht, rfl⟩)
  have hat : ∀ p < reads.flatten.length, (Cuts.of reads).At reads.flatten p :=
    fun p hp => Cuts.at_of rfl hp
  have hwat : ∀ p < reads.flatten.length, (Cuts.of [reads.flatten]).At reads.flatten p :=
    fun p hp => Cuts.at_of (by simp) hp
  cases t with
  | field i colon value p =>
    refine ⟨?_, rfl, rfl, fun e _ => rfl⟩
    obtain ⟨hc, hv, hp⟩ := hin
    simp only [Token.seen, accepts, Bool.or_eq_true, beq_iff_eq]
    by_cases hle : colon ≤ max i ((Cuts.of reads).base p)
    · exact .inl (by omega)
    · rw [stringArg_name (hat p hp) hc hle, stringArg_element (hat p hp) hv]
      exact .inr rfl
  | done e p =>
    obtain ⟨rfl, -⟩ := hin
    refine ⟨rfl, rfl, rfl, fun e he => ?_⟩
    have hne : Element.headerDone ≠ e := by
      rintro rfl
      simp at he
    simp [Token.seen, textOf, hne]
  | kept e i p =>
    obtain ⟨rfl, hi, hp⟩ := hin
    have hseen := (keptSeen_iff rfl hsize hi hp).mpr (h.query i p ht)
    have hwseen : keptSeen (Cuts.of [reads.flatten]) i p = some (slice reads.flatten i p) :=
      (keptSeen_iff (by simp) hsize hi hp).mpr (by rw [base_whole hp]; exact Nat.zero_le i)
    refine ⟨?_, rfl, rfl, fun e he => ?_⟩
    · have hsome : (keptSeen (Cuts.of reads) i p).isSome = true := by rw [hseen]; rfl
      exact hsome
    · by_cases heq : e = .queryString
      · subst heq
        rw [textOf_seen_kept, textOf_seen_kept, hseen, hwseen]
      · simp [Token.seen, element, textOf, Ne.symm heq]
  | element e i p =>
    obtain ⟨hnq, hnd, hi, hp⟩ := hin
    have hstring := stringArg_element (hat p hp) hi
    cases e with
    | queryString => exact absurd rfl hnq
    | headerDone => exact absurd rfl hnd
    | requestUri =>
      refine ⟨rfl, rfl, rfl, fun e he => ?_⟩
      have hne : Element.requestUri ≠ e := by
        rintro rfl
        simp at he
      simp [Token.seen, element, textOf, hne]
    | requestMethod =>
      have hsame := h.method i p ht
      have hmethod := methodOf_seen (hat p hp) hi
      have hwmethod := methodOf_seen (hwat p hp) hi
      rw [base_whole hp, Nat.max_zero] at hwmethod
      refine ⟨?_, by rw [hmethod, hwmethod, hsame], rfl, fun e he => ?_⟩
      · have hwstring := stringArg_element (hwat p hp) hi
        rw [base_whole hp, Nat.max_zero] at hwstring
        simp only [Token.seen, element, accepts, base_whole hp, hwstring] at hacc
        simp only [Token.seen, element, accepts, hstring, hsame]
        exact hacc
      · have hne : Element.requestMethod ≠ e := by
          rintro rfl
          simp at he
        simp [Token.seen, element, textOf, hne]
    | httpVersion =>
      obtain ⟨h8, hend⟩ := htokens.version i p ht
      have hend' : reads.flatten[p] = 10 ∨ reads.flatten[p] = 13 := by
        rw [List.getElem?_eq_getElem hp, Option.some.injEq, Option.some.injEq] at hend
        exact hend
      obtain ⟨version, hversion⟩ : ∃ version,
          versionWritten ((Token.element .httpVersion i p).seen (Cuts.of [reads.flatten]))
            = some version := Option.isSome_iff_exists.mp hacc
      have hseen := versionWritten_seen (show reads.flatten = _ from rfl) hp h8 hend' hversion
      rw [if_pos (h.version i p ht)] at hseen
      refine ⟨?_, rfl, by rw [hseen, hversion], fun e he => ?_⟩
      · have hsome : (versionWritten ((Token.element .httpVersion i p).seen (Cuts.of reads))).isSome
            = true := by rw [hseen]; rfl
        exact hsome
      · have hne : Element.httpVersion ≠ e := by
          rintro rfl
          simp at he
        simp [Token.seen, element, textOf, hne]
    | fragment | requestPath =>
      refine ⟨?_, rfl, rfl, fun e he => ?_⟩
      · simp only [Token.seen, element, accepts, hstring]
        rfl
      · have hbase := h.path _ (by simp) i p ht
        simp only [Token.seen, element, textOf]
        split
        · rw [hstring, stringArg_element (hwat p hp) hi, base_whole hp, Nat.max_eq_left hbase,
            Nat.max_zero]
        · rfl

/-- **Harmless cuts are the cuts that make no difference** to the request that the callbacks make. -/
theorem sameRequest_iff {u : Bool} (hsize : reads.flatten.length < 2 ^ 63)
    (htokens : Tokens reads.flatten (tokens u reads.flatten))
    (hwhole : ∀ r ∈ (tokens u reads.flatten).map (Token.seen (Cuts.of [reads.flatten])),
      accepts r = true) :
    SameRequest reads reads.flatten (tokens u reads.flatten) ↔ Harmless u reads := by
  have hat : ∀ p < reads.flatten.length, (Cuts.of reads).At reads.flatten p :=
    fun p hp => Cuts.at_of rfl hp
  have hwat : ∀ p < reads.flatten.length, (Cuts.of [reads.flatten]).At reads.flatten p :=
    fun p hp => Cuts.at_of (by simp) hp
  constructor
  · rintro ⟨hacc, hfill⟩
    have hmember : ∀ {γ : Type} {π : HttpRequest → γ} {w : Report Element → Option γ} {e : Element}
        {t : Token Element}, (∀ r q, π (fill r q) = (w r).getD (π q)) →
        (∀ r, w r ≠ none → ∃ s n, r = .element e s n) → e.place ≠ 6 →
        t ∈ tokens u reads.flatten → t.place = e.place →
        (w (t.seen (Cuts.of reads))).getD (π {})
          = (w (t.seen (Cuts.of [reads.flatten]))).getD (π {}) := by
      intro γ π w e t hπ hw he ht hplace
      have heq := congrArg π hfill
      rwa [fillAll_last hπ, fillAll_last hπ, getLast?_seen hw htokens he ht hplace,
        getLast?_seen hw htokens he ht hplace] at heq
    refine ⟨?_, ?_, ?_, ?_, ?_⟩
    · intro i p ht
      obtain ⟨-, -, hi, hp⟩ := htokens.within _ ht
      have heq := hmember (π := HttpRequest.method) (w := methodOf) (fun _ _ => rfl)
        element_of_methodOf (by decide) ht rfl
      rw [methodOf_seen (hat p hp) hi, methodOf_seen (hwat p hp) hi, base_whole hp,
        Nat.max_zero] at heq
      exact heq
    · -- a version that is cut in its middle is an error
      intro i p ht
      obtain ⟨-, -, hi, hp⟩ := htokens.within _ ht
      obtain ⟨h8, hend⟩ := htokens.version i p ht
      rw [List.getElem?_eq_getElem hp, Option.some.injEq, Option.some.injEq] at hend
      obtain ⟨version, hversion⟩ : ∃ version,
          versionWritten ((Token.element .httpVersion i p).seen (Cuts.of [reads.flatten]))
            = some version :=
        Option.isSome_iff_exists.mp (hwhole _ (List.mem_map.mpr ⟨_, ht, rfl⟩))
      have hseen := versionWritten_seen (show reads.flatten = _ from rfl) hp h8 hend hversion
      have hsome : (versionWritten ((Token.element .httpVersion i p).seen (Cuts.of reads))).isSome
          = true := hacc _ (List.mem_map.mpr ⟨_, ht, rfl⟩)
      rw [hseen] at hsome
      split at hsome
      · assumption
      · cases hsome
    · intro e he i p ht
      obtain ⟨-, -, hi, hp⟩ := htokens.within _ ht
      have heq : slice reads.flatten (max i ((Cuts.of reads).base p)) p
          = slice reads.flatten i p := by
        simp only [List.mem_cons, List.not_mem_nil, or_false] at he
        rcases he with rfl | rfl
        · have heq := hmember (π := HttpRequest.path) (fun _ _ => rfl)
            (element_of_textOf .requestPath) (by decide) ht rfl
          rwa [textOf_seen (hat p hp) hi, textOf_seen (hwat p hp) hi, base_whole hp,
            Nat.max_zero] at heq
        · have heq := hmember (π := HttpRequest.fragment) (fun _ _ => rfl)
            (element_of_textOf .fragment) (by decide) ht rfl
          rwa [textOf_seen (hat p hp) hi, textOf_seen (hwat p hp) hi, base_whole hp,
            Nat.max_zero] at heq
      exact (slice_max_iff (Nat.le_of_lt hp) hi (hat p hp).base_le).mp heq
    · intro i p ht
      obtain ⟨-, hi, hp⟩ := htokens.within _ ht
      have heq := hmember (π := HttpRequest.query) (fun _ _ => rfl)
        (element_of_textOf .queryString) (by decide) ht rfl
      have hwseen : keptSeen (Cuts.of [reads.flatten]) i p = some (slice reads.flatten i p) :=
        (keptSeen_iff (by simp) hsize hi hp).mpr (by rw [base_whole hp]; exact Nat.zero_le i)
      have hsome : (keptSeen (Cuts.of reads) i p).isSome = true :=
        hacc _ (List.mem_map.mpr ⟨_, ht, rfl⟩)
      obtain ⟨s, hs⟩ := Option.isSome_iff_exists.mp hsome
      rw [textOf_seen_kept, textOf_seen_kept, hwseen, hs, Option.getD_some, Option.getD_some] at heq
      rw [← keptSeen_iff rfl hsize hi hp, hs, heq]
    · have heq := congrArg HttpRequest.headers hfill
      rw [fillAll_headers, fillAll_headers, headerLines_eq rfl htokens,
        headerLines_eq (by simp) htokens] at heq
      exact setHeaders_eq_iff.mp heq
  · intro h
    refine ⟨?_, fillAll_congr {} ?_ ?_ ?_ ?_⟩
    · intro r hr
      obtain ⟨t, ht, rfl⟩ := List.mem_map.mp hr
      exact (seen_of_harmless hsize htokens hwhole h ht).1
    · rw [List.filterMap_map, List.filterMap_map]
      exact List.filterMap_congr fun t ht => (seen_of_harmless hsize htokens hwhole h ht).2.1
    · rw [List.filterMap_map, List.filterMap_map]
      exact List.filterMap_congr fun t ht => (seen_of_harmless hsize htokens hwhole h ht).2.2.1
    · intro e he
      rw [List.filterMap_map, List.filterMap_map]
      exact List.filterMap_congr fun t ht =>
        (seen_of_harmless hsize htokens hwhole h ht).2.2.2 e he
    · rw [headerLines_eq rfl htokens, headerLines_eq (by simp) htokens]
      exact setHeaders_eq_iff.mpr h.headers

end Fill

end Nemo.Http
