import Nemo.Http.Harmless
import Nemo.Http.HttpConnection
import Nemo.Http.ResponseOrder

/-!
# Cuts in a response that change nothing

As for a request, every callback writes one member of the response, or none, and `Harmless` says where the reads
may cut the head of a response so that the callbacks make the same response of it. The status is read by
`atoi` up to the end of the read, whatever the length of its token.
-/

namespace Nemo.Http.Client

open Infra

/-! ## The members that a callback writes -/

def versionWritten : Report Element → Option HttpVersion
  | .element .httpVersion text length => versionOf text length
  | _ => none

def statusWritten : Report Element → Option HttpStatus
  | .element .statusCode text _ => some (Int16.ofInt (atoi text))
  | _ => none

def reasonWritten : Report Element → Option Bytes
  | .element .reasonPhrase text length => stringArg text length
  | _ => none

/-- The header that a callback sets. -/
def fieldOf : Report Element → Option (Bytes × Bytes)
  | .field name flen value vlen =>
    if flen = 0 then none
    else (stringArg name flen).bind fun key => (stringArg value vlen).map fun val => (key, val)
  | _ => none

/-- A callback that neither throws nor sets an error. -/
def accepts : Report Element → Bool
  | .element .httpVersion text length => (versionOf text length).isSome
  | .element .reasonPhrase text length => (stringArg text length).isSome
  | .element _ _ _ => true
  | .field name flen value vlen =>
    flen == 0 || ((stringArg name flen).isSome && (stringArg value vlen).isSome)

/-- The response after a callback that is accepted. -/
def fill (r : Report Element) (response : HttpResponse) : HttpResponse :=
  { response with
    version := (versionWritten r).getD response.version
    status := (statusWritten r).getD response.status
    reason := (reasonWritten r).getD response.reason
    headers := response.headers.setHeaders (fieldOf r).toList }

/-- **What one callback does**: it throws, sets an error, or writes its member. -/
theorem callbacks : Callbacks HttpParserError.ok onReport accepts fill where
  accepted r response error h := by
    cases r with
    | field name flen value vlen =>
      simp only [onReport, onResponseHttpField, fill, versionWritten, statusWritten, reasonWritten,
        fieldOf]
      by_cases h0 : flen = 0
      · simp [h0, HeaderMap.setHeaders]
      · simp only [accepts, beq_eq_false_iff_ne.mpr h0, Bool.false_or, Bool.and_eq_true,
          Option.isSome_iff_exists] at h
        obtain ⟨⟨key, hkey⟩, val, hval⟩ := h
        simp [h0, hkey, hval, HeaderMap.setHeaders]
    | element e text length =>
      cases e with
      | httpVersion =>
        obtain ⟨version, hversion⟩ := Option.isSome_iff_exists.mp h
        simp [onReport, onResponseVersion, fill, versionWritten, statusWritten, reasonWritten, fieldOf,
          hversion, HeaderMap.setHeaders]
      | reasonPhrase =>
        obtain ⟨reason, hreason⟩ := Option.isSome_iff_exists.mp h
        simp [onReport, fill, versionWritten, statusWritten, reasonWritten, fieldOf, hreason,
          HeaderMap.setHeaders]
      | _ =>
        simp [onReport, onResponseStatus, fill, versionWritten, statusWritten, reasonWritten, fieldOf,
          HeaderMap.setHeaders]
  refused r f f' h hf := by
    obtain ⟨response, error⟩ := f
    cases r with
    | field name flen value vlen =>
      simp only [accepts, Bool.or_eq_false_iff, beq_eq_false_iff_ne, Bool.and_eq_false_iff,
        Option.isSome_eq_false_iff, Option.isNone_iff_eq_none] at h
      simp only [onReport, onResponseHttpField, if_neg h.1] at hf
      rcases h.2 with hkey | hval
      · simp [hkey] at hf
      · simp [hval] at hf
    | element e text length =>
      cases e with
      | httpVersion =>
        have hnone : versionOf text length = none := by simpa [accepts] using h
        simp only [onReport, onResponseVersion, hnone] at hf
        cases hf
        intro hok
        cases hok
      | reasonPhrase =>
        have hnone : stringArg text length = none := by simpa [accepts] using h
        simp [onReport, hnone] at hf
      | _ => cases h

/-! ## All callbacks -/

/-- The response after callbacks that are all accepted. -/
def fillAll (rs : List (Report Element)) (response : HttpResponse) : HttpResponse :=
  rs.foldl (fun a r => fill r a) response

/-- The members that callbacks write are the same. -/
theorem fillAll_congr {rs rs' : List (Report Element)} (response : HttpResponse)
    (hversion : rs.filterMap versionWritten = rs'.filterMap versionWritten)
    (hstatus : rs.filterMap statusWritten = rs'.filterMap statusWritten)
    (hreason : rs.filterMap reasonWritten = rs'.filterMap reasonWritten)
    (hheaders : response.headers.setHeaders (rs.filterMap fieldOf) =
      response.headers.setHeaders (rs'.filterMap fieldOf)) :
    fillAll rs response = fillAll rs' response := by
  have hlast {γ : Type} {π : HttpResponse → γ} {u : Report Element → Option γ}
      (hfill : ∀ r a, π (fill r a) = (u r).getD (π a)) (hu : rs.filterMap u = rs'.filterMap u) :
      π (fillAll rs response) = π (fillAll rs' response) := by
    unfold fillAll
    rw [foldl_last hfill, foldl_last hfill, hu]
  have hkeeps {γ : Type} {π : HttpResponse → γ} (hfill : ∀ r a, π (fill r a) = π a) :
      π (fillAll rs response) = π (fillAll rs' response) := by
    unfold fillAll
    rw [foldl_keeps hfill, foldl_keeps hfill]
  have hmap : (fillAll rs response).headers = (fillAll rs' response).headers := by
    unfold fillAll
    rw [foldl_adds (π := HttpResponse.headers) (u := fieldOf) (fun _ _ => rfl),
      foldl_adds (π := HttpResponse.headers) (u := fieldOf) (fun _ _ => rfl)]
    exact hheaders
  have hmembers (q q' : HttpResponse) : q.status = q'.status → q.version = q'.version →
      q.close = q'.close → q.webSocket = q'.webSocket → q.body = q'.body → q.reason = q'.reason →
      q.headers = q'.headers → q.cookies = q'.cookies → q = q' := by
    obtain ⟨⟩ := q
    obtain ⟨⟩ := q'
    rintro rfl rfl rfl rfl rfl rfl rfl rfl
    rfl
  exact hmembers _ _ (hlast (fun _ _ => rfl) hstatus) (hlast (fun _ _ => rfl) hversion)
    (hkeeps fun _ _ => rfl) (hkeeps fun _ _ => rfl) (hkeeps fun _ _ => rfl)
    (hlast (fun _ _ => rfl) hreason) hmap (hkeeps fun _ _ => rfl)

/-! ## What is seen of a token -/

/-- How many bytes of the name of a header line are in the read in which its value ends. -/
def nameLength (cuts : Cuts) (i colon fpc : Nat) : Nat := colon - max i (cuts.base fpc)

/-- The name and the value of a header line, unless no byte of the name is seen. -/
def Token.fieldSeen (cuts : Cuts) (text : Bytes) : Token → Option (Bytes × Bytes)
  | .field pointer i colon value fpc =>
    if nameLength cuts i colon fpc = 0 then none
    else some
      (slice text (max pointer (cuts.base fpc))
        (max pointer (cuts.base fpc) + nameLength cuts i colon fpc),
        slice text (max value (cuts.base fpc)) fpc)
  | _ => none

/-- What is taken for the name of a header line ends in the read. -/
def Token.NameFits (cuts : Cuts) : Token → Prop
  | .field pointer i colon _ fpc =>
    nameLength cuts i colon fpc = 0 ∨
      max pointer (cuts.base fpc) + nameLength cuts i colon fpc ≤
        cuts.base fpc + (cuts.buffer fpc).length
  | _ => True

section Written

variable {reads : List Bytes} {text : Bytes}

/-- What is taken for the name. -/
theorem stringArg_pointer {cuts : Cuts} {pointer n p : Nat} (hat : cuts.At text p) (hn : n ≠ 0) :
    stringArg ((cuts.buffer p).drop (pointer - cuts.base p)) n =
      if max pointer (cuts.base p) + n ≤ cuts.base p + (cuts.buffer p).length then
        some (slice text (max pointer (cuts.base p)) (max pointer (cuts.base p) + n))
      else none := by
  split
  · next hfits =>
    rw [stringArg_drop (by omega), ← hat.slice_eq pointer _ hfits]
    congr 2
    omega
  · next hlong =>
    rw [stringArg, if_neg]
    rw [List.length_drop]
    omega

theorem accepts_field_iff {pointer i colon value p : Nat} (hat : (Cuts.of reads).At text p)
    (hvalue : value ≤ p) :
    accepts ((Token.field pointer i colon value p).seen (Cuts.of reads)) = true ↔
      (Token.field pointer i colon value p).NameFits (Cuts.of reads) := by
  have hlength : colon - (Cuts.of reads).base p - (i - (Cuts.of reads).base p) =
      nameLength (Cuts.of reads) i colon p := by
    unfold nameLength
    omega
  simp only [Token.seen, accepts, hlength, Bool.or_eq_true, beq_iff_eq, Bool.and_eq_true,
    stringArg_element hat hvalue, Option.isSome_some, and_true, Token.NameFits]
  by_cases h0 : nameLength (Cuts.of reads) i colon p = 0
  · simp [h0]
  · rw [stringArg_pointer hat h0]
    split
    · next hfits => simp [hfits]
    · next hlong => simp [hlong, h0]

theorem fieldOf_seen {t : Token} (ht : t.Within text.length)
    (hat : ∀ p < text.length, (Cuts.of reads).At text p) (hfits : t.NameFits (Cuts.of reads)) :
    fieldOf (t.seen (Cuts.of reads)) = t.fieldSeen (Cuts.of reads) text := by
  cases t with
  | field pointer i colon value p =>
    obtain ⟨-, hvalue, hp⟩ := ht
    have hlength : colon - (Cuts.of reads).base p - (i - (Cuts.of reads).base p) =
        nameLength (Cuts.of reads) i colon p := by
      unfold nameLength
      omega
    simp only [Token.seen, fieldOf, Token.fieldSeen, hlength]
    split
    · rfl
    · next h0 =>
      rw [stringArg_pointer (hat p hp) h0, if_pos (hfits.resolve_left h0),
        stringArg_element (hat p hp) hvalue]
      rfl
  | _ => rfl

theorem reasonWritten_seen {i p : Nat} (hat : (Cuts.of reads).At text p) (hi : i ≤ p) :
    reasonWritten ((Token.reason i p).seen (Cuts.of reads)) =
      some (slice text (max i ((Cuts.of reads).base p)) p) := stringArg_element hat hi

end Written

/-! ## Harmless cuts -/

/-- The tokens of a text. -/
def tokens (text : Bytes) : List Token := (scan text).acc.2

/-- The header lines of a text, as far as they are seen when the reads cut it. -/
def headerLines (cuts : Cuts) (text : Bytes) (ts : List Token) : List (Bytes × Bytes) :=
  ts.filterMap (Token.fieldSeen cuts text)

/-- The number that `atoi` makes of a status, when it stands at `i` and its read ends behind `fpc`. -/
def statusSeen (cuts : Cuts) (i fpc : Nat) : HttpStatus :=
  Int16.ofInt (atoi ((cuts.buffer fpc).drop (i - cuts.base fpc)))

/--
The cuts of the reads make no difference:

* of the version no byte is cut off, or all but the last
* what is left of the status is the same number
* no read ends in the reason
* what is taken for the name of a header line ends in its read
* of every header name, what is left of the header lines has the same first spelling and the same
  last value
-/
structure Harmless (reads : List Bytes) : Prop where
  version : ∀ i fpc, .version i fpc ∈ tokens reads.flatten →
    (Cuts.of reads).base fpc ≤ i ∨ (Cuts.of reads).base fpc + 1 = fpc
  status : ∀ i fpc, .status i fpc ∈ tokens reads.flatten →
    statusSeen (Cuts.of reads) i fpc = statusSeen (Cuts.of [reads.flatten]) i fpc
  reason : ∀ i fpc, .reason i fpc ∈ tokens reads.flatten → (Cuts.of reads).base fpc ≤ i
  names : ∀ t ∈ tokens reads.flatten, t.NameFits (Cuts.of reads)
  headers : ∀ name,
    headerOf name (headerLines (Cuts.of reads) reads.flatten (tokens reads.flatten)) =
      headerOf name (headerLines (Cuts.of [reads.flatten]) reads.flatten (tokens reads.flatten))

/-! ## The response of the callbacks -/

section Fill

variable {reads : List Bytes} {text : Bytes} {ts : List Token}

/-- The length of a version that is accepted as a whole. -/
theorem length_of_versionOf {v m : Bytes} {version : HttpVersion} (h8 : 8 ≤ v.length)
    (hbytes : ∀ b ∈ v, b ≠ 0) (h : versionOf (v ++ m) v.length = some version) : v.length = 8 := by
  simp only [versionOf] at h
  split at h
  · next hzero => omega
  split at h
  · next hcmp =>
    rw [strncmp, compareBytes_eq_iff, List.map_id, List.map_id] at hcmp
    have hlen := congrArg List.length hcmp
    have hstring : v.length ≤ (cString (v ++ m)).length := by
      unfold cString
      rw [List.takeWhile_append_of_pos fun b hb => bne_iff_ne.mpr (hbytes b hb), List.length_append]
      exact Nat.le_add_right _ _
    have hprefix : (cString (ascii "HTTP/1.")).length = 7 := by decide
    rw [List.length_take, List.length_take, hprefix] at hlen
    omega
  · cases h

/-- The tokens of a kind are one token. -/
theorem getLast?_seen {γ : Type} {cuts : Cuts} {w : Report Element → Option γ} {t : Token}
    (htokens : Tokens text ts) (ht : t ∈ ts) (hplace : t.place ≠ 3)
    (hw : ∀ t' : Token, w (t'.seen cuts) ≠ none → t'.place = t.place) :
    ((ts.map (Token.seen cuts)).filterMap w).getLast? = w (t.seen cuts) := by
  rw [List.filterMap_map]
  refine getLast?_filterMap (w := w ∘ Token.seen cuts) ht fun t' ht' hne => ?_
  have hsame := hw t' hne
  exact htokens.unique t' ht' t ht hsame (by rwa [hsame])

theorem place_of_statusWritten {cuts : Cuts} (t : Token) (h : statusWritten (t.seen cuts) ≠ none) :
    t.place = 1 := by
  cases t <;> first | rfl | exact absurd rfl h

theorem place_of_reasonWritten {cuts : Cuts} (t : Token) (h : reasonWritten (t.seen cuts) ≠ none) :
    t.place = 2 := by
  cases t <;> first | rfl | exact absurd rfl h

theorem headerLines_eq (htext : reads.flatten = text) (htokens : Tokens text ts)
    (hfits : ∀ t ∈ ts, t.NameFits (Cuts.of reads)) :
    (ts.map (Token.seen (Cuts.of reads))).filterMap fieldOf = headerLines (Cuts.of reads) text ts := by
  rw [List.filterMap_map]
  refine List.filterMap_congr fun t ht => ?_
  exact fieldOf_seen (htokens.within t ht) (fun p hp => Cuts.at_of htext hp) (hfits t ht)

/-- The callbacks of these reads and of a single read make the same response. -/
def SameResponse (reads : List Bytes) (text : Bytes) (ts : List Token) : Prop :=
  (∀ r ∈ ts.map (Token.seen (Cuts.of reads)), accepts r = true) ∧
    fillAll (ts.map (Token.seen (Cuts.of reads))) {} =
      fillAll (ts.map (Token.seen (Cuts.of [text]))) {}

/-- What is seen of the version. -/
theorem versionWritten_seen {i p : Nat} {version : HttpVersion}
    (htokens : Tokens reads.flatten ts) (ht : .version i p ∈ ts)
    (hwhole : versionWritten ((Token.version i p).seen (Cuts.of [reads.flatten])) = some version) :
    versionWritten ((Token.version i p).seen (Cuts.of reads)) =
      if (Cuts.of reads).base p ≤ i ∨ (Cuts.of reads).base p + 1 = p then some version else none := by
  obtain ⟨hi, hp⟩ := htokens.within _ ht
  obtain ⟨rfl, h8, hend, hbytes⟩ := htokens.version i p ht
  rw [List.getElem?_eq_getElem hp, Option.some.injEq] at hend
  have hwholeAt : (Cuts.of [reads.flatten]).At reads.flatten p := Cuts.at_of (by simp) hp
  obtain ⟨m, hm⟩ := drop_eq_slice hwholeAt hp hi
  have hlength : (slice reads.flatten 0 p).length = p := by
    rw [length_slice (Nat.le_of_lt hp)]
    omega
  have hwhole' : versionOf (slice reads.flatten 0 p ++ reads.flatten[p] :: m)
      (slice reads.flatten 0 p).length = some version := by
    simp only [Token.seen, element, versionWritten, base_whole hp] at hwhole
    rw [base_whole hp, Nat.max_zero] at hm
    rw [hm, Nat.sub_zero, Nat.sub_zero, len_of_le (Nat.zero_le p), Nat.sub_zero] at hwhole
    rwa [hlength]
  have hp8 := length_of_versionOf (by omega) (fun b hb => hbytes b (by simpa [slice] using hb)) hwhole'
  rw [hlength] at hp8
  exact versionOf_seen rfl hp (by omega) (.inr (.inr hend)) hwhole

/-- What is written of a token is the same if the cuts of the reads make no difference. -/
theorem seen_of_harmless (htokens : Tokens reads.flatten (tokens reads.flatten))
    (hwhole : ∀ r ∈ (tokens reads.flatten).map (Token.seen (Cuts.of [reads.flatten])),
      accepts r = true)
    (h : Harmless reads) {t : Token} (ht : t ∈ tokens reads.flatten) :
    accepts (t.seen (Cuts.of reads)) = true ∧
      versionWritten (t.seen (Cuts.of reads)) =
        versionWritten (t.seen (Cuts.of [reads.flatten])) ∧
      statusWritten (t.seen (Cuts.of reads)) = statusWritten (t.seen (Cuts.of [reads.flatten])) ∧
      reasonWritten (t.seen (Cuts.of reads)) = reasonWritten (t.seen (Cuts.of [reads.flatten])) := by
  have hin := htokens.within t ht
  have hacc := hwhole _ (List.mem_map.mpr ⟨t, ht, rfl⟩)
  have hat (p : Nat) (hp : p < reads.flatten.length) : (Cuts.of reads).At reads.flatten p :=
    Cuts.at_of rfl hp
  cases t with
  | field pointer i colon value p =>
    obtain ⟨-, hvalue, hp⟩ := hin
    exact ⟨(accepts_field_iff (hat p hp) hvalue).mpr (h.names _ ht), rfl, rfl, rfl⟩
  | done p => exact ⟨rfl, rfl, rfl, rfl⟩
  | version i p =>
    obtain ⟨version, hversion⟩ := Option.isSome_iff_exists.mp hacc
    have hseen := versionWritten_seen htokens ht hversion
    rw [if_pos (h.version i p ht)] at hseen
    have hsome : (versionWritten ((Token.version i p).seen (Cuts.of reads))).isSome = true := by
      rw [hseen]
      rfl
    exact ⟨hsome, hseen.trans hversion.symm, rfl, rfl⟩
  | status i p => exact ⟨rfl, rfl, congrArg some (h.status i p ht), rfl⟩
  | reason i p =>
    obtain ⟨hi, hp⟩ := hin
    have hseen := reasonWritten_seen (hat p hp) hi
    have hwat : (Cuts.of [reads.flatten]).At reads.flatten p := Cuts.at_of (by simp) hp
    have hwseen := reasonWritten_seen hwat hi
    rw [Nat.max_eq_left (h.reason i p ht)] at hseen
    rw [base_whole hp, Nat.max_zero] at hwseen
    have hsome : (reasonWritten ((Token.reason i p).seen (Cuts.of reads))).isSome = true := by
      rw [hseen]
      rfl
    exact ⟨hsome, rfl, rfl, hseen.trans hwseen.symm⟩

/-- **Harmless cuts are the cuts that make no difference** to the response that the callbacks make. -/
theorem sameResponse_iff (htokens : Tokens reads.flatten (tokens reads.flatten))
    (hwhole : ∀ r ∈ (tokens reads.flatten).map (Token.seen (Cuts.of [reads.flatten])),
      accepts r = true) :
    SameResponse reads reads.flatten (tokens reads.flatten) ↔ Harmless reads := by
  have hat (p : Nat) (hp : p < reads.flatten.length) : (Cuts.of reads).At reads.flatten p :=
    Cuts.at_of rfl hp
  have hwat (p : Nat) (hp : p < reads.flatten.length) :
      (Cuts.of [reads.flatten]).At reads.flatten p := Cuts.at_of (by simp) hp
  have hwfits : ∀ t ∈ tokens reads.flatten, t.NameFits (Cuts.of [reads.flatten]) := by
    intro t ht
    cases t with
    | field pointer i colon value p =>
      obtain ⟨-, hvalue, hp⟩ := htokens.within _ ht
      exact (accepts_field_iff (hwat p hp) hvalue).mp (hwhole _ (List.mem_map.mpr ⟨_, ht, rfl⟩))
    | _ => trivial
  constructor
  · rintro ⟨hacc, hfill⟩
    have hmember {γ : Type} {π : HttpResponse → γ} {w : Report Element → Option γ} {t : Token}
        (hπ : ∀ r a, π (fill r a) = (w r).getD (π a)) (ht : t ∈ tokens reads.flatten)
        (hplace : t.place ≠ 3)
        (hw : ∀ (cuts : Cuts) (t' : Token), w (t'.seen cuts) ≠ none → t'.place = t.place) :
        (w (t.seen (Cuts.of reads))).getD (π {}) =
          (w (t.seen (Cuts.of [reads.flatten]))).getD (π {}) := by
      have heq := congrArg π hfill
      unfold fillAll at heq
      rwa [foldl_last hπ, foldl_last hπ, getLast?_seen htokens ht hplace (hw _),
        getLast?_seen htokens ht hplace (hw _)] at heq
    have hfits : ∀ t ∈ tokens reads.flatten, t.NameFits (Cuts.of reads) := by
      intro t ht
      cases t with
      | field pointer i colon value p =>
        obtain ⟨-, hvalue, hp⟩ := htokens.within _ ht
        exact (accepts_field_iff (hat p hp) hvalue).mp (hacc _ (List.mem_map.mpr ⟨_, ht, rfl⟩))
      | _ => trivial
    refine ⟨?_, ?_, ?_, hfits, ?_⟩
    · -- a version that is cut in its middle is an error
      intro i p ht
      obtain ⟨version, hversion⟩ := Option.isSome_iff_exists.mp
        (show (versionWritten ((Token.version i p).seen (Cuts.of [reads.flatten]))).isSome = true from
          hwhole _ (List.mem_map.mpr ⟨_, ht, rfl⟩))
      have hsome : (versionWritten ((Token.version i p).seen (Cuts.of reads))).isSome = true :=
        hacc _ (List.mem_map.mpr ⟨_, ht, rfl⟩)
      rw [versionWritten_seen htokens ht hversion] at hsome
      split at hsome
      · assumption
      · cases hsome
    · intro i p ht
      exact hmember (π := HttpResponse.status) (w := statusWritten) (fun _ _ => rfl) ht
        (show 1 ≠ 3 by decide) fun _ => place_of_statusWritten
    · intro i p ht
      obtain ⟨hi, hp⟩ := htokens.within _ ht
      have heq := hmember (π := HttpResponse.reason) (w := reasonWritten) (fun _ _ => rfl) ht
        (show 2 ≠ 3 by decide) fun _ => place_of_reasonWritten
      rw [reasonWritten_seen (hat p hp) hi, reasonWritten_seen (hwat p hp) hi, base_whole hp,
        Nat.max_zero] at heq
      exact (slice_max_iff (Nat.le_of_lt hp) hi (hat p hp).base_le).mp heq
    · have heq := congrArg HttpResponse.headers hfill
      unfold fillAll at heq
      rw [foldl_adds (π := HttpResponse.headers) (u := fieldOf) (fun _ _ => rfl),
        foldl_adds (π := HttpResponse.headers) (u := fieldOf) (fun _ _ => rfl),
        headerLines_eq rfl htokens hfits, headerLines_eq (by simp) htokens hwfits] at heq
      exact setHeaders_eq_iff.mp heq
  · intro h
    refine ⟨?_, fillAll_congr {} ?_ ?_ ?_ ?_⟩
    · intro r hr
      obtain ⟨t, ht, rfl⟩ := List.mem_map.mp hr
      exact (seen_of_harmless htokens hwhole h ht).1
    · rw [List.filterMap_map, List.filterMap_map]
      exact List.filterMap_congr fun t ht => (seen_of_harmless htokens hwhole h ht).2.1
    · rw [List.filterMap_map, List.filterMap_map]
      exact List.filterMap_congr fun t ht => (seen_of_harmless htokens hwhole h ht).2.2.1
    · rw [List.filterMap_map, List.filterMap_map]
      exact List.filterMap_congr fun t ht => (seen_of_harmless htokens hwhole h ht).2.2.2
    · rw [headerLines_eq rfl htokens h.names, headerLines_eq (by simp) htokens hwfits]
      exact setHeaders_eq_iff.mpr h.headers

end Fill

end Nemo.Http.Client
