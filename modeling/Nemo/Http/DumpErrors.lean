import Nemo.Http.DumpHead

/-!
# Where the machine fails on a printed request

The grammar has no method with a hyphen, and behind a first `//` it wants an authority. `Tracks` says
what the machine has read of an authority in each of its states, so that a text that it reads up to the
end of an authority has one.
-/

namespace Nemo.Http

open Infra Automaton

variable {u : Bool} {text : Bytes}

/-! ## Parts of a text -/

/-- A text, or one that ends within a percent-encoded byte of which `n` characters are there. -/
def Partly (u : Bool) (c : Class) : Nat → Bytes → Prop
  | 0, l => Text u c l
  | 1, l => ∃ t, Text u c t ∧ l = t ++ [37]
  | _, l => ∃ t h, Text u c t ∧ xdigit.contains u h = true ∧ l = t ++ [37, h]

theorem Text.append {c : Class} {xs ys : Bytes} (h : Text u c xs) (h' : Text u c ys) :
    Text u c (xs ++ ys) := by
  induction h with
  | nil => exact h'
  | char hb _ ih => exact .char hb ih
  | pct hh hl _ ih => exact .pct hh hl ih

theorem Text.mono {c c' : Class} {xs : Bytes} (h : Text u c xs)
    (hc : ∀ b, c.contains u b = true → c'.contains u b = true) : Text u c' xs := by
  induction h with
  | nil => exact .nil
  | char hb _ ih => exact .char (hc _ hb) ih
  | pct hh hl _ ih => exact .pct hh hl ih

theorem Text.snoc {c : Class} {xs : Bytes} (h : Text u c xs) {b : UInt8} (hb : c.contains u b = true) :
    Text u c (xs ++ [b]) :=
  h.append (.char hb .nil)

/-- The text goes on to the end of the percent-encoded byte. -/
theorem Partly.next {c : Class} {l : Bytes} {b : UInt8} :
    (Partly u c 0 l → Partly u c 1 (l ++ [37])) ∧
      (xdigit.contains u b = true → Partly u c 1 l → Partly u c 2 (l ++ [b])) ∧
      (xdigit.contains u b = true → Partly u c 2 l → Partly u c 0 (l ++ [b])) := by
  refine ⟨fun h => ⟨l, h, rfl⟩, ?_, ?_⟩
  · rintro hb ⟨t, ht, rfl⟩
    exact ⟨t, b, ht, hb, by simp⟩
  · rintro hb ⟨t, h, ht, hh, rfl⟩
    have hpct : Text u c (t ++ [37, h, b]) := ht.append (.pct hh hb .nil)
    show Text u c _
    simpa using hpct

/-! ## The states of an authority -/

/-- A host, its percent-encoded bytes, and a port. -/
def TracksHost (u : Bool) (l : Bytes) : Nat → Prop
  | 0 => l = []
  | 1 => Partly u regName 0 l
  | 2 => Partly u regName 1 l
  | 3 => Partly u regName 2 l
  | _ => ∃ host digits, Text u regName host ∧ (∀ b ∈ digits, digit.contains u b = true) ∧
    l = host ++ 58 :: digits

/-- What has been read of an authority in a state. -/
inductive Tracks (u : Bool) (l : Bytes) : Nat → Prop
  | host {k : Nat} (hk : k < 5) (h : TracksHost u l k) : Tracks u l (34 + k)
  | user {k : Nat} (hk : k < 3) (h : Partly u userinfo k l) : Tracks u l (39 + k)
  | behind {k : Nat} (hk : k < 5) {t host : Bytes} (ht : Text u userinfo t) (hl : l = t ++ 64 :: host)
      (h : TracksHost u host k) : Tracks u l (42 + k)

/-- The bytes that are in no authority. -/
def authorityDelims : Class := byte 32 ++ is '#' ++ is '/' ++ is '?' ++ is '['

/-- The moves within a host. -/
def hostMoves : Nat → List (Class × Nat)
  | 0 | 1 => [(regName, 1), (is '%', 2), (is ':', 4)]
  | 2 => [(xdigit, 3)]
  | 3 => [(xdigit, 1)]
  | _ => [(digit, 4)]

/-- The moves of a host behind a userinfo, and of a host that may be a userinfo. -/
def movesAt (q k : Nat) : List (Class × Nat) := (hostMoves k).map fun move => (move.1, q + move.2)

/-- The moves between the states of an authority. -/
def authorityMoves : Nat → List (Class × Nat)
  | 34 => (is '@', 42) :: movesAt 34 0
  | 35 => (is '@', 42) :: movesAt 34 1
  | 36 => movesAt 34 2
  | 37 => movesAt 34 3
  | 38 => (is '@', 42) :: (userinfo, 39) :: (is '%', 40) :: movesAt 34 4
  | 39 => [(userinfo, 39), (is '%', 40), (is '@', 42)]
  | 40 => [(xdigit, 41)]
  | 41 => [(xdigit, 39)]
  | q => movesAt 42 (q - 42)

/-- A row for the end of an authority, or for one of its moves. -/
def authorityRow (q : Nat) (r : Row Action) : Bool :=
  r.on.within authorityDelims || (!r.arc.stops &&
    (authorityMoves q).any fun move => move.2 == r.arc.target && r.on.within move.1)

theorem authority_rows :
    ((List.range' 34 13).all fun q => (table.rowsOf q).all (authorityRow q)) = true := by
  decide +kernel

/-- A byte that is no delimiter makes one of the moves. -/
theorem authority_move {q : Nat} (hq : 34 ≤ q ∧ q < 47) {b : UInt8}
    (hb : authorityDelims.contains u b = false) {arc : Arc Nat Action} (harc : machine u q b = some arc) :
    arc.stops = false ∧ ∃ move ∈ authorityMoves q, move.2 = arc.target ∧ move.1.contains u b = true := by
  obtain ⟨r, hr, rfl, hon⟩ := Table.exists_row harc
  have hrow := List.all_eq_true.mp (List.all_eq_true.mp authority_rows q
    (List.mem_range'_1.mpr (by omega))) r hr
  rw [authorityRow, Bool.or_eq_true, Bool.and_eq_true, Bool.not_eq_true'] at hrow
  rcases hrow with hdelim | ⟨hstops, hmove⟩
  · rw [Class.contains_of_within hdelim hon] at hb
    cases hb
  · obtain ⟨move, hmem, hmove⟩ := List.any_eq_true.mp hmove
    rw [Bool.and_eq_true, beq_iff_eq] at hmove
    exact ⟨hstops, move, hmem, hmove.1, Class.contains_of_within hmove.2 hon⟩

theorem regName_userinfo (b : UInt8) (hb : regName.contains u b = true) : userinfo.contains u b = true :=
  Class.contains_of_within (by decide) hb

/-- What a host and a port are as a userinfo. -/
theorem TracksHost.userinfo {l : Bytes} {k : Nat} (hk : k = 1 ∨ k = 4) (h : TracksHost u l k) :
    Text u userinfo l := by
  rcases hk with rfl | rfl
  · exact Text.mono h regName_userinfo
  · obtain ⟨host, digits, hhost, hdigits, rfl⟩ := h
    have hcolon : Nemo.Http.userinfo.contains u 58 = true := by cases u <;> decide
    refine (hhost.mono regName_userinfo).append (.char hcolon ?_)
    induction digits with
    | nil => exact .nil
    | cons b digits ih =>
      have hb : Nemo.Http.userinfo.contains u b = true :=
        Class.contains_of_within (c := digit) (by decide) (hdigits b List.mem_cons_self)
      exact .char hb (ih fun b' hb' => hdigits b' (List.mem_cons_of_mem _ hb'))

theorem byte_eq {n : Nat} {b : UInt8} (h : (byte n).contains u b = true) : b = UInt8.ofNat n := by
  rw [← eq_of_byte h, UInt8.ofNat_toNat]

/-- **One byte** of a host. -/
theorem TracksHost.step {l : Bytes} {k : Nat} (hk : k < 5) (h : TracksHost u l k) {move : Class × Nat}
    (hmove : move ∈ hostMoves k) {b : UInt8} (hb : move.1.contains u b = true) :
    move.2 < 5 ∧ TracksHost u (l ++ [b]) move.2 := by
  have hfrom : TracksHost u l 1 → move ∈ hostMoves 1 →
      move.2 < 5 ∧ TracksHost u (l ++ [b]) move.2 := by
    intro h hmove
    simp only [hostMoves, List.mem_cons, List.not_mem_nil, or_false] at hmove
    rcases hmove with rfl | rfl | rfl
    · exact ⟨by decide, Text.snoc h hb⟩
    · exact ⟨by decide, l, h, by rw [byte_eq hb]; rfl⟩
    · exact ⟨by decide, l, [], h, nofun, by rw [byte_eq hb]; rfl⟩
  match k, hk with
  | 0, _ =>
    obtain rfl : l = [] := h
    exact hfrom .nil hmove
  | 1, _ => exact hfrom h hmove
  | 2, _ =>
    obtain rfl := List.mem_singleton.mp hmove
    exact ⟨by decide, Partly.next.2.1 hb h⟩
  | 3, _ =>
    obtain rfl := List.mem_singleton.mp hmove
    exact ⟨by decide, Partly.next.2.2 hb h⟩
  | 4, _ =>
    obtain rfl := List.mem_singleton.mp hmove
    obtain ⟨host, digits, hhost, hdigits, rfl⟩ := h
    refine ⟨by decide, host, digits ++ [b], hhost, fun b' hb' => ?_, by simp⟩
    rcases List.mem_append.mp hb' with hb' | hb'
    · exact hdigits b' hb'
    · rwa [List.mem_singleton.mp hb']

theorem Tracks.range {l : Bytes} {q : Nat} (h : Tracks u l q) : 34 ≤ q ∧ q < 47 := by
  cases h <;> omega

/-- **One byte** of an authority. -/
theorem tracks_step {l : Bytes} {q : Nat} (h : Tracks u l q) {b : UInt8}
    (hb : authorityDelims.contains u b = false) {arc : Arc Nat Action} (harc : machine u q b = some arc) :
    arc.stops = false ∧ Tracks u (l ++ [b]) arc.target := by
  obtain ⟨hstops, move, hmem, htarget, hmove⟩ := authority_move h.range hb harc
  refine ⟨hstops, htarget ▸ ?_⟩
  clear htarget hstops harc hb
  have hat : Text u userinfo l → (is '@').contains u b = true → Tracks u (l ++ [b]) 42 := fun ht h64 =>
    .behind (k := 0) (by decide) ht (by rw [byte_eq h64]; rfl) rfl
  have hpct : Text u userinfo l → (is '%').contains u b = true → Tracks u (l ++ [b]) 40 := fun ht h37 =>
    .user (k := 1) (by decide) ⟨l, ht, by rw [byte_eq h37]; rfl⟩
  have huser : Text u userinfo l → userinfo.contains u b = true → Tracks u (l ++ [b]) 39 := fun ht hb =>
    .user (k := 0) (by decide) (ht.snoc hb)
  cases h with
  | @host k hk h =>
    have hhost : move ∈ movesAt 34 k → Tracks u (l ++ [b]) move.2 := by
      intro hmem
      obtain ⟨move', hmem', rfl⟩ := List.mem_map.mp hmem
      obtain ⟨hk', h'⟩ := h.step hk hmem' hmove
      exact .host hk' h'
    match k, hk with
    | 0, _ =>
      obtain rfl : l = [] := h
      rcases List.mem_cons.mp hmem with rfl | hmem
      · exact hat .nil hmove
      · exact hhost hmem
    | 1, _ =>
      rcases List.mem_cons.mp hmem with rfl | hmem
      · exact hat (h.userinfo (.inl rfl)) hmove
      · exact hhost hmem
    | 2, _ | 3, _ => exact hhost hmem
    | 4, _ =>
      have ht := h.userinfo (.inr rfl)
      rcases List.mem_cons.mp hmem with rfl | hmem
      · exact hat ht hmove
      rcases List.mem_cons.mp hmem with rfl | hmem
      · exact huser ht hmove
      rcases List.mem_cons.mp hmem with rfl | hmem
      · exact hpct ht hmove
      · exact hhost hmem
  | @user k hk h =>
    match k, hk with
    | 0, _ =>
      have hmoves : move ∈ [(userinfo, 39), (is '%', 40), (is '@', 42)] := hmem
      simp only [List.mem_cons, List.not_mem_nil, or_false] at hmoves
      rcases hmoves with rfl | rfl | rfl
      · exact huser h hmove
      · exact hpct h hmove
      · exact hat h hmove
    | 1, _ =>
      obtain rfl : move = (xdigit, 41) := List.mem_singleton.mp hmem
      exact .user (k := 2) (by decide) (Partly.next.2.1 hmove h)
    | 2, _ =>
      obtain rfl : move = (xdigit, 39) := List.mem_singleton.mp hmem
      exact .user (k := 0) (by decide) (Partly.next.2.2 hmove h)
  | @behind k hk t host ht hl h =>
    have hmem' : move ∈ movesAt 42 k := by
      match k, hk with
      | 0, _ | 1, _ | 2, _ | 3, _ | 4, _ => exact hmem
    obtain ⟨move', hhost, rfl⟩ := List.mem_map.mp hmem'
    obtain ⟨hk', h'⟩ := h.step hk hhost hmove
    exact .behind hk' ht (by rw [hl]; simp) h'

/-- **An authority that the machine reads**, up to the byte behind it. -/
theorem tracks_run {s : Reading} {l xs ys : Bytes} {q p : Nat} {c : UInt8} (h : Tracks u l q)
    (hxs : ∀ b ∈ xs, authorityDelims.contains u b = false)
    (hrun : (run u text q p (xs ++ c :: ys) s).halt ≠ .error) :
    ∃ q', Tracks u (l ++ xs) q' ∧ (machine u q' c).isSome = true := by
  induction xs generalizing l q p s with
  | nil =>
    refine ⟨q, by rwa [List.append_nil], ?_⟩
    cases harc : machine u q c with
    | none => exact absurd (by rw [run, List.nil_append, exec_of_none harc]) hrun
    | some arc => rfl
  | cons b xs ih =>
    cases harc : machine u q b with
    | none => exact absurd (by rw [run, List.cons_append, exec_of_none harc]) hrun
    | some arc =>
      obtain ⟨hstops, hstep⟩ := tracks_step h (hxs b List.mem_cons_self) harc
      rw [List.cons_append, run_step harc hstops] at hrun
      obtain ⟨q', hq', hc⟩ := ih hstep (fun b' hb' => hxs b' (List.mem_cons_of_mem _ hb')) hrun
      exact ⟨q', by rwa [List.append_assoc] at hq', hc⟩

/-- What the machine has read when the authority can end is one. -/
theorem isAuthority_of_tracks {l : Bytes} {q : Nat} (h : Tracks u l q) {c : UInt8}
    (hc : c ∈ [32, 35, 47, 63]) (harc : (machine u q c).isSome = true) : IsAuthority u l := by
  have hnone : ∀ u, ∀ q ∈ [36, 37, 39, 40, 41, 44, 45], ∀ c ∈ [(32 : UInt8), 35, 47, 63],
      (machine u q c).isSome = false := by
    decide +kernel
  have hno : q ∉ [36, 37, 39, 40, 41, 44, 45] := fun hmem => by
    rw [hnone u q hmem c hc] at harc
    cases harc
  have hhost : ∀ {host : Bytes} {k : Nat}, k ≠ 2 → k ≠ 3 → TracksHost u host k →
      ∃ name port, host = name ++ port ∧ Text u regName name ∧ (port = [] ∨
        ∃ digits, (∀ b ∈ digits, digit.contains u b = true) ∧ port = 58 :: digits) := by
    intro host k h2 h3 h
    match k with
    | 0 => exact ⟨[], [], h, .nil, .inl rfl⟩
    | 1 => exact ⟨host, [], (List.append_nil _).symm, h, .inl rfl⟩
    | k + 4 =>
      obtain ⟨name, digits, hname, hdigits, rfl⟩ := h
      exact ⟨name, 58 :: digits, rfl, hname, .inr ⟨digits, hdigits, rfl⟩⟩
  cases h with
  | @host k hk h =>
    obtain ⟨name, port, rfl, hname, hport⟩ := hhost (fun hk => hno (by rw [hk]; decide))
      (fun hk => hno (by rw [hk]; decide)) h
    exact ⟨[], name, port, rfl, .inl rfl, hname, hport⟩
  | @user k hk h => exact absurd ((by decide : ∀ k < 3, 39 + k ∈ [36, 37, 39, 40, 41, 44, 45]) k hk) hno
  | @behind k hk t host ht hl h =>
    obtain ⟨name, port, rfl, hname, hport⟩ := hhost (fun hk => hno (by rw [hk]; decide))
      (fun hk => hno (by rw [hk]; decide)) h
    exact ⟨t ++ [64], name, port, by rw [hl]; simp, .inr ⟨t, ht, rfl⟩, hname, hport⟩

/-! ## Errors -/

/-- The bytes of a path are no delimiters, but for the slashes. -/
theorem not_delim_of_path {xs : Bytes} (h : Text u pathChar xs) :
    ∀ b ∈ xs, b ≠ 47 → authorityDelims.contains u b = false := by
  have hxdigit : ∀ b, xdigit.contains u b = true → authorityDelims.contains u b = false := fun b =>
    Class.not_contains_of_apart (by decide)
  have hpct : authorityDelims.contains u 37 = false := by cases u <;> decide
  induction h with
  | nil => exact nofun
  | char hb _ ih =>
    intro b' hmem hslash
    rcases List.mem_cons.mp hmem with rfl | hmem
    · exact Class.not_contains_of_apart (by decide) (pchar_of_path hb hslash)
    · exact ih b' hmem hslash
  | pct hh hl _ ih =>
    intro b' hmem hslash
    rcases List.mem_cons.mp hmem with rfl | hmem
    · exact hpct
    rcases List.mem_cons.mp hmem with rfl | hmem
    · exact hxdigit _ hh
    rcases List.mem_cons.mp hmem with rfl | hmem
    · exact hxdigit _ hl
    · exact ih b' hmem hslash

/-- A path that the machine reads has an authority behind a first `//`. -/
theorem hasAuthority_of_run {s : Reading} {rest ys : Bytes} {p : Nat} {c : UInt8}
    (hrest : Text u pathChar (47 :: 47 :: rest)) (hc : c ∈ [32, 35, 63])
    (hrun : (run u text 34 p (rest ++ c :: ys) s).halt ≠ .error) : HasAuthority u (47 :: 47 :: rest) := by
  intro rest' heq
  obtain rfl : rest = rest' := (List.cons.inj (List.cons.inj heq).2).2
  have hdelim : ∀ b ∈ rest.takeWhile (· != 47), authorityDelims.contains u b = false := fun b hb => by
    have hne := List.all_eq_true.mp List.all_takeWhile b hb
    refine not_delim_of_path hrest b ?_ (by simpa using hne)
    exact List.mem_cons_of_mem _ (List.mem_cons_of_mem _ ((List.takeWhile_prefix _).subset hb))
  have hsplit := List.takeWhile_append_dropWhile (p := (· != 47)) (l := rest)
  have hstart : Tracks u [] 34 := .host (k := 0) (by decide) rfl
  refine ⟨rest.takeWhile (· != 47), rest.dropWhile (· != 47), hsplit.symm, ?_, ?_⟩
  · rw [← hsplit, List.append_assoc] at hrun
    cases hdrop : rest.dropWhile (· != 47) with
    | nil =>
      rw [hdrop] at hrun
      obtain ⟨q, hq, harc⟩ := tracks_run hstart hdelim hrun
      have hends : ∀ c ∈ [(32 : UInt8), 35, 63], c ∈ [32, 35, 47, 63] := by
        intro c hc
        simp only [List.mem_cons, List.not_mem_nil, or_false] at hc
        rcases hc with rfl | rfl | rfl <;> simp
      exact isAuthority_of_tracks hq (hends c hc) harc
    | cons b segments =>
      have hslash : b = 47 := by
        have := List.head_dropWhile_not (· != 47) (l := rest) (by rw [hdrop]; nofun)
        simpa [hdrop] using this
      rw [hdrop] at hrun
      obtain ⟨q, hq, harc⟩ := tracks_run hstart hdelim hrun
      exact isAuthority_of_tracks hq (by rw [hslash]; decide) harc
  · cases hdrop : rest.dropWhile (· != 47) with
    | nil => exact .inl rfl
    | cons b segments =>
      have := List.head_dropWhile_not (· != 47) (l := rest) (by rw [hdrop]; nofun)
      exact .inr (by simpa [hdrop] using this)

/-- **The machine fails** on a path with `//` and no authority behind it. -/
theorem scan_error_of_path {method : HttpMethod} (hm : method ≠ .msearch ∧ method ≠ .invalidMethod)
    {path ys : Bytes} {c : UInt8} (hpath : ∃ rest, path = 47 :: rest ∧ Text u pathChar rest)
    (hc : c ∈ [32, 35, 63]) (hno : ¬ HasAuthority u path)
    (htext : text = httpMethod2String method ++ 32 :: (path ++ c :: ys)) :
    (scan u text).halt = .error := by
  by_contra hrun
  rw [← (run_of_scan u text).1, run_method hm htext] at hrun
  obtain ⟨rest, rfl, hrest⟩ := hpath
  refine hno fun rest' heq => ?_
  obtain rfl := (List.cons.inj heq).2
  obtain ⟨hfirst, hsecond, -⟩ := path_goes
  have hread : ∀ (s : Reading) (p : Nat), ∃ s', run u text 3 p (47 :: 47 :: (rest' ++ c :: ys)) s =
      run u text 34 (p + 2) (rest' ++ c :: ys) s' := fun s p =>
    ⟨_, (run_byte hfirst rfl (by decide) _).trans (run_byte hsecond rfl (by decide) _)⟩
  obtain ⟨s', hs'⟩ := hread (some ({}, { method := method })) ((httpMethod2String method).length + 1)
  have hslash : pathChar.contains u 47 = true := by cases u <;> decide
  exact hasAuthority_of_run (.char hslash hrest) hc (fun h => hrun ((congrArg Exit.halt hs').trans h))
    rest' rfl

/-- **The machine fails** on `M-SEARCH`. -/
theorem scan_error_of_msearch {ys : Bytes} (htext : text = httpMethod2String .msearch ++ ys) :
    (scan u text).halt = .error := by
  subst htext
  have hM : (machine u 1 77) = some ⟨2, [.mark], false⟩ := by cases u <;> decide +kernel
  have hhyphen : machine u 2 45 = none := by cases u <;> decide +kernel
  have hname : httpMethod2String .msearch = 77 :: 45 :: ascii "SEARCH" := by decide
  rw [hname, scan, scanFrom]
  refine congrArg Exit.halt ((exec_of_goes hM rfl).trans (exec_of_none hhyphen))

end Nemo.Http
