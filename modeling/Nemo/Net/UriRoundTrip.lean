import Mathlib.Data.List.TakeWhile
import Nemo.Http.ResponseScan
import Nemo.Net.Uri

/-!
# A URI that is printed

What `Uri::Create` makes of a text that `dump` has printed. A port is followed by the path, which
`LexicalCast<uint16_t>` does not take; and a digit behind the first colon of the user information is taken for the
beginning of a port, so that the mark is moved.

* `create_toString` — what `Create` makes of the text, for every URI that the grammar has a text for and whose host
  is a registered name
-/

namespace Nemo.Net.Uri

open Infra Automaton Http

/-! ## Spans that are cut

A class that reaches over the rows of a state, as the digits do over those of an address, is cut where they begin.
-/

/-- The span in two pieces, if `n` is in it and not its first byte. -/
def cutSpan (n : Nat) (x : Span) : Http.Class :=
  if x.lo < n ∧ n ≤ x.hi then [{ x with hi := n - 1 }, { x with lo := n }] else [x]

def cutClass (ns : List Nat) (c : Http.Class) : Http.Class :=
  ns.foldl (fun c n => c.flatMap (cutSpan n)) c

theorem contains_cutSpan {n : Nat} {x : Span} {uriRelaxed : Bool} {b : UInt8} (hb : x.contains uriRelaxed b = true) :
    Class.contains (cutSpan n x) uriRelaxed b = true := by
  unfold cutSpan
  split
  · simp only [Class.contains, Span.contains, List.any_cons, List.any_nil, Bool.or_false, Bool.or_eq_true,
      Bool.and_eq_true, decide_eq_true_eq] at hb ⊢
    by_cases hlt : b.toNat < n
    · exact .inl ⟨⟨hb.1.1, by omega⟩, hb.2⟩
    · exact .inr ⟨⟨by omega, hb.1.2⟩, hb.2⟩
  · exact List.any_eq_true.mpr ⟨x, List.mem_cons_self, hb⟩

/-- What is not in the one part of a class is in the other. -/
theorem contains_of_split {c c₁ : Http.Class} (c₂ : Http.Class) (h : c.within (c₁ ++ c₂) = true)
    {uriRelaxed : Bool} {b : UInt8} (hb : c.contains uriRelaxed b = true)
    (hnot : c₂.contains uriRelaxed b ≠ true) : c₁.contains uriRelaxed b = true := by
  have hsplit := Class.contains_of_within h hb
  rw [Class.contains, List.any_append, Bool.or_eq_true] at hsplit
  exact hsplit.resolve_right hnot

theorem contains_cutClass (ns : List Nat) {c : Http.Class} {uriRelaxed : Bool} {b : UInt8}
    (hb : c.contains uriRelaxed b = true) : Class.contains (cutClass ns c) uriRelaxed b = true := by
  induction ns generalizing c with
  | nil => exact hb
  | cons n ns ih =>
    refine ih (c := c.flatMap (cutSpan n)) ?_
    obtain ⟨x, hx, hxb⟩ := List.any_eq_true.mp hb
    obtain ⟨y, hy, hyb⟩ := List.any_eq_true.mp (contains_cutSpan (n := n) hxb)
    exact List.any_eq_true.mpr ⟨y, List.mem_flatMap.mpr ⟨x, hx, hy⟩, hyb⟩

/-! ## Arcs into a set of states -/

section

variable {S : List Nat} {c : Http.Class} {as : List Action} {q : Nat} {b : UInt8} {σ : Type}
  {f : Action → Nat → σ → σ}

/-- Where the octets of an address make a difference: the digits `1`, `2`, `3`, `5` and `6`. -/
def octetCuts : List Nat := [49, 50, 51, 53, 54]

/-- The arcs of the states for the bytes of the class run these actions and lead into `T`. -/
def leads (S : List Nat) (c : Http.Class) (as : List Action) (T : List Nat) : Bool :=
  S.all fun q => (cutClass octetCuts c).goes table q fun arc =>
    arc.actions == as && !arc.stops && T.contains arc.target

theorem exec_of_leads {T : List Nat} (h : leads S c as T = true) (hq : q ∈ S) (hb : c.contains false b = true) :
    ∃ q' ∈ T, ∀ p ys s, machine.exec f q p (b :: ys) s = machine.exec f q' (p + 1) ys (perform f as p s) := by
  obtain ⟨arc, harc, hinto⟩ := Class.exists_arc (List.all_eq_true.mp h q hq) (contains_cutClass octetCuts hb)
  rw [Bool.and_eq_true, Bool.and_eq_true, beq_iff_eq, Bool.not_eq_true', List.contains_iff_mem] at hinto
  obtain ⟨⟨rfl, hstops⟩, htarget⟩ := hinto
  exact ⟨arc.target, htarget, fun p ys s => exec_of_goes harc hstops⟩

/-- The states read texts of the class: `q₁` and `q₂` are within a percent-encoded byte. -/
def readsText (S : List Nat) (c : Http.Class) (q₁ q₂ : Nat) : Bool :=
  leads S c [] S && leads S (is '%') [] [q₁] && leads [q₁] xdigit [] [q₂] && leads [q₂] xdigit [] S

/-- A percent-encoded byte. -/
theorem exec_pct {q₁ q₂ : Nat} (h : readsText S c q₁ q₂ = true) {q₀ : Nat}
    (hpct : leads [q₀] (is '%') as [q₁] = true) {x y : UInt8} (hx : xdigit.contains false x = true)
    (hy : xdigit.contains false y = true) :
    ∃ q' ∈ S, ∀ p ys s,
      machine.exec f q₀ p (37 :: x :: y :: ys) s = machine.exec f q' (p + 3) ys (perform f as p s) := by
  simp only [readsText, Bool.and_eq_true] at h
  obtain ⟨⟨⟨-, -⟩, h₁⟩, h₂⟩ := h
  obtain ⟨q₃, hq₃, hfirst⟩ := exec_of_leads (f := f) hpct List.mem_cons_self
    (show (is '%').contains false 37 = true by decide)
  obtain rfl := List.mem_singleton.mp hq₃
  obtain ⟨q₄, hq₄, hsecond⟩ := exec_of_leads (f := f) h₁ List.mem_cons_self hx
  obtain rfl := List.mem_singleton.mp hq₄
  obtain ⟨q', hq', hthird⟩ := exec_of_leads (f := f) h₂ List.mem_cons_self hy
  exact ⟨q', hq', fun p ys s => by rw [hfirst, hsecond, hthird]; rfl⟩

/-- **A text is read** without an action. -/
theorem exec_text {q₁ q₂ : Nat} (h : readsText S c q₁ q₂ = true) {xs : Bytes} (hxs : Text false c xs) (hq : q ∈ S) :
    ∃ q' ∈ S, ∀ p ys s, machine.exec f q p (xs ++ ys) s = machine.exec f q' (p + xs.length) ys s := by
  have hreads := h
  simp only [readsText, Bool.and_eq_true] at h
  obtain ⟨⟨⟨hchar, hpct⟩, -⟩, -⟩ := h
  induction hxs generalizing q with
  | nil => exact ⟨q, hq, fun p ys s => rfl⟩
  | char hb _ ih =>
    obtain ⟨q', hq', hstep⟩ := exec_of_leads (f := f) hchar hq hb
    obtain ⟨q'', hq'', hrest⟩ := ih hq'
    refine ⟨q'', hq'', fun p ys s => ?_⟩
    rw [List.cons_append, hstep, hrest, List.length_cons, Nat.add_assoc, Nat.add_comm 1]
    rfl
  | pct hx hy _ ih =>
    have hfirst : leads [q] (is '%') [] [q₁] = true := by
      have hall := List.all_eq_true.mp hpct q hq
      exact List.all_eq_true.mpr fun q' hq' => List.mem_singleton.mp hq' ▸ hall
    obtain ⟨q', hq', hstep⟩ := exec_pct (f := f) hreads hfirst hx hy
    obtain ⟨q'', hq'', hrest⟩ := ih hq'
    refine ⟨q'', hq'', fun p ys s => ?_⟩
    rw [List.cons_append, List.cons_append, List.cons_append, hstep, hrest, List.length_cons, List.length_cons,
      List.length_cons, Nat.add_assoc, Nat.add_comm 3]
    rfl

/-- A text that is not empty, whose first arc runs the actions. -/
theorem exec_firstText {q₁ q₂ : Nat} (h : readsText S c q₁ q₂ = true) (hchar : leads [q] c as S = true)
    (hpct : leads [q] (is '%') as [q₁] = true) {xs : Bytes} (hxs : Text false c xs) (hne : xs ≠ []) :
    ∃ q' ∈ S, ∀ p ys s, machine.exec f q p (xs ++ ys) s =
      machine.exec f q' (p + xs.length) ys (perform f as p s) := by
  cases hxs with
  | nil => exact absurd rfl hne
  | char hb hrest =>
    obtain ⟨q', hq', hstep⟩ := exec_of_leads (f := f) hchar List.mem_cons_self hb
    obtain ⟨q'', hq'', hrest⟩ := exec_text (f := f) h hrest hq'
    refine ⟨q'', hq'', fun p ys s => ?_⟩
    rw [List.cons_append, hstep, hrest, List.length_cons, Nat.add_assoc, Nat.add_comm 1]
  | pct hx hy hrest =>
    obtain ⟨q', hq', hstep⟩ := exec_pct (f := f) h hpct hx hy
    obtain ⟨q'', hq'', hrest⟩ := exec_text (f := f) h hrest hq'
    refine ⟨q'', hq'', fun p ys s => ?_⟩
    rw [List.cons_append, List.cons_append, List.cons_append, hstep, hrest, List.length_cons, List.length_cons,
      List.length_cons, Nat.add_assoc, Nat.add_comm 3]

end

/-! ## The states -/

/-- The first part of an authority, which may still be user information. -/
def authorityStates : List Nat := 520 :: List.range' 543 18

/-- A host behind user information. -/
def hostStates : List Nat := List.range' 523 19

/-- The arcs of the states that a URI runs through, which the lemmas on its pieces take as they are. -/
structure Reads : Prop where
  authority : readsText authorityStates regChar 253 254 = true ∧
    leads [511] regChar [.markh] authorityStates = true ∧ leads [511] (is '%') [.markh] [253] = true ∧
    leads authorityStates (is '@') [.saveUserinfo] [522] = true ∧
    leads authorityStates (is ':') [.saveHost] [521] = true ∧
    leads authorityStates (is '/') [.saveHost, .markh] [513] = true
  host : readsText hostStates regChar 258 259 = true ∧
    leads [522] regChar [.markh] hostStates = true ∧ leads [522] (is '%') [.markh] [258] = true ∧
    leads hostStates (is ':') [.saveHost] [514] = true ∧
    leads hostStates (is '/') [.saveHost, .markh] [513] = true
  /-- Behind a colon: a digit may begin a port. -/
  password : readsText [255, 542] userinfoChar 256 257 = true ∧
    leads [521] (hostStart ++ is ':') [] [255] = true ∧ leads [521] digit [.markh] [542] = true ∧
    leads [521] (is '%') [] [256] = true ∧ leads [255, 521, 542] (is '@') [.saveUserinfo] [522] = true
  empty : leads [511] (is ':') [.markh, .saveHost] [521] = true ∧
    leads [511, 522] (is '/') [.markh, .saveHost] [513] = true ∧
    leads [522] (is ':') [.markh, .saveHost] [514] = true
  port : leads [521] digit [.markh] [542] = true ∧ leads [542] digit [] [542] = true ∧
    leads [542] (is '/') [.savePort, .markh] [513] = true ∧ leads [514] digit [.markh] [515] = true ∧
    leads [515] digit [] [515] = true ∧ leads [515] (is '/') [.savePort, .markh] [513] = true
  scheme : leads [451] alpha [.marku] [508] = true ∧ leads [508] schemeByte [] [508] = true ∧
    leads [508] (is ':') [.saveScheme] [509] = true ∧ leads [509] (is '/') [] [510] = true ∧
    leads [510] (is '/') [] [511] = true
  path : readsText [513] (segmentChar ++ is '/') 243 244 = true ∧
    leads [513] (is '?') [.savePath] [456] = true ∧ leads [513] (is '#') [.savePath] [453] = true
  query : readsText [457] queryByte 7 8 = true ∧ leads [456] queryByte [.marku] [457] = true ∧
    leads [456] (is '%') [.marku] [7] = true ∧ leads [457] (is '#') [.saveQuery] [453] = true
  fragment : readsText [454] queryByte 1 2 = true ∧ leads [453] queryByte [.marku] [454] = true ∧
    leads [453] (is '%') [.marku] [1] = true

/-! ## The pieces of a text -/

section

variable {cast : Bytes → Option UInt16} {text xs ys zs : Bytes} {p m : Nat} {u : Uri}

/-- An arc into a single state. -/
theorem exec_leads {S : List Nat} {c : Http.Class} {q q' : Nat} {as : List Action} {b : UInt8}
    (h : leads S c as [q'] = true) (hq : q ∈ S) (hb : c.contains false b = true) (s : Option Creating) :
    machine.exec (step cast text) q p (b :: ys) s =
      machine.exec (step cast text) q' (p + 1) ys (perform (step cast text) as p s) := by
  obtain ⟨q'', hq'', hstep⟩ := exec_of_leads h hq hb
  rw [List.mem_singleton.mp hq''] at hstep
  exact hstep p ys s

theorem take_piece (h : text.drop m = xs ++ ys) : (text.drop m).take (m + xs.length - m) = xs := by
  rw [h, Nat.add_sub_cancel_left, List.take_left]

theorem drop_piece (h : text.drop m = xs ++ ys) : text.drop (m + xs.length) = ys := by
  rw [← List.drop_drop, h, List.drop_left]

/-- What has failed stays so. -/
theorem exec_none (q : Nat) (p : Nat) (bs : Bytes) : (machine.exec (step cast text) q p bs none).acc = none := by
  have hperform : ∀ (as : List Action) p, perform (step cast text) as p none = none := fun as p => by
    induction as with
    | nil => rfl
    | cons a as ih => exact ih
  induction bs generalizing q p with
  | nil => rfl
  | cons b bs ih =>
    cases harc : machine q b with
    | none => exact congrArg Exit.acc (exec_of_none harc)
    | some arc =>
      cases hs : arc.stops with
      | true => exact (congrArg Exit.acc (exec_of_stops harc hs)).trans (hperform _ _)
      | false =>
        rw [exec_of_goes harc hs, hperform]
        exact ih _ _

/-- Bytes of a class, in a state that they do not leave. -/
theorem exec_bytes {q : Nat} {c : Http.Class} (h : leads [q] c [] [q] = true) {bs : Bytes}
    (hbs : ∀ b ∈ bs, c.contains false b = true) (s : Option Creating) :
    machine.exec (step cast text) q p (bs ++ ys) s = machine.exec (step cast text) q (p + bs.length) ys s := by
  induction bs generalizing p with
  | nil => rfl
  | cons b bs ih =>
    rw [List.cons_append, exec_leads h List.mem_cons_self (hbs b List.mem_cons_self)]
    refine (ih fun b' hb' => hbs b' (List.mem_cons_of_mem _ hb')).trans ?_
    rw [List.length_cons, Nat.add_assoc, Nat.add_comm 1]

/-- A scheme and the two slashes. -/
theorem exec_scheme (r : Reads) {b : UInt8} {rest : Bytes} (hb : alpha.contains false b = true)
    (hrest : ∀ b ∈ rest, schemeByte.contains false b = true)
    (htext : text.drop 0 = (b :: rest) ++ 58 :: 47 :: 47 :: ys) :
    machine.exec (step cast text) 451 0 (b :: (rest ++ 58 :: 47 :: 47 :: ys)) (some ({}, none)) =
      machine.exec (step cast text) 511 ((b :: rest).length + 3) ys (some ({ scheme := b :: rest }, none)) := by
  obtain ⟨hfirst, hchar, hcolon, hslash, hslash'⟩ := r.scheme
  have hsave : perform (step cast text) [.saveScheme] (0 + (b :: rest).length)
      (perform (step cast text) [.marku] 0 (some ({}, none))) = some ({ scheme := b :: rest }, none) :=
    congrArg (fun x => some (({ scheme := x } : Uri), none)) (take_piece htext)
  rw [exec_leads hfirst List.mem_cons_self hb, exec_bytes hchar hrest,
    exec_leads hcolon List.mem_cons_self (by decide), exec_leads hslash List.mem_cons_self (by decide),
    exec_leads hslash' List.mem_cons_self (by decide)]
  rw [show 0 + 1 + rest.length = 0 + (b :: rest).length by rw [List.length_cons]; omega, hsave, Nat.zero_add]
  rfl

/-! ## The host -/

/-- The states in which a host may begin. -/
def hostBegins : List Nat := [511, 522]

variable (cast text p u) in
/-- A host that is not empty, up to what follows it. -/
theorem exec_host_char (r : Reads) {q : Nat} (hq : q ∈ hostBegins) {host : Bytes} (hhost : Text false regChar host)
    (hne : host ≠ []) (mark : Option Nat) :
    ∃ q' ∈ (if q = 511 then authorityStates else hostStates), ∀ ys,
      machine.exec (step cast text) q p (host ++ ys) (some (u, mark)) =
        machine.exec (step cast text) q' (p + host.length) ys (some (u, some p)) := by
  rcases List.mem_cons.mp hq with rfl | hq
  · obtain ⟨hreads, hchar, hpct, -⟩ := r.authority
    obtain ⟨q', hq', hrun⟩ := exec_firstText (f := step cast text) hreads hchar hpct hhost hne
    exact ⟨q', hq', fun ys => hrun p ys _⟩
  · obtain rfl := List.mem_singleton.mp hq
    obtain ⟨hreads, hchar, hpct, -⟩ := r.host
    obtain ⟨q', hq', hrun⟩ := exec_firstText (f := step cast text) hreads hchar hpct hhost hne
    exact ⟨q', hq', fun ys => hrun p ys _⟩

/-- A host and the slash behind it. -/
theorem exec_host (r : Reads) {q : Nat} (hq : q ∈ hostBegins) {host : Bytes} (hhost : Text false regChar host)
    (htext : text.drop p = host ++ 47 :: ys) (mark : Option Nat) :
    machine.exec (step cast text) q p (host ++ 47 :: ys) (some (u, mark)) =
      machine.exec (step cast text) 513 (p + host.length + 1) ys
        (some ({ u with host := host }, some (p + host.length))) := by
  have hsave : perform (step cast text) [.saveHost, .markh] (p + host.length) (some (u, some p)) =
      some ({ u with host := host }, some (p + host.length)) :=
    congrArg (fun x => some (({ u with host := x } : Uri), some (p + host.length))) (take_piece htext)
  by_cases hne : host = []
  · subst hne
    obtain ⟨-, hslash, -⟩ := r.empty
    have hmark : perform (step cast text) [.markh, .saveHost] p (some (u, mark)) =
        some ({ u with host := [] }, some p) := by
      show some (({ u with host := (text.drop p).take (p - p) } : Uri), some p) = _
      rw [Nat.sub_self, List.take_zero]
    exact (exec_leads hslash hq (by decide) _).trans (by rw [hmark]; rfl)
  · obtain ⟨q', hq', hrun⟩ := exec_host_char cast text p u r hq hhost hne mark
    rw [hrun]
    rcases List.mem_cons.mp hq with rfl | hq
    · obtain ⟨-, -, -, -, -, hslash⟩ := r.authority
      rw [exec_leads hslash hq' (by decide), hsave]
    · obtain rfl := List.mem_singleton.mp hq
      obtain ⟨-, -, -, -, hslash⟩ := r.host
      rw [exec_leads hslash hq' (by decide), hsave]

theorem act_savePort {fpc : Nat} (hne : fpc ≠ m) (hcast : cast (cString (text.drop m)) = none) :
    act cast text .savePort fpc (u, some m) = none := by
  show (if fpc = m then _ else _) = none
  rw [if_neg hne]
  show (cast (cString (text.drop m))).bind _ = none
  rw [hcast, Option.bind_none]

/-- A port: the action behind it fails, because the C string at the mark goes on with the path. -/
theorem exec_port (hcast : ∀ s : Bytes, 47 ∈ s → cast s = none) {q₁ q₂ : Nat}
    (hfirst : leads [q₁] digit [.markh] [q₂] = true) (hdigit : leads [q₂] digit [] [q₂] = true)
    (hslash : leads [q₂] (is '/') [.savePort, .markh] [513] = true) {port : Bytes}
    (hport : ∀ b ∈ port, digit.contains false b = true) (hne : port ≠ []) (htext : text.drop p = port ++ 47 :: ys)
    (mark : Option Nat) : (machine.exec (step cast text) q₁ p (port ++ 47 :: ys) (some (u, mark))).acc = none := by
  have hfails : cast (cString (text.drop p)) = none := by
    refine hcast _ ?_
    have hnul : ∀ b ∈ port, (b != 0) = true := fun b hb =>
      bne_iff_ne.mpr fun h => absurd (h ▸ hport b hb) (by decide)
    rw [htext, cString, List.takeWhile_append_of_pos hnul]
    exact List.mem_append_right _ List.mem_cons_self
  obtain ⟨b, rest, rfl⟩ := List.exists_cons_of_ne_nil hne
  rw [List.cons_append, exec_leads hfirst List.mem_cons_self (hport b List.mem_cons_self),
    exec_bytes hdigit fun b' hb' => hport b' (List.mem_cons_of_mem _ hb'),
    exec_leads hslash List.mem_cons_self (by decide)]
  have hperform : perform (step cast text) [.savePort, .markh] (p + 1 + rest.length)
      (perform (step cast text) [.markh] p (some (u, mark))) = none :=
    congrArg (step cast text .markh _) (act_savePort (show p + 1 + rest.length ≠ p by omega) hfails)
  rw [hperform]
  exact exec_none _ _ _

/-- A host with its port. -/
theorem exec_hostPort (r : Reads) (hcast : ∀ s : Bytes, 47 ∈ s → cast s = none) {q : Nat} (hq : q ∈ hostBegins)
    {host port : Bytes} (hhost : Text false regChar host) (hport : ∀ b ∈ port, digit.contains false b = true)
    (hne : port ≠ []) (htext : text.drop p = host ++ 58 :: (port ++ 47 :: ys)) (mark : Option Nat) :
    (machine.exec (step cast text) q p (host ++ 58 :: (port ++ 47 :: ys)) (some (u, mark))).acc = none := by
  have hbehind : text.drop (p + host.length + 1) = port ++ 47 :: ys := by
    rw [← List.drop_drop, drop_piece htext]
    rfl
  obtain ⟨hcolon, -, hcolon'⟩ := r.empty
  obtain ⟨hfirst, hdigit, hslash, hfirst', hdigit', hslash'⟩ := r.port
  by_cases hhostNe : host = []
  · subst hhostNe
    rcases List.mem_cons.mp hq with rfl | hq
    · rw [List.nil_append, exec_leads hcolon List.mem_cons_self (by decide)]
      exact exec_port hcast hfirst hdigit hslash hport hne hbehind _
    · obtain rfl := List.mem_singleton.mp hq
      rw [List.nil_append, exec_leads hcolon' List.mem_cons_self (by decide)]
      exact exec_port hcast hfirst' hdigit' hslash' hport hne hbehind _
  · obtain ⟨q', hq', hrun⟩ := exec_host_char cast text p u r hq hhost hhostNe mark
    rw [hrun]
    rcases List.mem_cons.mp hq with rfl | hq
    · obtain ⟨-, -, -, -, hcolon, -⟩ := r.authority
      rw [exec_leads hcolon hq' (by decide)]
      exact exec_port hcast hfirst hdigit hslash hport hne hbehind _
    · obtain rfl := List.mem_singleton.mp hq
      obtain ⟨-, -, -, hcolon, -⟩ := r.host
      rw [exec_leads hcolon hq' (by decide)]
      exact exec_port hcast hfirst' hdigit' hslash' hport hne hbehind _

/-! ## The user information -/

/-- What is kept: behind the first colon a digit moves the mark, as if a port began there. -/
def keptUserInfo (info : Bytes) : Bytes :=
  match info.dropWhile (· != 58) with
  | _ :: b :: rest => if digit.contains false b then b :: rest else info
  | _ => info

theorem dropWhile_ne_colon {name : Bytes} (rest : Bytes) (h : 58 ∉ name) :
    (name ++ 58 :: rest).dropWhile (· != 58) = 58 :: rest := by
  have hall : ∀ b ∈ name, (b != 58) = true := fun b hb => bne_iff_ne.mpr fun heq => h (heq ▸ hb)
  rw [List.dropWhile_append_of_pos hall]
  rfl

theorem keptUserInfo_of_notMem {info : Bytes} (h : 58 ∉ info) : keptUserInfo info = info := by
  have hdrop : info.dropWhile (· != 58) = [] := by
    rw [List.dropWhile_eq_nil_iff]
    exact fun b hb => bne_iff_ne.mpr fun heq => h (heq ▸ hb)
  rw [keptUserInfo, hdrop]

theorem keptUserInfo_digit {name rest : Bytes} {b : UInt8} (h : 58 ∉ name) (hb : digit.contains false b = true) :
    keptUserInfo (name ++ 58 :: b :: rest) = b :: rest := by
  rw [keptUserInfo, dropWhile_ne_colon _ h]
  exact if_pos hb

theorem keptUserInfo_other {name rest : Bytes} (h : 58 ∉ name)
    (hrest : ∀ b rest', rest = b :: rest' → digit.contains false b ≠ true) :
    keptUserInfo (name ++ 58 :: rest) = name ++ 58 :: rest := by
  rw [keptUserInfo, dropWhile_ne_colon _ h]
  cases rest with
  | nil => rfl
  | cons b rest => exact if_neg (hrest b rest rfl)

theorem userinfo_split {info : Bytes} (h : Text false userinfoChar info) :
    (Text false regChar info ∧ 58 ∉ info) ∨
      ∃ name rest, Text false regChar name ∧ 58 ∉ name ∧ Text false userinfoChar rest ∧ info = name ++ 58 :: rest := by
  have hxdigit : ∀ {b : UInt8}, xdigit.contains false b = true → 58 ≠ b := fun hb heq =>
    absurd (heq ▸ hb) (by decide)
  induction h with
  | nil => exact .inl ⟨.nil, List.not_mem_nil⟩
  | @char b rest hb hrest ih =>
    by_cases hcolon : b = 58
    · exact .inr ⟨[], rest, .nil, List.not_mem_nil, hrest, by rw [hcolon]; rfl⟩
    · have hb' : regChar.contains false b = true := by
        refine contains_of_split (is ':') (by decide) hb fun h => hcolon ?_
        simp only [Class.contains, is, byte, Span.contains, List.any_cons, List.any_nil, Bool.or_false,
          Bool.and_eq_true, decide_eq_true_eq] at h
        exact UInt8.toNat_inj.mp (Nat.le_antisymm h.1.2 h.1.1)
      rcases ih with ⟨hall, hnone⟩ | ⟨name, rest', hname, hnone, hrest', rfl⟩
      · exact .inl ⟨.char hb' hall, fun hmem => (List.mem_cons.mp hmem).elim (fun h => hcolon h.symm) hnone⟩
      · exact .inr ⟨b :: name, rest', .char hb' hname,
          fun hmem => (List.mem_cons.mp hmem).elim (fun h => hcolon h.symm) hnone, hrest', rfl⟩
  | @pct x y rest hx hy _ ih =>
    have hnot : ∀ {bs : Bytes}, 58 ∉ bs → 58 ∉ 37 :: x :: y :: bs := fun h hmem => by
      rcases List.mem_cons.mp hmem with h' | hmem
      · exact absurd h' (by decide)
      rcases List.mem_cons.mp hmem with h' | hmem
      · exact hxdigit hx h'
      rcases List.mem_cons.mp hmem with h' | hmem
      · exact hxdigit hy h'
      · exact h hmem
    rcases ih with ⟨hall, hnone⟩ | ⟨name, rest', hname, hnone, hrest', rfl⟩
    · exact .inl ⟨.pct hx hy hall, hnot hnone⟩
    · exact .inr ⟨37 :: x :: y :: name, rest', .pct hx hy hname, hnot hnone, hrest', rfl⟩

/-- Behind the first colon, with the mark at the beginning of the user information. -/
theorem exec_password (r : Reads) {info rest : Bytes} (hrest : Text false userinfoChar rest)
    (hp : p = m + info.length + 1) (htext : text.drop m = (info ++ 58 :: rest) ++ 64 :: ys) (hnone : 58 ∉ info) :
    machine.exec (step cast text) 521 p (rest ++ 64 :: ys) (some (u, some m)) =
      machine.exec (step cast text) 522 (p + rest.length + 1) ys
        (some ({ u with userInfo := keptUserInfo (info ++ 58 :: rest) }, none)) := by
  obtain ⟨hreads, hother, hdigit, hpct, hat⟩ := r.password
  have hwhole : ∀ q ∈ [255, 521, 542], machine.exec (step cast text) q (p + rest.length) (64 :: ys) (some (u, some m)) =
      machine.exec (step cast text) 522 (p + rest.length + 1) ys
        (some ({ u with userInfo := info ++ 58 :: rest }, none)) := fun q hq => by
    have hlength : p + rest.length = m + (info ++ 58 :: rest).length := by
      rw [hp, List.length_append, List.length_cons]
      omega
    rw [exec_leads hat hq (by decide), hlength]
    exact congrArg (fun x => machine.exec (step cast text) 522 _ ys (some (({ u with userInfo := x } : Uri), none)))
      (take_piece htext)
  have hsub : ∀ {q}, q ∈ [255, 542] → q ∈ [255, 521, 542] := fun hq => by
    simp only [List.mem_cons, List.not_mem_nil, or_false] at hq ⊢
    omega
  cases hrest with
  | nil =>
    rw [keptUserInfo_other hnone fun b rest' h => absurd h.symm (List.cons_ne_nil b rest')]
    exact hwhole 521 (by decide)
  | @char b rest hb hrest =>
    by_cases hd : digit.contains false b = true
    · rw [keptUserInfo_digit hnone hd, List.cons_append, exec_leads hdigit List.mem_cons_self hd]
      obtain ⟨q', hq', hrun⟩ := exec_text (f := step cast text) hreads hrest (show 542 ∈ [255, 542] by decide)
      have hbehind : text.drop p = (b :: rest) ++ 64 :: ys := by
        rw [hp, Nat.add_assoc, ← List.drop_drop, htext, List.append_assoc]
        simp
      rw [hrun, show p + 1 + rest.length = p + (b :: rest).length by rw [List.length_cons]; omega,
        exec_leads hat (hsub hq') (by decide)]
      exact congrArg (fun x => machine.exec (step cast text) 522 _ ys (some (({ u with userInfo := x } : Uri), none)))
        (take_piece hbehind)
    · rw [keptUserInfo_other hnone fun b' _ h => (List.cons.inj h).1 ▸ hd]
      have hb' : (hostStart ++ is ':').contains false b = true :=
        contains_of_split digit (by decide) hb hd
      obtain ⟨q', hq', hrun⟩ := exec_text (f := step cast text) hreads hrest (show 255 ∈ [255, 542] by decide)
      rw [List.cons_append, exec_leads hother List.mem_cons_self hb', hrun]
      have := hwhole q' (hsub hq')
      rw [List.length_cons] at this ⊢
      rw [Nat.add_assoc p 1, Nat.add_comm 1]
      exact this
  | @pct x y rest hx hy hrest =>
    obtain ⟨q', hq', hrun⟩ := exec_pct (f := step cast text) hreads hpct hx hy
    obtain ⟨q'', hq'', hrun'⟩ := exec_text (f := step cast text) hreads hrest hq'
    rw [keptUserInfo_other hnone fun b' _ h => (List.cons.inj h).1 ▸ (by decide), List.cons_append, List.cons_append,
      List.cons_append, hrun, hrun']
    have := hwhole q'' (hsub hq'')
    rw [List.length_cons, List.length_cons, List.length_cons] at this ⊢
    rw [show p + 3 + rest.length = p + (rest.length + 1 + 1 + 1) by omega]
    exact this

variable (cast u) in
/-- User information that is not empty, and the `@` behind it. What has been taken for a host is stored on the way. -/
theorem exec_userInfo (r : Reads) {info : Bytes} (hinfo : Text false userinfoChar info) (hne : info ≠ [])
    (htext : text.drop p = info ++ 64 :: ys) : ∃ host,
    machine.exec (step cast text) 511 p (info ++ 64 :: ys) (some (u, none)) =
      machine.exec (step cast text) 522 (p + info.length + 1) ys
        (some ({ u with userInfo := keptUserInfo info, host := host }, none)) := by
  have h511 : 511 ∈ hostBegins := List.mem_cons_self
  rcases userinfo_split hinfo with ⟨hall, hnone⟩ | ⟨name, rest, hname, hnone, hrest, rfl⟩
  · obtain ⟨q', hq', hrun⟩ := exec_host_char cast text p u r h511 hall hne none
    obtain ⟨-, -, -, hat, -, -⟩ := r.authority
    refine ⟨u.host, ?_⟩
    rw [hrun, exec_leads hat hq' (by decide), keptUserInfo_of_notMem hnone]
    exact congrArg (fun x => machine.exec (step cast text) 522 _ ys (some (({ u with userInfo := x } : Uri), none)))
      (take_piece htext)
  · -- the name is stored as a host, and the mark stays at its beginning
    refine ⟨name, ?_⟩
    have hpiece : (text.drop p).take (p + name.length - p) = name :=
      take_piece (htext.trans (by rw [List.append_assoc]))
    have hcolon : machine.exec (step cast text) 511 p (name ++ 58 :: (rest ++ 64 :: ys)) (some (u, none)) =
        machine.exec (step cast text) 521 (p + name.length + 1) (rest ++ 64 :: ys)
          (some ({ u with host := name }, some p)) := by
      by_cases hnameNe : name = []
      · subst hnameNe
        obtain ⟨hcolon, -, -⟩ := r.empty
        rw [List.nil_append, exec_leads hcolon List.mem_cons_self (by decide)]
        exact congrArg (fun x => machine.exec (step cast text) 521 _ _ (some (({ u with host := x } : Uri), some p)))
          hpiece
      · obtain ⟨q', hq', hrun⟩ := exec_host_char cast text p u r h511 hname hnameNe none
        obtain ⟨-, -, -, -, hcolon, -⟩ := r.authority
        rw [hrun, exec_leads hcolon hq' (by decide)]
        exact congrArg (fun x => machine.exec (step cast text) 521 _ _ (some (({ u with host := x } : Uri), some p)))
          hpiece
    rw [List.append_assoc, List.cons_append, hcolon, exec_password r hrest rfl htext hnone, List.length_append,
      List.length_cons]
    congr 1
    omega

/-! ## Path, query and fragment -/

/-- A query with its question mark. -/
def printedQuery (query : Bytes) : Bytes := (if query.isEmpty then [] else ascii "?") ++ query

def printedFragment (fragment : Bytes) : Bytes := (if fragment.isEmpty then [] else ascii "#") ++ fragment

theorem printedQuery_of_ne {query : Bytes} (h : query ≠ []) : printedQuery query = 63 :: query := by
  rw [printedQuery, if_neg (by simpa using h)]
  rfl

theorem printedFragment_of_ne {fragment : Bytes} (h : fragment ≠ []) : printedFragment fragment = 35 :: fragment := by
  rw [printedFragment, if_neg (by simpa using h)]
  rfl

theorem finish_input {q : Nat} {s : Creating} {mark : Option Nat} (hfinal : uriParserFirstFinal ≤ q)
    (hperform : perform (step cast text) (eofActions q) p (some s) = some (u, mark)) :
    finish cast text ⟨.input, q, p, some s⟩ = .uri u := by
  show (if q < uriParserFirstFinal then Created.null else _) = _
  rw [if_neg (Nat.not_lt.mpr hfinal), hperform]

/-- The fragment and the end of the text, from a state that stores a piece before either. -/
theorem finish_fragment (r : Reads) {q : Nat} {save : Action} (hq : leads [q] (is '#') [save] [453] = true)
    (heof : eofActions q = [save]) (hfinal : uriParserFirstFinal ≤ q) {s : Creating} (u' : Uri)
    (hsave : ∀ fpc, fpc = p → act cast text save fpc s = some (u', none)) {fragment : Bytes}
    (hfragment : Text false queryByte fragment) (hu : u'.fragment = [])
    (htext : text.drop p = printedFragment fragment) :
    finish cast text (machine.exec (step cast text) q p (printedFragment fragment) (some s)) =
      .uri { u' with fragment := fragment } := by
  by_cases hne : fragment = []
  · subst hne
    have hrun : machine.exec (step cast text) q p (printedFragment []) (some s) = ⟨.input, q, p, some s⟩ := rfl
    have hperform : perform (step cast text) (eofActions q) p (some s) = some (u', none) := heof ▸ hsave p rfl
    rw [hrun, finish_input hfinal hperform, ← hu]
  · obtain ⟨hreads, hchar, hpct⟩ := r.fragment
    obtain ⟨q', hq', hrun⟩ := exec_firstText (f := step cast text) hreads hchar hpct hfragment hne
    obtain rfl := List.mem_singleton.mp hq'
    rw [printedFragment_of_ne hne] at htext ⊢
    have hsaved : perform (step cast text) [save] p (some s) = some (u', none) := hsave p rfl
    have hend := hrun (p + 1) [] (some (u', none))
    rw [List.append_nil] at hend
    rw [exec_leads hq List.mem_cons_self (by decide), hsaved, hend]
    have hpiece : (text.drop (p + 1)).take (p + 1 + fragment.length - (p + 1)) = fragment :=
      take_piece (show text.drop (p + 1) = fragment ++ [] by rw [← List.drop_drop, htext, List.append_nil]; rfl)
    have hstored : perform (step cast text) (eofActions 454) (p + 1 + fragment.length)
        (some (u', some (p + 1))) = some ({ u' with fragment := fragment }, none) :=
      congrArg (fun x => some (({ u' with fragment := x } : Uri), none)) hpiece
    exact finish_input (by decide) hstored

/-- The path from its first slash, and what follows it. -/
theorem finish_path (r : Reads) {rest query fragment : Bytes} (hpath : Text false (segmentChar ++ is '/') rest)
    (hquery : Text false queryByte query) (hfragment : Text false queryByte fragment)
    (hu : u.query = []) (hu' : u.fragment = [])
    (htext : text.drop m = (47 :: rest) ++ (printedQuery query ++ printedFragment fragment)) :
    finish cast text
      (machine.exec (step cast text) 513 (m + 1) (rest ++ (printedQuery query ++ printedFragment fragment))
        (some (u, some m))) = .uri { u with path := 47 :: rest, query := query, fragment := fragment } := by
  obtain ⟨hreads, hquestion, hsharp⟩ := r.path
  obtain ⟨q', hq', hrun⟩ := exec_text (f := step cast text) hreads hpath List.mem_cons_self
  obtain rfl := List.mem_singleton.mp hq'
  have hlength : m + 1 + rest.length = m + (47 :: rest).length := by rw [List.length_cons]; omega
  rw [hrun, hlength]
  have hsave :
      act cast text .savePath (m + (47 :: rest).length) (u, some m) = some ({ u with path := 47 :: rest }, none) :=
    congrArg (fun x => some (({ u with path := x } : Uri), none)) (take_piece htext)
  have hbehind := drop_piece htext
  by_cases hne : query = []
  · subst hne
    refine (finish_fragment r hsharp rfl (by decide) { u with path := 47 :: rest } (fun fpc h => h ▸ hsave)
      hfragment hu' hbehind).trans ?_
    rw [← hu]
  · obtain ⟨hreads, hchar, hpct, hsharp⟩ := r.query
    obtain ⟨q', hq', hrun⟩ := exec_firstText (f := step cast text) hreads hchar hpct hquery hne
    obtain rfl := List.mem_singleton.mp hq'
    rw [printedQuery_of_ne hne] at hbehind ⊢
    have hsaved : perform (step cast text) [.savePath] (m + (47 :: rest).length) (some (u, some m)) =
        some ({ u with path := 47 :: rest }, none) := hsave
    rw [List.cons_append, exec_leads hquestion List.mem_cons_self (by decide), hsaved, hrun]
    have hquery' : text.drop (m + (47 :: rest).length + 1) = query ++ printedFragment fragment := by
      rw [← List.drop_drop, hbehind]
      rfl
    refine finish_fragment r hsharp rfl (by decide) { u with path := 47 :: rest, query := query } (fun fpc h => ?_)
      hfragment hu' (drop_piece hquery')
    rw [h]
    exact congrArg (fun x => some (({ u with path := 47 :: rest, query := x } : Uri), none)) (take_piece hquery')

end

/-! ## The whole text -/

/-- A URI that the grammar has a text for, with a registered name for its host. -/
structure Printable (uri : Uri) : Prop where
  scheme : ∃ b rest, uri.scheme = b :: rest ∧ alpha.contains false b = true ∧
    ∀ b ∈ rest, schemeByte.contains false b = true
  userInfo : Text false userinfoChar uri.userInfo
  host : Text false regChar uri.host
  path : uri.path = [] ∨ ∃ rest, uri.path = 47 :: rest ∧ Text false (segmentChar ++ is '/') rest
  query : Text false queryByte uri.query
  fragment : Text false queryByte uri.fragment

section

variable {cast : Bytes → Option UInt16} {text ys zs : Bytes} {p : Nat} {u : Uri} {uri : Uri}

theorem getPath_cons (h : Printable uri) :
    ∃ rest, uri.getPath = 47 :: rest ∧ Text false (segmentChar ++ is '/') rest := by
  rcases h.path with hnil | ⟨rest, hrest, htext⟩
  · exact ⟨[], by rw [getPath, if_pos (by rw [hnil]; rfl)]; rfl, .nil⟩
  · exact ⟨rest, by rw [getPath, if_neg (by rw [hrest]; exact Bool.false_ne_true), hrest], htext⟩

theorem target_eq : uri.target = uri.getPath ++ (printedQuery uri.query ++ printedFragment uri.fragment) := by
  simp only [target, printedQuery, printedFragment, List.append_assoc]

theorem finish_fault {e : Exit Nat (Option Creating)} (h : e.acc = none) : finish cast text e = .fault := by
  obtain ⟨halt, state, pos, acc⟩ := e
  obtain rfl : acc = none := h
  cases halt <;> rfl

variable (cast u) in
/-- The user information as it is printed, or nothing: then a host may begin. -/
theorem exec_printedUserInfo (r : Reads) {info : Bytes} (hinfo : Text false userinfoChar info) (hu : u.userInfo = [])
    (htext : text.drop p = info ++ ((if info.isEmpty then [] else ascii "@") ++ ys)) :
    ∃ q ∈ hostBegins, ∃ p' host, text.drop p' = ys ∧
      machine.exec (step cast text) 511 p (info ++ ((if info.isEmpty then [] else ascii "@") ++ ys)) (some (u, none)) =
        machine.exec (step cast text) q p' ys
          (some ({ u with userInfo := keptUserInfo info, host := host }, none)) := by
  by_cases hne : info = []
  · subst hne
    refine ⟨511, List.mem_cons_self, p, u.host, htext, ?_⟩
    have hkept : ({ u with userInfo := keptUserInfo [], host := u.host } : Uri) = u := by
      show ({ u with userInfo := [] } : Uri) = u
      rw [← hu]
    rw [hkept]
    rfl
  · rw [if_neg (by simpa using hne)] at htext ⊢
    obtain ⟨host, hrun⟩ := exec_userInfo cast u r hinfo hne htext
    refine ⟨522, by decide, p + info.length + 1, host, ?_, hrun⟩
    rw [← List.drop_drop, drop_piece htext]
    rfl

theorem reads : Reads where
  authority := by decide +kernel
  host := by decide +kernel
  password := by decide +kernel
  empty := by decide +kernel
  port := by decide +kernel
  scheme := by decide +kernel
  path := by decide +kernel
  query := by decide +kernel
  fragment := by decide +kernel

/--
**What `Create` makes of a URI that is printed**: its parts, without a port, and with the path and the user information
as they are taken; and a failure if a port is printed.
-/
theorem create_toString (hcast : ∀ s : Bytes, 47 ∈ s → cast s = none) (h : Printable uri) :
    Create cast uri.toString =
      if uri.isDefaultPort then
        .uri { uri with port := 0, userInfo := keptUserInfo uri.userInfo, path := uri.getPath }
      else .fault := by
  obtain ⟨b, schemeRest, hscheme, hb, hschemeRest⟩ := h.scheme
  obtain ⟨rest, hpath, hrest⟩ := getPath_cons h
  have hprinted : uri.toString = (b :: schemeRest) ++ 58 :: 47 :: 47 :: (uri.userInfo ++
      ((if uri.userInfo.isEmpty then [] else ascii "@") ++ (uri.host ++ (uri.printedPort ++ uri.target)))) := by
    rw [toString, dump, hscheme]
    simp only [List.append_assoc]
    rfl
  have hauthority : uri.toString.drop ((b :: schemeRest).length + 3) = uri.userInfo ++
      ((if uri.userInfo.isEmpty then [] else ascii "@") ++ (uri.host ++ (uri.printedPort ++ uri.target))) := by
    rw [← List.drop_drop, hprinted, List.drop_left]
    rfl
  obtain ⟨q, hq, p, host, hdrop, hrun⟩ := exec_printedUserInfo cast { scheme := b :: schemeRest }
    reads h.userInfo rfl hauthority
  have hstart : machine.exec (step cast uri.toString) uriParserStart 0 uri.toString (some ({}, none)) =
      machine.exec (step cast uri.toString) q p (uri.host ++ (uri.printedPort ++ uri.target))
        (some ({ scheme := b :: schemeRest, userInfo := keptUserInfo uri.userInfo, host := host }, none)) := by
    refine Eq.trans ?_ ((exec_scheme reads hb hschemeRest hprinted).trans hrun)
    exact congrArg (fun bs => machine.exec (step cast uri.toString) 451 0 bs (some ({}, none))) hprinted
  have htarget : uri.target = 47 :: (rest ++ (printedQuery uri.query ++ printedFragment uri.fragment)) := by
    rw [target_eq, hpath]
    rfl
  rw [Create, hstart]
  by_cases hport : uri.isDefaultPort = true
  · rw [printedPort, if_pos hport, List.nil_append, htarget] at hdrop ⊢
    rw [exec_host reads hq h.host hdrop, if_pos hport]
    have hmark : uri.toString.drop (p + uri.host.length) =
        (47 :: rest) ++ (printedQuery uri.query ++ printedFragment uri.fragment) := drop_piece hdrop
    refine (finish_path reads hrest h.query h.fragment rfl rfl hmark).trans ?_
    rw [hpath, hscheme]
  · rw [printedPort, if_neg hport, htarget] at hdrop ⊢
    obtain ⟨d, digits, hdigits⟩ := Client.toDecimal_cons uri.port.toNat
    rw [if_neg hport]
    refine finish_fault (exec_hostPort reads hcast hq h.host (fun b hb => ?_)
      (by rw [hdigits]; exact List.cons_ne_nil _ _) hdrop none)
    have := isDigit_toDecimal b hb
    simp [digit, upTo, bytes, Class.contains, Span.contains, this]

/-- `LexicalCast<uint16_t>` of decimal digits. -/
def digitsCast (s : Bytes) : Option UInt16 :=
  let n := s.foldl (fun n b => 10 * n + (b.toNat - 48)) 0
  if s.isEmpty || !s.all (fun b => 48 ≤ b.toNat && b.toNat ≤ 57) || 65536 ≤ n then none else some (UInt16.ofNat n)

theorem digitsCast_slash {s : Bytes} (h : 47 ∈ s) : digitsCast s = none := by
  have hall : s.all (fun b => 48 ≤ b.toNat && b.toNat ≤ 57) = false := by
    rw [List.all_eq_false]
    exact ⟨47, h, by decide⟩
  rw [digitsCast, hall]
  simp

/-- `http://u:8p@h/p?q` -/
def taggedUri : Uri :=
  { scheme := ascii "http", userInfo := ascii "u:8p", host := ascii "h", path := ascii "/p", query := ascii "q" }

theorem printable_taggedUri (port : UInt16) : Printable { taggedUri with port := port } where
  scheme := ⟨104, [116, 116, 112], rfl, by decide, by decide +kernel⟩
  userInfo := .char (by decide) (.char (by decide) (.char (by decide) (.char (by decide) .nil)))
  host := .char (by decide) .nil
  path := .inr ⟨ascii "p", rfl, .char (by decide) .nil⟩
  query := .char (by decide) .nil
  fragment := .nil

theorem create_toString_taggedUri :
    Create digitsCast taggedUri.toString = .uri { taggedUri with userInfo := ascii "8p" } ∧
      Create digitsCast { taggedUri with port := 8080 }.toString = .fault :=
  have hdefault : taggedUri.isDefaultPort = true := by decide
  have hport : ¬({ taggedUri with port := 8080 } : Uri).isDefaultPort = true := by decide
  ⟨(create_toString (fun _ => digitsCast_slash) (printable_taggedUri 0)).trans (if_pos hdefault),
    (create_toString (fun _ => digitsCast_slash) (printable_taggedUri 8080)).trans (if_neg hport)⟩

end

end Nemo.Net.Uri
