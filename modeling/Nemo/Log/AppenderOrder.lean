import Nemo.Log.AppenderSafety

/-!
# A `FileLogAppender` loses and reorders nothing

What `log` was called with is, at any time, the files, followed by what is being written, by the full
buffers and by the current one. That needs messages that fit into an empty buffer: `append` drops
a longer one, and does not say so.
-/

namespace Nemo.Log

open Http Infra

/-! ## Files -/

theorem Files.contents_rollFile (f : Files) (now : Nat) : (f.rollFile now).contents = f.contents := by
  unfold Files.rollFile
  split
  · show (f.closed ++ [f.current]).flatten ++ [] = f.closed.flatten ++ f.current
    rw [List.flatten_append, List.flatten_singleton, List.append_nil]
  · rfl

/-- `write` adds its bytes behind all others, whether or not it rolls. -/
theorem Files.contents_write (f : Files) (cfg : Config) (now rollNow : Nat) (data : Bytes) :
    (f.write cfg now rollNow data).contents = f.contents ++ data := by
  unfold Files.write
  dsimp only
  have happend : f.closed.flatten ++ (f.current ++ data) = f.contents ++ data :=
    (List.append_assoc ..).symm
  split
  · rw [Files.contents_rollFile]
    exact happend
  · split
    · split
      · rw [Files.contents_rollFile]
        exact happend
      · split <;> exact happend
    · exact happend

/-- What a consumer has taken and not yet written. -/
def ConsumerPc.inFlight : ConsumerPc → List (Option Buffer)
  | .writing rest _ => rest
  | _ => []

namespace Appender

/-! ## Messages on their way -/

/-- The bytes of some buffers. -/
def text (bs : List (Option Buffer)) : Bytes := bs.flatMap fun b => b.elim [] Buffer.bytes

@[simp] theorem text_append (bs cs : List (Option Buffer)) : text (bs ++ cs) = text bs ++ text cs :=
  List.flatMap_append

@[simp] theorem text_nil : text [] = [] := rfl

@[simp] theorem text_cons (b : Buffer) (bs : List (Option Buffer)) :
    text (some b :: bs) = b.bytes ++ text bs := rfl

theorem text_blank {b : Option Buffer} (h : Blank b) : text [b] = [] := by
  rcases h with rfl | rfl <;> rfl

theorem text_remaining (b : Option Buffer) : text (remaining b) = text [b] := by
  unfold remaining
  split
  · split
    · next he =>
      rw [text_cons, Buffer.bytes_of_empty he]
      rfl
    · rfl
  · rfl

variable {T : Type} {s s' : Appender T}

/-- What is in the buffers that `log` fills. -/
def held (s : Appender T) : Bytes := text (s.buffers ++ [s.currBuff])

/-- Every message is in the files, with the consumer, or in the buffers, in this order. -/
structure Accounted (s : Appender T) : Prop where
  live : ∀ c x, s.consumer c = some x → x.pc ≠ .finished →
    s.logged.flatten = s.files.contents ++ text x.pc.inFlight ++ s.held
  quiet : AllFinished s → s.logged.flatten = s.files.contents ++ s.held

/-- The message that is appended in this step fits into an empty buffer. -/
def Fits (s : Appender T) : Act T → Prop
  | .call k _ _ =>
    match s.call k with
    | .logLock str => str.length ≤ execPageSize
    | _ => True
  | _ => True

instance (a : Act T) : Decidable (Fits s a) :=
  match a with
  | .call k _ _ => by
    unfold Fits
    dsimp only
    exact match s.call k with
      | .logLock _ => inferInstance
      | .idle | .startCheck _ | .startStore _ | .startMake _ | .startThread _ | .stopCheck _ | .stopStore _
      | .stopMove _ | .stopJoin _ _ | .destroy | .destroying _ => .isTrue trivial
  | .log _ _ _ | .start _ | .stop _ | .destroy _ | .consume _ _ _ => .isTrue trivial

/-- No call is in progress, and the appender has been stopped or destroyed, or was never started. -/
def Ended (s : Appender T) : Prop := s.running = false ∧ ∀ k, s.call k = .idle

theorem held_drained (h : s.IsDrained) : s.held = [] := by
  unfold held
  rw [show s.buffers = [] from h.buffers, List.nil_append, text_blank h.curr]

/-- What `collect` takes is all that is held. -/
theorem text_collect (h : s.IsStocked) : text s.collect.1 = s.held := by
  have hnext : text (remaining s.nextBuff) = [] := by
    rw [text_remaining, text_blank h.next]
  unfold collect held
  rw [text_append, text_append, text_append, hnext, List.append_nil, text_remaining]

/-- A message that fits is behind all others in the buffers. -/
theorem held_append {str : Bytes} (h : s.IsStocked) (hlen : str.length ≤ execPageSize) :
    (s.append str).held = s.held ++ str := by
  obtain ⟨curr, hcurr, hc, hf⟩ := h.curr
  have hnew : (newBuffer.append str).2.bytes = str := by
    rw [Buffer.append_of_le (b := newBuffer) hlen]
    rfl
  unfold append held
  rw [hcurr]
  dsimp only
  split
  · next hav =>
    rw [text_append, text_append, Buffer.append_of_le (Nat.le_of_lt hav)]
    simp
  · rcases h.next with hnext | hnext <;>
    · rw [hnext]
      simp [hnew]

theorem append_frame (h : s.IsStocked) (str : Bytes) :
    (s.append str).logged = s.logged ++ [str] ∧ (s.append str).files = s.files ∧
      (s.append str).consumer = s.consumer := by
  obtain ⟨_, _, _, -, heq⟩ := append_stocked h str
  rw [heq]
  exact ⟨rfl, rfl, rfl⟩

/-! ## What a step does with the messages -/

variable {k : T} {c : Nat} {x : Consumer}

/-- Only the consumer `c` is not finished, and it moves on to `x`. -/
theorem Accounted.setConsumer (hothers : OthersFinished s c)
    (hcons : s'.consumer = Function.update s.consumer c (some x))
    (heq : s'.logged.flatten = s'.files.contents ++ text x.pc.inFlight ++ s'.held) :
    Accounted s' := by
  constructor
  · intro c' y hy hlive
    rw [hcons] at hy
    by_cases e : c' = c
    · rw [e, Function.update_self, Option.some.injEq] at hy
      exact hy ▸ heq
    · rw [Function.update_of_ne e] at hy
      exact absurd (hothers c' y e hy) hlive
  · intro hall
    have hx := hall c x (by rw [hcons, Function.update_self])
    rw [heq, hx]
    show _ ++ [] ++ _ = _
    rw [List.append_nil]

/-- A message is appended. -/
theorem Accounted.append (h : Accounted s) {str : Bytes} (hst : s.IsStocked)
    (hlen : str.length ≤ execPageSize) : Accounted (s.append str) := by
  obtain ⟨hlogged, hfiles, hcons⟩ := append_frame hst str
  have hflat : (s.append str).logged.flatten = s.logged.flatten ++ str := by
    rw [hlogged, List.flatten_append, List.flatten_singleton]
  constructor
  · intro c x hx hlive
    rw [hcons] at hx
    rw [hflat, h.live c x hx hlive, hfiles, held_append hst hlen]
    exact List.append_assoc ..
  · intro hall
    rw [hflat, h.quiet fun c x hx => hall c x (hcons ▸ hx), hfiles, held_append hst hlen]
    exact List.append_assoc ..

/-- A consumer starts with nothing to write. -/
theorem Accounted.startThread (h : Accounted s) (hi : Inv s) {str : Option Bytes}
    (hk : s.call k = .startThread str) (hcons : s'.consumer = Function.update s.consumer c (some {}))
    (hlogged : s'.logged = s.logged) (hfiles : s'.files = s.files) (hheld : s'.held = s.held) :
    Accounted s' := by
  have hall : AllFinished s := by
    rcases hi.owner (by rw [hk]; rfl) with ⟨_, rfl, -, hall, -⟩ | ⟨c, _, rfl, -, hstop, -⟩
    · exact hall
    · rcases hstop with ⟨dtor, hs, -⟩ | ⟨dtor, hs⟩ <;>
      · rw [hk] at hs
        cases hs
  refine .setConsumer (fun c' y _ hy => hall c' y hy) hcons ?_
  rw [hlogged, hfiles, hheld, h.quiet hall]
  show _ = _ ++ [] ++ _
  rw [List.append_nil]

/-- The consumer takes all that is held, and goes on to write it. -/
theorem swap_inFlight (hsp : Spare x) : ∃ x',
    (s.swap c x).consumer = Function.update s.consumer c (some x') ∧
      text x'.pc.inFlight = s.held ∧ (s.swap c x).held = [] ∧
      (s.swap c x).files = s.files ∧ (s.swap c x).logged = s.logged := by
  obtain ⟨h1, h2, hw⟩ := hsp
  unfold swap
  dsimp only
  rw [h1, h2, hw]
  split <;> exact ⟨_, rfl, rfl, rfl, rfl, rfl⟩

/-- The section under the mutex in the loop. -/
theorem Accounted.swap (h : Accounted s) (hi : Inv s) (hx : s.consumer c = some x)
    (hpc : x.pc = .lock ∨ x.pc = .waiting) : Accounted (s.swap c x) := by
  have hlive : x.pc ≠ .finished := by rcases hpc with e | e <;> rw [e] <;> decide
  have hnone : x.pc.inFlight = [] := by rcases hpc with e | e <;> rw [e] <;> rfl
  obtain ⟨x', hcons, hflight, hheld, hfiles, hlogged⟩ := swap_inFlight (s := s) (c := c)
    (hi.spare hx hpc).1
  refine .setConsumer (hi.live hx hlive).1 hcons ?_
  rw [hlogged, hfiles, hflight, hheld, h.live c x hx hlive, hnone, text_nil, List.append_nil,
    List.append_nil]

/-- Every step of a consumer keeps the account. -/
theorem Accounted.stepConsumer {cfg : Config} {now rollNow : Nat} (h : Accounted s) (hi : Inv s)
    (hx : s.consumer c = some x) (hs : s.stepConsumer cfg c x now rollNow = some s') :
    Accounted s' := by
  have hlive : x.pc ≠ .finished := by
    intro e
    unfold Appender.stepConsumer at hs
    rw [e] at hs
    cases hs
  obtain ⟨hothers, hstate⟩ := hi.live hx hlive
  have heq := h.live c x hx hlive
  unfold Appender.stepConsumer at hs
  obtain ⟨pc, newBuff1, newBuff2, buffsToWrite⟩ := x
  have hsame : ∀ x' : Consumer, text x'.pc.inFlight = text pc.inFlight →
      Accounted (s.setConsumer c x') := fun x' hx' =>
    .setConsumer hothers rfl (by rw [hx']; exact heq)
  cases pc with
  | entry =>
    cases hs
    split
    · exact hsame _ rfl
    · exact ⟨h.live, h.quiet⟩
  | head =>
    dsimp only at hs
    split at hs
    · split at hs <;> cases hs
      · exact hsame _ rfl
      · exact ⟨h.live, h.quiet⟩
    · cases hs
      exact hsame _ rfl
  | lock =>
    dsimp only at hs
    split at hs <;> cases hs
    · exact hsame _ rfl
    · exact h.swap hi hx (.inl rfl)
  | waiting =>
    cases hs
    exact h.swap hi hx (.inr rfl)
  | writing rest final =>
    match rest with
    | [] =>
      cases hs
      cases final <;> exact hsame _ rfl
    | none :: _ =>
      cases hs
      exact ⟨h.live, h.quiet⟩
    | some b :: rest =>
      cases hs
      refine .setConsumer hothers rfl ?_
      show s.logged.flatten = (s.files.write cfg now rollNow b.bytes).contents ++ text rest ++ s.held
      rw [Files.contents_write, List.append_assoc s.files.contents]
      exact heq
  | refill =>
    cases hs
    rw [refill_carries (hi.carries hx rfl)]
    exact hsame _ rfl
  | drain =>
    cases hs
    rcases hstate with ⟨-, ht, -⟩ | ⟨-, hnil, hst⟩
    · exact ht.elim
    · refine .setConsumer hothers rfl ?_
      have hleft : text ([] ++ [left s.currBuff]) = [] := by
        unfold left
        split
        · split
          · next he => exact (List.append_nil _).trans (Buffer.bytes_of_empty he)
          · rfl
        · rfl
      rw [show buffsToWrite = [] from hnil]
      show s.logged.flatten =
        s.files.contents ++ text s.collect.1 ++ text ([] ++ [left s.currBuff])
      rw [hleft, text_collect hst, List.append_nil, heq]
      show _ ++ [] ++ _ = _
      rw [List.append_nil]
  | finished => exact absurd rfl hlive

variable [DecidableEq T]

/-- Every step of a call keeps the account. -/
theorem Accounted.stepCall {cfg : Config} {now rollNow : Nat} (h : Accounted s) (hi : Inv s)
    (hf : Fits s (.call k now rollNow)) (hs : s.stepCall cfg k now rollNow = some s') :
    Accounted s' := by
  unfold Appender.stepCall at hs
  cases hk : s.call k with
  | idle =>
    rw [hk] at hs
    cases hs
  | startCheck str | startStore str | startMake str | stopMove dtor =>
    rw [hk] at hs
    cases hs
    exact ⟨h.live, h.quiet⟩
  | stopCheck dtor | stopStore dtor =>
    rw [hk] at hs
    cases hs
    exact ⟨h.live, h.quiet⟩
  | startThread str =>
    obtain ⟨t, ht, hnot, -⟩ := hi.startThread hk
    rw [hk, ht] at hs
    dsimp only at hs
    rw [if_neg (by rw [hnot]; decide)] at hs
    cases hs
    exact h.startThread hi hk rfl rfl rfl rfl
  | logLock str =>
    unfold Fits at hf
    dsimp only at hf
    rw [hk] at hf hs
    cases hs
    have ha := h.append (hi.stocked hk) hf
    exact ⟨ha.live, ha.quiet⟩
  | stopJoin thread dtor =>
    obtain ⟨t, x, rfl, hst, hx, -⟩ := hi.stopJoin hk
    rw [hk] at hs
    dsimp only at hs
    rw [if_pos hst, hx] at hs
    dsimp only at hs
    split at hs
    · cases hs
      exact ⟨h.live, h.quiet⟩
    · cases hs
  | destroy =>
    rw [hk, collect_drained (hi.drained_destroy hk)] at hs
    cases hs
    exact ⟨h.live, h.quiet⟩
  | destroying rest =>
    have hexp := (hi.calls.ok k).expects
    rw [hk] at hs hexp
    rw [hexp.2] at hs
    cases hs
    exact ⟨h.live, h.quiet⟩

theorem Accounted.begin {pc : CallPc} (h : Accounted s) (hs : s.begin k pc = some s') :
    Accounted s' := by
  unfold Appender.begin at hs
  split at hs
  · split at hs
    · cases hs
    · cases hs
      exact ⟨h.live, h.quiet⟩
  · cases hs

/-- Every orderly step in which the message fits keeps the account. -/
theorem Accounted.step {cfg : Config} {a : Act T} (h : Accounted s) (hi : Inv s) (hf : Fits s a)
    (hs : s.step cfg a = some s') : Accounted s' := by
  unfold Appender.step at hs
  rw [if_neg (by rw [hi.fault]; decide)] at hs
  cases a with
  | log k level str => exact h.begin hs
  | start k | stop k => exact h.begin hs
  | destroy k =>
    obtain ⟨s₁, hs₁, rfl⟩ := Option.map_eq_some_iff.mp hs
    have ha := h.begin hs₁
    exact ⟨ha.live, ha.quiet⟩
  | call k now rollNow => exact h.stepCall hi hf hs
  | consume c now rollNow =>
    dsimp only at hs
    split at hs
    · cases hs
    · next x hx => exact h.stepConsumer hi hx hs

/--
**Nothing is lost, repeated or moved.** When an appender whose messages fit into a buffer has been
stopped or destroyed, its files are the messages in the order in which they were logged.
-/
theorem contents_eq_logged {cfg : Config} {now : Nat}
    (h : (fileLogAppender T cfg now).ReachableBy (fun s a => Orderly s a ∧ Fits s a) s) :
    s.fault = none ∧ (s.Ended → s.files.contents = s.logged.flatten) := by
  have hinv : ∀ s, (fileLogAppender T cfg now).ReachableBy (fun s a => Orderly s a ∧ Fits s a) s →
      Inv s := fun s h =>
    h.invariant (inv_init cfg now) fun _ _ _ hs ha hstep => hs.step ha.1 hstep
  have hacc : Accounted s := by
    refine h.invariant_of hinv ⟨fun c x hx => (by cases hx), fun _ => ?_⟩
      fun _ _ _ hi hs ha hstep => hs.step hi ha.2 hstep
    exact (congrArg (· ++ []) (Files.contents_rollFile {} now)).symm
  refine ⟨(hinv s h).fault, fun ⟨hr, hidle⟩ => ?_⟩
  have hb : ∀ j, (s.call j).busy = false := fun j => by
    rw [hidle j]
    rfl
  obtain ⟨-, hall, hd⟩ := (hinv s h).quiet hr hb
  rw [hacc.quiet hall, held_drained hd, List.append_nil]

/-! ## Messages of any length -/

/-- Calls of `log` at a level that is enabled, and steps of the consumers. -/
def Logging (cfg : Config) : Act T → Prop
  | .log _ level _ => cfg.level.toNat ≤ level.toNat
  | .call _ _ _ | .consume _ _ _ => True
  | .start _ | .stop _ | .destroy _ => False

/-- Calls of `log`, and then one of `stop` or of the destructor. -/
def LogsThenEnds (cfg : Config) (as : List (Act T)) : Prop :=
  ∃ (logs rest : List (Act T)) (k : T), (∀ a ∈ logs, Logging cfg a) ∧
    (∀ a ∈ rest, (∃ j n m, a = .call j n m) ∨ ∃ c n m, a = .consume c n m) ∧
    (as = logs ++ .stop k :: rest ∨ as = logs ++ .destroy k :: rest)

/-- One `log`, and `stop` when the consumer is behind its first assertion. -/
def logAndStop (str : Bytes) : List (Act Unit) :=
  [.log () .debug str] ++ .replicate 5 (.call () 1 1) ++ [.consume 0 1 1] ++ .stop () ::
    (.replicate 3 (.call () 1 1) ++ .replicate 4 (.consume 0 1 1) ++ [.call () 1 1])

theorem logsThenEnds_logAndStop (str : Bytes) : LogsThenEnds {} (logAndStop str) := by
  refine ⟨[.log () .debug str] ++ .replicate 5 (.call () 1 1) ++ [.consume 0 1 1], _, (), ?_, ?_,
    .inl rfl⟩
  · intro a ha
    rcases List.mem_append.mp ha with ha | ha
    · rcases List.mem_append.mp ha with ha | ha
      · rw [List.mem_singleton.mp ha]
        exact Nat.le_refl _
      · rw [List.eq_of_mem_replicate ha]
        trivial
    · rw [List.mem_singleton.mp ha]
      trivial
  · intro a ha
    rcases List.mem_append.mp ha with ha | ha
    · rcases List.mem_append.mp ha with ha | ha
      · exact .inl ⟨_, _, _, List.eq_of_mem_replicate ha⟩
      · exact .inr ⟨_, _, _, List.eq_of_mem_replicate ha⟩
    · exact .inl ⟨_, _, _, List.mem_singleton.mp ha⟩

/-- A message of 4097 bytes is in no file. -/
theorem contents_ne_logged : ¬ ∀ as s, LogsThenEnds {} as →
    (fileLogAppender Unit {} 1).run (fileLogAppender Unit {} 1).init as = some s →
    (∀ k, s.call k = .idle) → s.files.contents = s.logged.flatten := by
  intro h
  have hrun : ((fileLogAppender Unit {} 1).run (fileLogAppender Unit {} 1).init
      (logAndStop (.replicate 4097 97))).map
        (fun s => (s.files.contents, s.logged.flatten.isEmpty, s.call ())) = some ([], false, .idle) := by
    decide +kernel
  obtain ⟨s, hs, hq⟩ := Option.map_eq_some_iff.mp hrun
  rw [Prod.mk.injEq, Prod.mk.injEq] at hq
  have heq := h _ s (logsThenEnds_logAndStop _) hs fun _ => hq.2.2
  rw [← heq, hq.1] at hq
  cases hq.2.1

theorem contents_eq_logged_logAndStop : ∃ s, (fileLogAppender Unit {} 1).runBy
      (fun s a => Orderly s a ∧ Fits s a) (fileLogAppender Unit {} 1).init (logAndStop [97]) =
        some s ∧ s.logged = [[97]] ∧ s.fault = none ∧
      (s.Ended → s.files.contents = s.logged.flatten) := by
  have hrun : ((fileLogAppender Unit {} 1).runBy (fun s a => Orderly s a ∧ Fits s a)
      (fileLogAppender Unit {} 1).init (logAndStop [97])).map Appender.logged = some [[97]] := by
    decide +kernel
  obtain ⟨s, hs, hq⟩ := Option.map_eq_some_iff.mp hrun
  exact ⟨s, hs, hq, contents_eq_logged (.of_runBy .init hs)⟩

end Appender

end Nemo.Log
