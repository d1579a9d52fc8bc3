import Mathlib.Data.List.Forall2
import Mathlib.Data.List.Lex
import Mathlib.Data.List.Nodup
import Nemo.Log.Logger

/-!
# Reloading the `logs` config

The listener of `gLogDefines` in `src/log/log.cc`. It goes over the new definitions in the order of
their names, and then over the old ones. A logger is looked up for a definition that is new, and
for one that differs from the old one of the same name; for a definition that has not changed `logger`
stays null, and is used all the same.
-/

namespace Nemo.Log

open Http

/-! ## Definitions -/

/-- `LogAppenderDefine`. A file appender has type 1, a console appender type 2. -/
structure LogAppenderDefine where
  type : Int32 := 0
  level : LogLevel := .all
  format : Bytes := []
  file : Bytes := []
  flushInterval : UInt64 := 3
  rollThreshold : Int64 := 1000 * 1000 * 1000
  checkThreshold : UInt64 := 1024
  deriving DecidableEq

/-- `operator==`, which leaves out the two thresholds. -/
def LogAppenderDefine.eq (a b : LogAppenderDefine) : Bool :=
  a.type == b.type && a.level == b.level && a.format == b.format && a.file == b.file &&
    a.flushInterval == b.flushInterval

/-- `operator==` of `std::vector<LogAppenderDefine>`. -/
def eqAppenders : List LogAppenderDefine → List LogAppenderDefine → Bool
  | [], [] => true
  | a :: as, b :: bs => a.eq b && eqAppenders as bs
  | _, _ => false

/-- `LogDefine`. -/
structure LogDefine where
  level : LogLevel := .all
  appenders : List LogAppenderDefine := []
  name : Bytes := []
  format : Bytes := []

/-- `operator==`. -/
def LogDefine.eq (a b : LogDefine) : Bool :=
  a.name == b.name && a.level == b.level && eqAppenders a.appenders b.appenders &&
    a.format == b.format

/-- `operator<`. -/
def LogDefine.lt (a b : LogDefine) : Bool := decide (a.name < b.name)

/-- A `std::set<LogDefine>`. -/
structure LogDefines where
  toList : List LogDefine
  sorted : toList.Pairwise fun a b => a.name < b.name

/-- `std::set::find`: the element that is neither less nor greater. -/
def LogDefines.find (s : LogDefines) (d : LogDefine) : Option LogDefine :=
  s.toList.find? fun e => !e.lt d && !d.lt e

/-! ## The listener -/

/-- `GetLogFileName` asserts that the name has a slash. -/
def hasSlash (file : Bytes) : Bool := file.contains 0x2f

/-- The first part of the inner loop: a new appender, before it is added to the logger. -/
def LogAppenderDefine.make (appender : LogAppenderDefine) : Except Fault LogAppender :=
  let level (newAppender : LogAppender) : LogAppender := { newAppender with level := appender.level }
  let format (newAppender : LogAppender) : LogAppender :=
    if appender.format.isEmpty then newAppender
    else
      let fmt := LogFormatter.parse appender.format
      if fmt.hasError then newAppender else newAppender.setFormatter (some fmt)
  if appender.type = 1 then
    let file := Target.file appender.file appender.flushInterval appender.rollThreshold
      appender.checkThreshold.toUInt32
    if hasSlash appender.file then .ok (format (level { target := file })) else .error .assertion
  else if appender.type = 2 then .ok (format (level { target := .stdout }))
  else .error .nullAppender

/-- The inner loop, on the logger of the name. -/
def addAppenders (name : Bytes) : List LogAppenderDefine → LoggerManager → Except Fault LoggerManager
  | [], m => .ok m
  | appender :: appenders, m =>
    match appender.make with
    | .error e => .error e
    | .ok a =>
      let (x, m) := m.newAppender a
      let (logger, m) := m.getLogger name
      addAppenders name appenders (m.addAppender name logger x)

/-- One round of the loop over the new value. -/
def applyDefine (oldValue : LogDefines) (logDefine : LogDefine) (m : LoggerManager) :
    Except Fault LoggerManager :=
  let changed :=
    match oldValue.find logDefine with
    | none => true
    | some iter => !logDefine.eq iter
  if changed then
    let (logger, m) := m.getLogger logDefine.name
    let logger := { logger with level := logDefine.level }
    let m := m.setLogger logDefine.name logger
    let formatted :=
      if logDefine.format.isEmpty then .ok m else m.setFormat logDefine.name logger logDefine.format
    match formatted with
    | .error e => .error e
    | .ok m =>
      let (logger, m) := m.getLogger logDefine.name
      addAppenders logDefine.name logDefine.appenders (m.clearAppenders logDefine.name logger)
  else .error .nullLogger

/-- The loop over the new value. -/
def applyDefines (oldValue : LogDefines) : List LogDefine → LoggerManager → Except Fault LoggerManager
  | [], m => .ok m
  | d :: ds, m =>
    match applyDefine oldValue d m with
    | .error e => .error e
    | .ok m => applyDefines oldValue ds m

/-- One round of the loop over the old value. -/
def removeDefine (newValue : LogDefines) (m : LoggerManager) (logDefine : LogDefine) : LoggerManager :=
  match newValue.find logDefine with
  | some _ => m
  | none =>
    let (logger, m) := m.getLogger logDefine.name
    let logger := { logger with level := .all }
    (m.setLogger logDefine.name logger).clearAppenders logDefine.name logger

/-- The listener. -/
def onChange (oldValue newValue : LogDefines) (m : LoggerManager) : Except Fault LoggerManager :=
  match applyDefines oldValue newValue.toList m with
  | .error e => .error e
  | .ok m => .ok (oldValue.toList.foldl (removeDefine newValue) m)

/-! ## Appenders as they are defined -/

/-- A format that is given, and valid. -/
def Given (format : Bytes) : Prop := format ≠ [] ∧ (LogFormatter.parse format).hasError = false

instance (format : Bytes) : Decidable (Given format) := inferInstanceAs (Decidable (_ ∧ _))

/-- The appender of a logger with formatter `f` is the one that `d` defines. -/
structure IsDefinedBy (d : LogAppenderDefine) (f : Option LogFormatter) (a : LogAppender) : Prop where
  target :
    (d.type = 1 ∧ ∃ c, c.toUInt64 = d.checkThreshold ∧
      a.target = .file d.file d.flushInterval d.rollThreshold c) ∨ (d.type = 2 ∧ a.target = .stdout)
  level : a.level = d.level
  formatter : a.formatter = if Given d.format then some (.parse d.format) else f

/-- The appender can be made, and its threshold fits the parameter it is passed in. -/
def LogAppenderDefine.Makeable (d : LogAppenderDefine) : Prop :=
  (d.type = 1 ∧ hasSlash d.file = true ∧ d.checkThreshold.toUInt32.toUInt64 = d.checkThreshold) ∨
    d.type = 2

instance (d : LogAppenderDefine) : Decidable d.Makeable := inferInstanceAs (Decidable (_ ∨ _))

/-- The definition's level and format, put on a new appender. -/
def LogAppenderDefine.dress (d : LogAppenderDefine) (target : Target) : LogAppender :=
  if Given d.format then
    { target := target, level := d.level, formatter := some (.parse d.format), hasFormatter := true }
  else { target := target, level := d.level }

theorem make_eq (d : LogAppenderDefine) :
    d.make =
      if d.type = 1 then
        if hasSlash d.file then
          .ok (d.dress (.file d.file d.flushInterval d.rollThreshold d.checkThreshold.toUInt32))
        else .error .assertion
      else if d.type = 2 then .ok (d.dress .stdout)
      else .error .nullAppender := by
  have hdress : ∀ target, (if d.format.isEmpty then
      ({ target := target, level := d.level } : LogAppender)
    else if (LogFormatter.parse d.format).hasError then { target := target, level := d.level }
    else LogAppender.setFormatter { target := target, level := d.level }
      (some (LogFormatter.parse d.format))) = d.dress target := by
    intro target
    unfold LogAppenderDefine.dress Given
    rcases hf : d.format with _ | ⟨c, cs⟩
    · rfl
    · by_cases he : (LogFormatter.parse (c :: cs)).hasError = true
      · simp [he]
      · simp [he, LogAppender.setFormatter]
  unfold LogAppenderDefine.make
  dsimp only
  rw [hdress, hdress]

theorem isDefinedBy_dress {d : LogAppenderDefine} {target : Target} (f : Option LogFormatter)
    (h : (d.type = 1 ∧ ∃ c, c.toUInt64 = d.checkThreshold ∧
      target = .file d.file d.flushInterval d.rollThreshold c) ∨ (d.type = 2 ∧ target = .stdout)) :
    IsDefinedBy d f (LoggerManager.inherit f (d.dress target)) := by
  unfold LoggerManager.inherit LogAppenderDefine.dress
  by_cases hg : Given d.format
  · rw [if_pos hg, if_neg (by simp)]
    exact ⟨h, rfl, (if_pos hg).symm⟩
  · rw [if_neg hg, if_pos rfl]
    exact ⟨h, rfl, (if_neg hg).symm⟩

/-- A new appender that has joined a logger with a formatter has one as well. -/
theorem hasFormatter_inherit_dress {f : Option LogFormatter} (hf : f.isSome = true)
    (d : LogAppenderDefine) (target : Target) :
    (LoggerManager.inherit f (d.dress target)).hasFormatter = true := by
  unfold LoggerManager.inherit LogAppenderDefine.dress
  by_cases hg : Given d.format
  · rw [if_pos hg, if_neg (by simp)]
  · rw [if_neg hg, if_pos rfl]
    exact hf

theorem make_of_makeable {d : LogAppenderDefine} (h : d.Makeable) :
    ∃ target, d.make = .ok (d.dress target) ∧
      ∀ f, IsDefinedBy d f (LoggerManager.inherit f (d.dress target)) := by
  rw [make_eq]
  rcases h with ⟨ht, hs, hc⟩ | ht
  · rw [if_pos ht, if_pos hs]
    exact ⟨_, rfl, fun f => isDefinedBy_dress f (.inl ⟨ht, _, hc, rfl⟩)⟩
  · rw [if_neg (by rw [ht]; decide), if_pos ht]
    exact ⟨_, rfl, fun f => isDefinedBy_dress f (.inr ⟨ht, rfl⟩)⟩

/-- Conversely, an appender that was made as it is defined could be made. -/
theorem makeable_of_make {d : LogAppenderDefine} {a b : LogAppender} {f : Option LogFormatter}
    (h : d.make = .ok a) (hb : IsDefinedBy d f b) : d.Makeable := by
  rw [make_eq] at h
  rcases hb.target with ⟨ht, c, hc, -⟩ | ⟨ht, -⟩
  · rw [if_pos ht] at h
    refine .inl ⟨ht, ?_, ?_⟩
    · by_contra hs
      rw [if_neg hs] at h
      cases h
    · rw [← hc, UInt32.toUInt32_toUInt64]
  · exact .inr ht

/-! ## Loggers as they are defined -/

open LoggerManager (Frame frame_setLogger frame_getLogger getLogger_of_some getLogger_loggers
  loggers_setLogger_self addAppender_newAppender setFormat_eq inherit)

/-- The appenders `xs` are those that `ds` defines, one by one. -/
def Defined (m : LoggerManager) (f : Option LogFormatter) (ds : List LogAppenderDefine)
    (xs : List AppenderId) : Prop :=
  List.Forall₂ (fun d x => x < m.nextAppender ∧ IsDefinedBy d f (m.appender x)) ds xs

/-- The logger has the level, the format (when it is valid and given) and the appenders of `d`. -/
def AsDefined (d : LogDefine) (m : LoggerManager) : Prop :=
  ∃ l, m.loggers d.name = some l ∧ l.level = d.level ∧
    (Given d.format → l.formatter = some (.parse d.format)) ∧
    Defined m l.formatter d.appenders l.appenders

theorem Defined.of_frame {m m' : LoggerManager} {S : Bytes → Prop} {f : Option LogFormatter}
    {ds : List LogAppenderDefine} {xs : List AppenderId} (h : Defined m f ds xs)
    (hf : Frame S m m') : Defined m' f ds xs := by
  refine List.Forall₂.imp (fun d x hx => ?_) h
  exact ⟨Nat.lt_of_lt_of_le hx.1 hf.next, (hf.appender x hx.1).symm ▸ hx.2⟩

theorem AsDefined.of_frame {d : LogDefine} {m m' : LoggerManager} {S : Bytes → Prop}
    (h : AsDefined d m) (hf : Frame S m m') (hS : ¬ S d.name) : AsDefined d m' := by
  obtain ⟨l, hl, hlevel, hformat, happ⟩ := h
  exact ⟨l, (hf.loggers _ hS).trans hl, hlevel, hformat, happ.of_frame hf⟩

/-- The inner loop adds the appenders that are defined. -/
theorem addAppenders_spec {name : Bytes} : ∀ {ds : List LogAppenderDefine} {m : LoggerManager}
    {l : Logger}, m.loggers name = some l → (∀ d ∈ ds, d.Makeable) →
    ∃ m' xs, addAppenders name ds m = .ok m' ∧ Frame (· = name) m m' ∧
      m'.loggers name = some { l with appenders := l.appenders ++ xs } ∧
      Defined m' l.formatter ds xs ∧
      (l.formatter.isSome = true →
        ∀ x ∈ xs, x < m'.nextAppender ∧ (m'.appender x).hasFormatter = true)
  | [], m, l, hl, _ =>
    ⟨m, [], rfl, Frame.refl _ m, by rw [List.append_nil]; exact hl, .nil,
      fun _ x hx => absurd hx List.not_mem_nil⟩
  | d :: ds, m, l, hl, hd => by
    obtain ⟨target, hmake, hdef⟩ := make_of_makeable (hd d List.mem_cons_self)
    have hget : (m.newAppender (d.dress target)).2.getLogger name =
        (l, (m.newAppender (d.dress target)).2) := getLogger_of_some hl
    have heq : (m.newAppender (d.dress target)).2.addAppender name l
        (m.newAppender (d.dress target)).1 = _ := addAppender_newAppender _
    have hself : ((m.newAppender (d.dress target)).2.addAppender name l
        (m.newAppender (d.dress target)).1).loggers name =
          some { l with appenders := l.appenders ++ [m.nextAppender] } := by
      rw [heq]
      exact Function.update_self ..
    have hx : ((m.newAppender (d.dress target)).2.addAppender name l
        (m.newAppender (d.dress target)).1).appender m.nextAppender =
          inherit l.formatter (d.dress target) := by
      rw [heq]
      exact Function.update_self ..
    have hframe : Frame (· = name) m ((m.newAppender (d.dress target)).2.addAppender name l
        (m.newAppender (d.dress target)).1) := by
      rw [heq]
      exact ⟨fun n hn => Function.update_of_ne hn .., fun x hx => Function.update_of_ne (Nat.ne_of_lt hx) ..,
        Nat.le_succ _⟩
    have hlt : m.nextAppender < ((m.newAppender (d.dress target)).2.addAppender name l
        (m.newAppender (d.dress target)).1).nextAppender := by
      rw [heq]
      exact Nat.lt_succ_self _
    obtain ⟨m', xs, hok, hfr, hl', hxs, hprint⟩ :=
      addAppenders_spec hself fun d' hd' => hd d' (List.mem_cons_of_mem _ hd')
    have hnew : m'.appender m.nextAppender = inherit l.formatter (d.dress target) :=
      (hfr.appender _ hlt).trans hx
    refine ⟨m', m.nextAppender :: xs, ?_, hframe.trans hfr, ?_, ?_, ?_⟩
    · rw [addAppenders, hmake]
      dsimp only
      rw [hget]
      exact hok
    · rw [hl']
      simp only [List.append_assoc, List.singleton_append]
    · exact .cons ⟨Nat.lt_of_lt_of_le hlt hfr.next, hnew ▸ hdef _⟩ hxs
    · intro hf x hx'
      rcases List.mem_cons.mp hx' with rfl | hx'
      · exact ⟨Nat.lt_of_lt_of_le hlt hfr.next, hnew ▸ hasFormatter_inherit_dress hf d target⟩
      · exact hprint hf x hx'

/-- If the inner loop comes to its end, every appender was made. -/
theorem make_of_addAppenders {name : Bytes} : ∀ {ds : List LogAppenderDefine} {m m' : LoggerManager},
    addAppenders name ds m = .ok m' → ∀ d ∈ ds, ∃ a, d.make = .ok a
  | [], _, _, _, d, hd => absurd hd List.not_mem_nil
  | d₀ :: ds, m, m', h, d, hd => by
    rw [addAppenders] at h
    cases hmake : d₀.make with
    | error e =>
      rw [hmake] at h
      cases h
    | ok a =>
      rw [hmake] at h
      rcases List.mem_cons.mp hd with rfl | hd
      · exact ⟨a, hmake⟩
      · exact make_of_addAppenders h d hd

/-! ## The set of definitions -/

theorem find_key {d e : LogDefine} : (!e.lt d && !d.lt e) = true ↔ e.name = d.name := by
  unfold LogDefine.lt
  simp only [Bool.and_eq_true, Bool.not_eq_true', decide_eq_false_iff_not]
  constructor
  · exact fun h => List.le_antisymm h.2 h.1
  · intro h
    rw [h]
    exact ⟨List.lt_irrefl _, List.lt_irrefl _⟩

theorem find_eq_none {s : LogDefines} {d : LogDefine} :
    s.find d = none ↔ ∀ e ∈ s.toList, e.name ≠ d.name := by
  unfold LogDefines.find
  rw [List.find?_eq_none]
  exact forall₂_congr fun e _ => not_congr find_key

theorem find_eq_some {s : LogDefines} {d e : LogDefine} (h : s.find d = some e) :
    e ∈ s.toList ∧ e.name = d.name := by
  have hkey := List.find?_some (p := fun e : LogDefine => !e.lt d && !d.lt e) h
  exact ⟨List.mem_of_find?_eq_some h, find_key.mp hkey⟩

theorem LogDefines.nodup (s : LogDefines) : (s.toList.map LogDefine.name).Nodup := by
  rw [List.Nodup, List.pairwise_map]
  refine s.sorted.imp ?_
  intro a b h he
  rw [he] at h
  exact List.lt_irrefl _ h

/-- No old definition of the same name is equal to `d`. -/
def Changed (oldValue : LogDefines) (d : LogDefine) : Prop :=
  ∀ e ∈ oldValue.toList, e.name = d.name → d.eq e = false

instance (oldValue : LogDefines) (d : LogDefine) : Decidable (Changed oldValue d) :=
  inferInstanceAs (Decidable (∀ _ ∈ _, _ → _))

/-- The test of the listener, which looks at the one old definition of the name. -/
theorem changed_iff {oldValue : LogDefines} {d : LogDefine} :
    (match oldValue.find d with
      | none => true
      | some iter => !d.eq iter) = true ↔ Changed oldValue d := by
  cases hf : oldValue.find d with
  | none =>
    have hnone := find_eq_none.mp hf
    exact ⟨fun _ e he hname => absurd hname (hnone e he), fun _ => rfl⟩
  | some e =>
    obtain ⟨he, hname⟩ := find_eq_some hf
    constructor
    · intro h e' he' hname'
      have : e' = e := List.inj_on_of_nodup_map oldValue.nodup he' he (hname'.trans hname.symm)
      simpa [this] using h
    · intro h
      have hne : d.eq e = false := h e he hname
      simpa using hne

/-! ## The loops -/

/-- The level and the format of a logger, set before its appenders are cleared. -/
theorem setFormat_spec {m : LoggerManager} {name : Bytes} {l : Logger} (format : Bytes)
    (hl : m.loggers name = some l) (hp : m.Prints l) :
    ∃ m' f, (if format.isEmpty then .ok m else m.setFormat name l format) = .ok m' ∧
      Frame (· = name) m m' ∧ m'.loggers name = some { l with formatter := f } ∧
      f.isSome = true ∧ (Given format → f = some (.parse format)) ∧
      m'.nextAppender = m.nextAppender := by
  rw [setFormat_eq hp]
  by_cases hg : Given format
  · have hne : format.isEmpty = false := by
      rw [List.isEmpty_eq_false_iff]
      exact hg.1
    rw [hne, if_neg (by decide), hg.2, if_neg (by decide)]
    exact ⟨_, _, rfl, frame_setLogger, loggers_setLogger_self, rfl, fun _ => rfl, rfl⟩
  · refine ⟨m, l.formatter, ?_, Frame.refl _ m, hl, hp.1, fun h => absurd h hg, rfl⟩
    by_cases hne : format = []
    · rw [hne]
      rfl
    · have herr : (LogFormatter.parse format).hasError = true := by
        by_contra herr
        exact hg ⟨hne, Bool.eq_false_iff.mpr herr⟩
      rw [herr, if_pos rfl, ite_self]

/-- One round of the first loop makes the logger of the definition. -/
theorem applyDefine_spec {oldValue : LogDefines} {d : LogDefine} {m : LoggerManager}
    (hm : m.WellFormed) (hc : Changed oldValue d) (hd : ∀ a ∈ d.appenders, a.Makeable) :
    ∃ m', applyDefine oldValue d m = .ok m' ∧ Frame (· = d.name) m m' ∧ AsDefined d m' ∧
      m'.WellFormed := by
  obtain ⟨hm₁, hl₁⟩ := hm.getLogger d.name
  generalize hget : m.getLogger d.name = got at hm₁ hl₁
  obtain ⟨l, m₁⟩ := got
  have hf₁ : Frame (· = d.name) m m₁ := by
    have h : Frame (· = d.name) m (m.getLogger d.name).2 := frame_getLogger
    rwa [hget] at h
  have hp₂ : (m₁.setLogger d.name { l with level := d.level }).Prints { l with level := d.level } :=
    hl₁.of_frame frame_setLogger
  obtain ⟨m₃, f, hok₃, hf₃, hl₃, hsome, hformat, -⟩ :=
    setFormat_spec d.format loggers_setLogger_self hp₂
  obtain ⟨m', xs, hok, hf', hl', hdefined, hprints⟩ :=
    addAppenders_spec (m := m₃.clearAppenders d.name { l with level := d.level, formatter := f })
      loggers_setLogger_self hd
  have hframe : Frame (· = d.name) m m' :=
    ((hf₁.trans frame_setLogger).trans hf₃).trans (frame_setLogger.trans hf')
  rw [List.nil_append] at hl'
  refine ⟨m', ?_, hframe, ⟨_, hl', rfl, hformat, hdefined⟩, ?_⟩
  · unfold applyDefine
    dsimp only
    rw [if_pos (changed_iff.mpr hc), hget]
    dsimp only
    rw [hok₃]
    dsimp only
    rw [getLogger_of_some hl₃]
    exact hok
  · refine hm.of_frame hframe fun l'' h'' => ?_
    rw [hl', Option.some.injEq] at h''
    exact h'' ▸ ⟨hsome, hprints hsome⟩

/-- If a round comes to its end, the definition has changed and every appender was made. -/
theorem of_applyDefine {oldValue : LogDefines} {d : LogDefine} {m m' : LoggerManager}
    (h : applyDefine oldValue d m = .ok m') :
    Changed oldValue d ∧ ∀ a ∈ d.appenders, ∃ b, a.make = .ok b := by
  unfold applyDefine at h
  dsimp only at h
  by_cases hc : Changed oldValue d
  · rw [if_pos (changed_iff.mpr hc)] at h
    refine ⟨hc, ?_⟩
    split at h
    · cases h
    · exact make_of_addAppenders h
  · rw [if_neg (mt changed_iff.mp hc)] at h
    cases h

/-- The first loop makes the loggers of all new definitions. -/
theorem applyDefines_spec {oldValue : LogDefines} : ∀ {ds : List LogDefine} {m : LoggerManager},
    m.WellFormed → (ds.map LogDefine.name).Nodup →
    (∀ d ∈ ds, Changed oldValue d ∧ ∀ a ∈ d.appenders, a.Makeable) →
    ∃ m', applyDefines oldValue ds m = .ok m' ∧ Frame (fun n => ∃ d ∈ ds, d.name = n) m m' ∧
      (∀ d ∈ ds, AsDefined d m') ∧ m'.WellFormed
  | [], m, hm, _, _ => ⟨m, rfl, Frame.refl _ m, fun d hd => absurd hd List.not_mem_nil, hm⟩
  | d :: ds, m, hm, hnd, hd => by
    rw [List.map_cons, List.nodup_cons] at hnd
    obtain ⟨hc, ha⟩ := hd d List.mem_cons_self
    obtain ⟨m₁, hok₁, hf₁, hdef₁, hm₁⟩ := applyDefine_spec hm hc ha
    obtain ⟨m', hok, hf, hdef, hm'⟩ :=
      applyDefines_spec hm₁ hnd.2 fun e he => hd e (List.mem_cons_of_mem _ he)
    refine ⟨m', ?_, ?_, ?_, hm'⟩
    · rw [applyDefines, hok₁]
      exact hok
    · refine (hf₁.mono fun n hn => ⟨d, List.mem_cons_self, hn.symm⟩).trans (hf.mono ?_)
      rintro n ⟨e, he, hen⟩
      exact ⟨e, List.mem_cons_of_mem _ he, hen⟩
    · intro e he
      rcases List.mem_cons.mp he with rfl | he
      · refine hdef₁.of_frame hf ?_
        rintro ⟨e', he', hname⟩
        exact hnd.1 (hname ▸ List.mem_map_of_mem he')
      · exact hdef e he

theorem of_applyDefines {oldValue : LogDefines} : ∀ {ds : List LogDefine} {m m' : LoggerManager},
    applyDefines oldValue ds m = .ok m' →
    ∀ d ∈ ds, Changed oldValue d ∧ ∀ a ∈ d.appenders, ∃ b, a.make = .ok b
  | [], _, _, _, d, hd => absurd hd List.not_mem_nil
  | d₀ :: ds, m, m', h, d, hd => by
    rw [applyDefines] at h
    cases hd₀ : applyDefine oldValue d₀ m with
    | error e =>
      rw [hd₀] at h
      cases h
    | ok m₁ =>
      rw [hd₀] at h
      rcases List.mem_cons.mp hd with rfl | hd
      · exact of_applyDefine hd₀
      · exact of_applyDefines h d hd

/-- The definition has no successor in the new value. -/
def Removed (newValue : LogDefines) (d : LogDefine) : Prop :=
  ∀ e ∈ newValue.toList, e.name ≠ d.name

/-- One round of the second loop. -/
theorem removeDefine_spec (newValue : LogDefines) {m : LoggerManager} (hm : m.WellFormed)
    (d : LogDefine) :
    Frame (fun n => n = d.name ∧ Removed newValue d) m (removeDefine newValue m d) ∧
      (removeDefine newValue m d).WellFormed ∧
      (Removed newValue d →
        ∃ l, (removeDefine newValue m d).loggers d.name = some l ∧ l.appenders = []) := by
  unfold removeDefine
  cases hf : newValue.find d with
  | some e =>
    obtain ⟨he, hname⟩ := find_eq_some hf
    exact ⟨Frame.refl _ m, hm, fun h => absurd hname (h e he)⟩
  | none =>
    have hr : Removed newValue d := find_eq_none.mp hf
    obtain ⟨hm₁, hl₁⟩ := hm.getLogger d.name
    have hframe : ∀ l₁ l₂, Frame (· = d.name) m
        (((m.getLogger d.name).2.setLogger d.name l₁).setLogger d.name l₂) :=
      fun _ _ => (frame_getLogger.trans frame_setLogger).trans frame_setLogger
    refine ⟨(hframe _ _).mono fun n hn => ⟨hn, hr⟩, ?_, fun _ => ⟨_, loggers_setLogger_self, rfl⟩⟩
    refine hm.of_frame (hframe _ _) fun l hl => ?_
    have hl' := loggers_setLogger_self.symm.trans hl
    rw [Option.some.injEq] at hl'
    exact hl' ▸ ⟨hl₁.1, fun x hx => absurd hx List.not_mem_nil⟩

/-- The second loop empties the loggers that are gone, and touches no others. -/
theorem removeDefines_spec (newValue : LogDefines) : ∀ (ds : List LogDefine) {m : LoggerManager},
    m.WellFormed → (ds.map LogDefine.name).Nodup →
    Frame (fun n => ∃ d ∈ ds, d.name = n ∧ Removed newValue d) m
        (ds.foldl (removeDefine newValue) m) ∧
      (ds.foldl (removeDefine newValue) m).WellFormed ∧
      ∀ d ∈ ds, Removed newValue d →
        ∃ l, (ds.foldl (removeDefine newValue) m).loggers d.name = some l ∧ l.appenders = []
  | [], m, hm, _ => ⟨Frame.refl _ m, hm, fun d hd => absurd hd List.not_mem_nil⟩
  | d :: ds, m, hm, hnd => by
    rw [List.map_cons, List.nodup_cons] at hnd
    obtain ⟨hf₁, hm₁, hr₁⟩ := removeDefine_spec newValue hm d
    obtain ⟨hf, hm', hr⟩ := removeDefines_spec newValue ds hm₁ hnd.2
    rw [List.foldl_cons]
    refine ⟨?_, hm', ?_⟩
    · refine (hf₁.mono fun n hn => ⟨d, List.mem_cons_self, hn.1.symm, hn.2⟩).trans (hf.mono ?_)
      rintro n ⟨e, he, hen⟩
      exact ⟨e, List.mem_cons_of_mem _ he, hen⟩
    · intro e he hre
      rcases List.mem_cons.mp he with rfl | he
      · obtain ⟨l, hl, hempty⟩ := hr₁ hre
        refine ⟨l, (hf.loggers _ ?_).trans hl, hempty⟩
        rintro ⟨e', he', hname, -⟩
        exact hnd.1 (hname ▸ List.mem_map_of_mem he')
      · exact hr e he hre

/-! ## Reloading -/

/-- What a reload is for: `m'` is what the new value says, apart from what it says nothing about. -/
structure Reloaded (oldValue newValue : LogDefines) (m m' : LoggerManager) : Prop where
  asDefined : ∀ d ∈ newValue.toList, AsDefined d m'
  removed : ∀ d ∈ oldValue.toList, Removed newValue d →
    ∃ l, m'.loggers d.name = some l ∧ l.appenders = []
  untouched : ∀ n, (∀ d ∈ oldValue.toList ++ newValue.toList, d.name ≠ n) →
    m'.loggers n = m.loggers n
  appenders : ∀ x, x < m.nextAppender → m'.appender x = m.appender x

/-- The listener comes to its end, and has done what a reload is for. -/
def Reloads (oldValue newValue : LogDefines) (m : LoggerManager) : Prop :=
  ∃ m', onChange oldValue newValue m = .ok m' ∧ Reloaded oldValue newValue m m'

/-- Every new definition differs from the old one of its name, and all its appenders can be made. -/
def Applicable (oldValue newValue : LogDefines) : Prop :=
  ∀ d ∈ newValue.toList, Changed oldValue d ∧ ∀ a ∈ d.appenders, a.Makeable

instance (oldValue newValue : LogDefines) : Decidable (Applicable oldValue newValue) :=
  inferInstanceAs (Decidable (∀ _ ∈ _, _ ∧ ∀ _ ∈ _, _))

/-- The listener does what a reload is for, and the manager stays well-formed. -/
theorem onChange_spec {oldValue newValue : LogDefines} {m : LoggerManager} (hm : m.WellFormed)
    (h : Applicable oldValue newValue) :
    ∃ m', onChange oldValue newValue m = .ok m' ∧ Reloaded oldValue newValue m m' ∧
      m'.WellFormed := by
  obtain ⟨m₁, hok, hf₁, hdef, hm₁⟩ := applyDefines_spec hm newValue.nodup h
  obtain ⟨hf, hm', hr⟩ := removeDefines_spec newValue oldValue.toList hm₁ oldValue.nodup
  refine ⟨_, ?_, ⟨?_, hr, ?_, ?_⟩, hm'⟩
  · rw [onChange, hok]
  · intro d hd
    refine (hdef d hd).of_frame hf ?_
    rintro ⟨e, -, hname, hre⟩
    exact hre d hd hname.symm
  · intro n hn
    rw [hf.loggers, hf₁.loggers]
    · rintro ⟨d, hd, hname⟩
      exact hn d (List.mem_append_right _ hd) hname
    · rintro ⟨d, hd, hname, -⟩
      exact hn d (List.mem_append_left _ hd) hname
  · intro x hx
    rw [hf.appender x (Nat.lt_of_lt_of_le hx hf₁.next), hf₁.appender x hx]

/-- **A reload succeeds just when every definition of the new value has changed and can be made.** -/
theorem reloads_iff {m : LoggerManager} (hm : m.WellFormed) (oldValue newValue : LogDefines) :
    Reloads oldValue newValue m ↔ Applicable oldValue newValue := by
  constructor
  · rintro ⟨m', hok, hr⟩ d hd
    rw [onChange] at hok
    cases hds : applyDefines oldValue newValue.toList m with
    | error e =>
      rw [hds] at hok
      cases hok
    | ok m₁ =>
      obtain ⟨hc, ha⟩ := of_applyDefines hds d hd
      obtain ⟨l, -, -, -, hdef⟩ := hr.asDefined d hd
      refine ⟨hc, fun a hmem => ?_⟩
      obtain ⟨b, hb⟩ := ha a hmem
      obtain ⟨i, hi, rfl⟩ := List.getElem_of_mem hmem
      have hi' : i < l.appenders.length := (List.Forall₂.length_eq hdef) ▸ hi
      exact makeable_of_make hb ((List.forall₂_iff_get.mp hdef).2 i hi hi').2
  · intro h
    obtain ⟨m', hok, hr, -⟩ := onChange_spec hm h
    exact ⟨m', hok, hr⟩

/-- A reload with one definition added, one changed and one removed. -/
theorem reloads_three : Reloads
    ⟨[{ name := ascii "http" }, { name := ascii "system" }], by decide⟩
    ⟨[{ name := ascii "http", level := .warn, appenders := [{ type := 2 }] },
      { name := ascii "orm", format := ascii "%m%n",
        appenders := [{ type := 1, file := ascii "/var/log/orm" }] }], by decide⟩
    .initial :=
  (reloads_iff LoggerManager.wellFormed_initial _ _).mpr (by decide +kernel)

/-- Reloading with one definition added and another one unchanged uses a null logger. -/
theorem not_reloads : ¬ ∀ m : LoggerManager, m.WellFormed →
    ∀ oldValue newValue, Reloads oldValue newValue m := by
  intro h
  obtain ⟨m', hok, -⟩ := h .initial LoggerManager.wellFormed_initial
    ⟨[{ name := ascii "system" }], by decide⟩
    ⟨[{ name := ascii "http" }, { name := ascii "system" }], by decide⟩
  cases hok

end Nemo.Log
