import Nemo.Infra.Runs
import Nemo.Log.Logger

/-!
# Formatters of appenders

The calls on one logger that change its appenders or its formatter, for appenders some of which were
given a formatter before. `hasFormatter_` is to tell an appender that has a formatter of its own from
one that uses the logger's, but `addAppender` passes the logger's formatter on with
`LogAppender::setFormatter`, which sets the flag.

`formatters_inherited_iff` says in which sequences of calls the appenders use the formatters they should.
-/

namespace Nemo.Log

open Function (update)
open Http Infra

/-- The calls on a logger. -/
inductive Setting
  | addAppender (x : AppenderId)
  | delAppender (x : AppenderId)
  | clearAppenders
  | setFormatter (formatter : Option LogFormatter)
  | setFormat (format : Bytes)

namespace LoggerManager

variable (m : LoggerManager)

/-- A call on the logger `l`, which has the name. -/
def apply (name : Bytes) (l : Logger) : Setting → Except Fault LoggerManager
  | .addAppender x => .ok (m.addAppender name l x)
  | .delAppender x => .ok (m.delAppender name l x).2
  | .clearAppenders => .ok (m.clearAppenders name l)
  | .setFormatter formatter => m.setFormatter name l formatter
  | .setFormat format => m.setFormat name l format

end LoggerManager

variable (name : Bytes) (own : AppenderId → Option LogFormatter)

/-- A new logger, and appenders that were given the formatters `own` after they were made. -/
def start (made : AppenderId → Target × LogLevel) : LoggerManager where
  loggers := update (fun _ => none) name (some { name })
  appender x := LogAppender.setFormatter { target := (made x).1, level := (made x).2 } (own x)

/-- The calls one after the other. After one that blocks its thread there are no more. -/
def settings (made : AppenderId → Target × LogLevel) : Lts (Except Fault LoggerManager) Setting where
  init := .ok (start name own made)
  step s a :=
    match s with
    | .error _ => none
    | .ok m => (m.loggers name).map fun l => m.apply name l a

/-- Each appender of the logger uses its own formatter, or else the logger's. -/
def Inherits (m : LoggerManager) (l : Logger) : Prop :=
  ∀ x ∈ l.appenders, (m.appender x).formatter = (own x).or l.formatter

/-- A call returns, and leaves the appenders with the formatters they should use. -/
def SetsRight (m : LoggerManager) (l : Logger) (a : Setting) : Prop :=
  ∃ m' l', m.apply name l a = .ok m' ∧ m'.loggers name = some l' ∧ Inherits own m' l'

/-- A formatter can be set: all appenders have their own, or it is the one that the logger has. -/
def Settable (l : Logger) (formatter : Option LogFormatter) : Prop :=
  (∃ x ∈ l.appenders, own x = none) → formatter ≠ none ∧ formatter = l.formatter

/--
An appender that is added has a formatter of its own, or no formatter, or the one of the logger; a
formatter that is set is settable.
-/
def Compatible (m : LoggerManager) (l : Logger) : Setting → Prop
  | .addAppender x =>
    own x = none → (m.appender x).formatter = none ∨ (m.appender x).formatter = l.formatter
  | .setFormatter formatter => Settable own l formatter
  | .setFormat format =>
    (LogFormatter.parse format).hasError = false → Settable own l (some (.parse format))
  | .delAppender _ | .clearAppenders => True

/-- What is said of a manager and the logger of the name, where the call before has returned. -/
def At (P : LoggerManager → Logger → Setting → Prop) (s : Except Fault LoggerManager) (a : Setting) :
    Prop :=
  ∀ m l, s = .ok m → m.loggers name = some l → P m l a

/-! ## What a call does to an appender -/

section

variable {m : LoggerManager} {l : Logger}

theorem inherit_formatter (f : Option LogFormatter) (a : LogAppender) :
    (LoggerManager.inherit f a).formatter = a.formatter.or f := by
  rw [LoggerManager.inherit]
  cases ha : a.formatter with
  | none => rfl
  | some g => simp [ha]

theorem inherit_hasFormatter {a : LogAppender} (ha : a.hasFormatter = a.formatter.isSome)
    (f : Option LogFormatter) : (LoggerManager.inherit f a).hasFormatter = (a.formatter.or f).isSome := by
  rw [LoggerManager.inherit]
  cases hf : a.formatter with
  | none => rfl
  | some g => simp [ha, hf]

/-- Adding an appender passes the formatter of the logger on to it. -/
theorem appender_addAppender (x y : AppenderId) :
    (m.addAppender name l x).appender y
      = if y = x then LoggerManager.inherit l.formatter (m.appender x) else m.appender y := by
  simp only [LoggerManager.addAppender, LoggerManager.setLogger, LoggerManager.inherit]
  by_cases hx : (m.appender x).formatter = none
  · rw [if_pos hx, if_pos hx]
    exact Function.update_apply ..
  · rw [if_neg hx, if_neg hx]
    split
    · next heq => rw [heq]
    · rfl

/-- The mutex of an appender without a formatter is taken twice. -/
theorem setFormatter_eq (formatter : Option LogFormatter) :
    m.setFormatter name l formatter =
      if ∀ x ∈ l.appenders, (m.appender x).hasFormatter = true then
        .ok (m.setLogger name { l with formatter := formatter })
      else .error .relock := by
  unfold LoggerManager.setFormatter
  dsimp only
  split
  · next hany =>
    rw [if_neg]
    simpa [LoggerManager.setLogger] using hany
  · next hany =>
    rw [if_pos]
    simpa [LoggerManager.setLogger] using hany

theorem loggers_addAppender (m : LoggerManager) (name : Bytes) (l : Logger) (x : AppenderId) :
    (m.addAppender name l x).loggers name = some { l with appenders := l.appenders ++ [x] } :=
  LoggerManager.loggers_setLogger_self

/-- Fewer appenders are left. -/
theorem Inherits.delAppender (hname : m.loggers name = some l) (hl : Inherits own m l) (x : AppenderId) :
    SetsRight name own m l (.delAppender x) := by
  simp only [SetsRight, LoggerManager.apply, LoggerManager.delAppender]
  split
  · refine ⟨_, _, rfl, LoggerManager.loggers_setLogger_self, ?_⟩
    exact fun y hy => hl y (List.mem_of_mem_erase hy)
  · exact ⟨m, l, rfl, hname, hl⟩

end

/-! ## The invariant -/

/-- `hasFormatter_` tells whether there is a formatter, and an own formatter is still there. -/
structure Consistent (m : LoggerManager) : Prop where
  hasFormatter : ∀ x, (m.appender x).hasFormatter = (m.appender x).formatter.isSome
  own : ∀ x f, own x = some f → (m.appender x).formatter = some f

/-- What is known between the calls. -/
def Kept (s : Except Fault LoggerManager) : Prop :=
  ∃ m l, s = .ok m ∧ m.loggers name = some l ∧ Consistent own m ∧ Inherits own m l

variable {name own}

theorem kept_init (made : AppenderId → Target × LogLevel) : Kept name own (settings name own made).init := by
  refine ⟨start name own made, { name }, rfl, by simp [start], ⟨fun x => rfl, ?_⟩, nofun⟩
  intro x f hx
  exact hx

section

variable {m : LoggerManager} {l : Logger} (hm : Consistent own m)
include hm

/-- The appenders without a formatter of their own are the ones to be looked at. -/
theorem Consistent.inherits_iff :
    Inherits own m l ↔ ∀ x ∈ l.appenders, own x = none → (m.appender x).formatter = l.formatter := by
  refine forall₂_congr fun x _ => ?_
  cases hx : own x with
  | none => simp
  | some f => simpa using hm.own x f hx

theorem Consistent.setLogger (name : Bytes) (l : Logger) : Consistent own (m.setLogger name l) :=
  ⟨hm.hasFormatter, hm.own⟩

theorem Consistent.addAppender (name : Bytes) (l : Logger) (x : AppenderId) :
    Consistent own (m.addAppender name l x) := by
  constructor
  · intro y
    rw [appender_addAppender]
    split
    · rw [inherit_formatter, inherit_hasFormatter (hm.hasFormatter x)]
    · exact hm.hasFormatter y
  · intro y f hy
    rw [appender_addAppender]
    split
    · next heq =>
      subst heq
      rw [inherit_formatter, hm.own y f hy]
      rfl
    · exact hm.own y f hy

/-- An appender that is added has the formatter it should use if it had none, or this one. -/
theorem Consistent.inherits_addAppender (hl : Inherits own m l) (name : Bytes) (x : AppenderId) :
    Inherits own (m.addAppender name l x) { l with appenders := l.appenders ++ [x] }
      ↔ (own x = none → (m.appender x).formatter = none ∨ (m.appender x).formatter = l.formatter) := by
  rw [(hm.addAppender name l x).inherits_iff]
  have hnew : ((m.addAppender name l x).appender x).formatter = l.formatter
      ↔ (m.appender x).formatter = none ∨ (m.appender x).formatter = l.formatter := by
    rw [appender_addAppender, if_pos rfl, inherit_formatter]
    cases (m.appender x).formatter <;> simp
  constructor
  · intro h hx
    exact hnew.mp (h x (by simp) hx)
  · intro h y hy hown
    by_cases heq : y = x
    · subst heq
      exact hnew.mpr (h hown)
    · rw [appender_addAppender, if_neg heq]
      have hmem : y ∈ l.appenders := by simpa [heq] using hy
      exact hm.inherits_iff.mp hl y hmem hown

/-- A formatter that is set does not reach the appenders. -/
theorem Consistent.setFormatter_iff (hl : Inherits own m l) (formatter : Option LogFormatter) :
    (∃ m' l', m.setFormatter name l formatter = .ok m' ∧ m'.loggers name = some l' ∧ Inherits own m' l')
      ↔ Settable own l formatter := by
  rw [setFormatter_eq]
  have hinherits := hm.inherits_iff.mp hl
  constructor
  · rintro ⟨m', l', hok, hl', hafter⟩ ⟨x, hx, hown⟩
    split at hok
    · next hall =>
      cases hok
      rw [LoggerManager.loggers_setLogger_self, Option.some.injEq] at hl'
      subst hl'
      have hnew := (hm.setLogger name _).inherits_iff.mp hafter x hx hown
      have hsame : formatter = l.formatter := hnew.symm.trans (hinherits x hx hown)
      have hsome := hall x hx
      rw [hm.hasFormatter, hinherits x hx hown, ← hsame] at hsome
      exact ⟨Option.isSome_iff_ne_none.mp hsome, hsame⟩
    · cases hok
  · intro hset
    have hall : ∀ x ∈ l.appenders, (m.appender x).hasFormatter = true := by
      intro x hx
      rw [hm.hasFormatter]
      cases hown : own x with
      | some f => rw [hm.own x f hown, Option.isSome_some]
      | none =>
        obtain ⟨hne, hsame⟩ := hset ⟨x, hx, hown⟩
        rw [hinherits x hx hown, ← hsame]
        exact Option.isSome_iff_ne_none.mpr hne
    refine ⟨_, _, if_pos hall, LoggerManager.loggers_setLogger_self, ?_⟩
    refine (hm.setLogger name _).inherits_iff.mpr fun x hx hown => ?_
    exact (hinherits x hx hown).trans (hset ⟨x, hx, hown⟩).2.symm

/-- An invalid format changes nothing. -/
theorem Consistent.setFormat_iff (hname : m.loggers name = some l) (hl : Inherits own m l) (format : Bytes) :
    (∃ m' l', m.setFormat name l format = .ok m' ∧ m'.loggers name = some l' ∧ Inherits own m' l')
      ↔ ((LogFormatter.parse format).hasError = false → Settable own l (some (.parse format))) := by
  rw [LoggerManager.setFormat]
  cases hparse : (LogFormatter.parse format).hasError with
  | false =>
    rw [if_neg (by simp), hm.setFormatter_iff hl]
    simp
  | true => exact iff_of_true ⟨m, l, if_pos rfl, hname, hl⟩ nofun

/-- What each call needs. -/
theorem Consistent.setsRight_iff (hname : m.loggers name = some l) (hl : Inherits own m l) (a : Setting) :
    SetsRight name own m l a ↔ Compatible own m l a := by
  cases a with
  | addAppender x =>
    rw [Compatible, ← hm.inherits_addAppender hl name]
    simp [SetsRight, LoggerManager.apply, loggers_addAppender]
  | delAppender x => exact iff_of_true (Inherits.delAppender _ _ hname hl x) trivial
  | clearAppenders =>
    exact iff_of_true ⟨_, _, rfl, LoggerManager.loggers_setLogger_self, nofun⟩ trivial
  | setFormatter formatter => exact hm.setFormatter_iff hl formatter
  | setFormat format => exact hm.setFormat_iff hname hl format

/-- A call that returns leaves the flags right. -/
theorem Consistent.apply {m' : LoggerManager} {a : Setting} (hok : m.apply name l a = .ok m') :
    Consistent own m' := by
  have hset : ∀ formatter m', m.setFormatter name l formatter = .ok m' → Consistent own m' := by
    intro formatter m' hok
    rw [setFormatter_eq] at hok
    split at hok
    · cases hok
      exact hm.setLogger name _
    · cases hok
  cases a with
  | addAppender x =>
    cases hok
    exact hm.addAppender name l x
  | delAppender x =>
    simp only [LoggerManager.apply, LoggerManager.delAppender] at hok
    split at hok
    · cases hok
      exact hm.setLogger name _
    · cases hok
      exact hm
  | clearAppenders =>
    cases hok
    exact hm.setLogger name _
  | setFormatter formatter => exact hset formatter m' hok
  | setFormat format =>
    simp only [LoggerManager.apply, LoggerManager.setFormat] at hok
    split at hok
    · cases hok
      exact hm
    · exact hset _ m' hok

end

/-! ## Runs -/

theorem at_iff {P : LoggerManager → Logger → Setting → Prop} {m : LoggerManager} {l : Logger}
    (hname : m.loggers name = some l) (a : Setting) : At name P (.ok m) a ↔ P m l a := by
  constructor
  · intro h
    exact h m l rfl hname
  · rintro h m' l' ⟨⟩ hl'
    rw [hname, Option.some.injEq] at hl'
    exact hl' ▸ h

/--
The appenders use the formatters they should, and no call blocks, in exactly the sequences of calls in
which an appender that is added was not left with the formatter of another time, and in which the
formatter of the logger is not changed while an appender uses it.
-/
theorem formatters_inherited_iff (made : AppenderId → Target × LogLevel) (as : List Setting) :
    (settings name own made).Meets (At name (SetsRight name own)) (settings name own made).init as
      ↔ (settings name own made).Meets (At name (Compatible own)) (settings name own made).init as := by
  refine Lts.meets_iff (I := Kept name own) ?_ ?_ (kept_init made)
  · rintro s a s' ⟨m, l, rfl, hname, hm, hl⟩ -
    rw [at_iff hname, at_iff hname]
    exact hm.setsRight_iff hname hl a
  · rintro s a s' ⟨m, l, rfl, hname, hm, hl⟩ hstep hright
    obtain ⟨m', l', hok, hname', hl'⟩ := (at_iff hname a).mp hright
    have hs' : s' = .ok m' := by
      simp only [settings, hname, Option.map_some, Option.some.injEq] at hstep
      exact hstep.symm.trans hok
    exact ⟨m', l', hs', hname', hm.apply hok, hl'⟩

/-- A formatter that is set after an appender was added does not reach it. -/
theorem not_formatters_inherited : ¬∀ as : List Setting,
    (settings (ascii "root") (fun _ => none) fun _ => (.stdout, .debug)).Meets
      (At (ascii "root") (SetsRight (ascii "root") fun _ => none))
      (settings (ascii "root") (fun _ => none) fun _ => (.stdout, .debug)).init as := by
  intro hall
  have hlast := (hall ([.addAppender 0] ++ [.setFormatter (some (.parse (ascii "%m")))])).last rfl rfl
  have hm : Consistent (fun _ => none) (start (ascii "root") (fun _ => none) fun _ => (.stdout, .debug)) :=
    ⟨fun _ => rfl, nofun⟩
  have hl := (hm.inherits_addAppender (l := { name := ascii "root" }) nofun (ascii "root") 0).mpr
    fun _ => .inl rfl
  have hname := loggers_addAppender (start (ascii "root") (fun _ => none) fun _ => (.stdout, .debug))
    (ascii "root") { name := ascii "root" } 0
  have hcompatible := ((hm.addAppender _ _ 0).setsRight_iff hname hl _).mp (hlast _ _ rfl hname)
  have hsame := (hcompatible ⟨0, List.mem_singleton_self 0, rfl⟩).2
  exact absurd (congrArg (Option.map LogFormatter.pattern) hsame) (by decide)

end Nemo.Log
