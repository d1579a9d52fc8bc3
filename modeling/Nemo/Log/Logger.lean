import Mathlib.Logic.Function.Basic
import Nemo.Log.LogFormatter

/-!
# Loggers and appenders

`src/log/logger.cc` and the setters of `src/log/log_appender.cc`. The `shared_ptr`s are identities:
a logger is known by its name, which is its key in `loggers_`, and an appender by a number, so
that several loggers can hold one appender.

`Logger::setFormatter` takes the mutex of an appender and calls `LogAppender::setFormatter`, which
takes it again; `Fault.relock` is a thread that takes a mutex it holds.
-/

namespace Nemo.Log

open Function (update)
open Http

/-- `LogLevel`. -/
inductive LogLevel
  | all | debug | info | warn | error | fatal
  deriving DecidableEq, Repr

/-- The number of a level, by which levels are compared. -/
def LogLevel.toNat : LogLevel → Nat
  | .all => 0
  | .debug => 1
  | .info => 2
  | .warn => 3
  | .error => 4
  | .fatal => 5

/-- The class of an appender, with what `FileLogAppender` is constructed from. -/
inductive Target
  | stdout
  | file (filename : Bytes) (flushInterval : UInt64) (rollThreshold : Int64) (checkThreshold : UInt32)
  deriving DecidableEq

/-- A `LogAppender`. -/
structure LogAppender where
  target : Target
  level : LogLevel := .debug
  formatter : Option LogFormatter := none
  hasFormatter : Bool := false
  deriving DecidableEq

abbrev AppenderId := Nat

/-- A `Logger`. -/
structure Logger where
  name : Bytes
  level : LogLevel := .debug
  appenders : List AppenderId := []
  formatter : Option LogFormatter := some (.parse defaultPattern)
  deriving DecidableEq

/-- `LoggerManager`, with the appenders that have been made. -/
structure LoggerManager where
  loggers : Bytes → Option Logger := fun _ => none
  appender : AppenderId → LogAppender := fun _ => { target := .stdout }
  nextAppender : AppenderId := 0

/-- What ends the process, or blocks it for good. -/
inductive Fault
  /-- `logger` is null when `logger->` is reached -/
  | nullLogger
  /-- `newAppender` is null when `newAppender->` is reached -/
  | nullAppender
  /-- a thread takes a mutex it holds -/
  | relock
  /-- a `NEMO_ASSERT` fails -/
  | assertion
  deriving DecidableEq, Repr

/-- `LogAppender::setFormatter`. -/
def LogAppender.setFormatter (a : LogAppender) (formatter : Option LogFormatter) : LogAppender :=
  { a with formatter := formatter, hasFormatter := formatter.isSome }

namespace LoggerManager

variable (m : LoggerManager)

def setLogger (name : Bytes) (l : Logger) : LoggerManager :=
  { m with loggers := update m.loggers name (some l) }

def setAppender (x : AppenderId) (a : LogAppender) : LoggerManager :=
  { m with appender := update m.appender x a }

/-- A `new` appender. -/
def newAppender (a : LogAppender) : AppenderId × LoggerManager :=
  (m.nextAppender, { m.setAppender m.nextAppender a with nextAppender := m.nextAppender + 1 })

/-- `LoggerManager::getLogger`: the logger of the name, made if there is none. -/
def getLogger (name : Bytes) : Logger × LoggerManager :=
  match m.loggers name with
  | some l => (l, m)
  | none => ({ name }, m.setLogger name { name })

/-- `Logger::addAppender`. -/
def addAppender (name : Bytes) (l : Logger) (x : AppenderId) : LoggerManager :=
  let m :=
    if (m.appender x).formatter = none then m.setAppender x ((m.appender x).setFormatter l.formatter)
    else m
  m.setLogger name { l with appenders := l.appenders ++ [x] }

/-- `Logger::delAppender`: it tells whether the appender was there. -/
def delAppender (name : Bytes) (l : Logger) (x : AppenderId) : Bool × LoggerManager :=
  if x ∈ l.appenders then (true, m.setLogger name { l with appenders := l.appenders.erase x })
  else (false, m)

/-- `Logger::clearAppenders`. -/
def clearAppenders (name : Bytes) (l : Logger) : LoggerManager :=
  m.setLogger name { l with appenders := [] }

/-- `Logger::setLevel`. -/
def setLevel (name : Bytes) (l : Logger) (level : LogLevel) : LoggerManager :=
  m.setLogger name { l with level := level }

/-- `Logger::setFormatter`. An appender without a formatter of its own blocks the thread. -/
def setFormatter (name : Bytes) (l : Logger) (formatter : Option LogFormatter) :
    Except Fault LoggerManager :=
  let m := m.setLogger name { l with formatter := formatter }
  if l.appenders.any fun x => !(m.appender x).hasFormatter then .error .relock else .ok m

/-- `Logger::setFormat`. -/
def setFormat (name : Bytes) (l : Logger) (format : Bytes) : Except Fault LoggerManager :=
  let newLogFormatter := LogFormatter.parse format
  if newLogFormatter.hasError then .ok m else m.setFormatter name l (some newLogFormatter)

/-- The manager after its constructor: the root logger, with an appender to the console. -/
def initial : LoggerManager :=
  let root : Logger := { name := ascii "root" }
  let (x, m) := LoggerManager.newAppender {} { target := .stdout }
  m.addAppender root.name root x

/-! ## Loggers whose appenders can print -/

/-- The logger has a formatter, and so has every appender of it. -/
def Prints (l : Logger) : Prop :=
  l.formatter.isSome = true ∧
    ∀ x ∈ l.appenders, x < m.nextAppender ∧ (m.appender x).hasFormatter = true

/-- Every logger prints. -/
def WellFormed : Prop := ∀ name l, m.loggers name = some l → m.Prints l

/--
Only loggers of the names `S` have changed. Appenders may have been made, but those that were there
are as before.
-/
structure Frame (S : Bytes → Prop) (m m' : LoggerManager) : Prop where
  loggers : ∀ n, ¬ S n → m'.loggers n = m.loggers n
  appender : ∀ x, x < m.nextAppender → m'.appender x = m.appender x
  next : m.nextAppender ≤ m'.nextAppender

variable {m} {m' m'' : LoggerManager} {S T : Bytes → Prop} {name : Bytes} {l : Logger}

theorem Frame.refl (S : Bytes → Prop) (m : LoggerManager) : Frame S m m :=
  ⟨fun _ _ => rfl, fun _ _ => rfl, Nat.le_refl _⟩

theorem Frame.trans (h : Frame S m m') (h' : Frame S m' m'') : Frame S m m'' where
  loggers n hn := (h'.loggers n hn).trans (h.loggers n hn)
  appender x hx := (h'.appender x (Nat.lt_of_lt_of_le hx h.next)).trans (h.appender x hx)
  next := Nat.le_trans h.next h'.next

theorem Frame.mono (h : Frame S m m') (hST : ∀ n, S n → T n) : Frame T m m' :=
  ⟨fun n hn => h.loggers n fun hs => hn (hST n hs), h.appender, h.next⟩

@[simp] theorem loggers_setLogger_self : (m.setLogger name l).loggers name = some l :=
  Function.update_self ..

theorem loggers_setLogger_of_ne {n : Bytes} (h : n ≠ name) :
    (m.setLogger name l).loggers n = m.loggers n :=
  Function.update_of_ne h ..

theorem frame_setLogger : Frame (· = name) m (m.setLogger name l) :=
  ⟨fun _ hn => loggers_setLogger_of_ne hn, fun _ _ => rfl, Nat.le_refl _⟩

/-- What prints before a step that keeps the old appenders prints after it. -/
theorem Prints.of_frame (h : m.Prints l) (hf : Frame S m m') : m'.Prints l := by
  refine ⟨h.1, fun x hx => ?_⟩
  obtain ⟨hlt, hx⟩ := h.2 x hx
  exact ⟨Nat.lt_of_lt_of_le hlt hf.next, (hf.appender x hlt).symm ▸ hx⟩

/-- If only one logger has changed, that one is to be looked at. -/
theorem WellFormed.of_frame (hm : m.WellFormed) (hf : Frame (· = name) m m')
    (hl : ∀ l, m'.loggers name = some l → m'.Prints l) : m'.WellFormed := by
  intro n l hn
  by_cases h : n = name
  · exact hl l (h ▸ hn)
  · rw [hf.loggers n h] at hn
    exact (hm n l hn).of_frame hf

theorem WellFormed.setLogger (hm : m.WellFormed) (hl : m.Prints l) :
    (m.setLogger name l).WellFormed := by
  refine hm.of_frame frame_setLogger fun l' hl' => ?_
  rw [loggers_setLogger_self, Option.some.injEq] at hl'
  exact hl' ▸ hl

/-- The logger that `getLogger` returns is the one of the name from then on. -/
theorem getLogger_loggers : (m.getLogger name).2.loggers name = some (m.getLogger name).1 := by
  unfold getLogger
  split
  · next h => exact h
  · exact loggers_setLogger_self

theorem frame_getLogger : Frame (· = name) m (m.getLogger name).2 := by
  unfold getLogger
  split
  · exact Frame.refl _ m
  · exact frame_setLogger

theorem getLogger_of_some (h : m.loggers name = some l) : m.getLogger name = (l, m) := by
  rw [getLogger, h]

theorem WellFormed.getLogger (hm : m.WellFormed) (name : Bytes) :
    (m.getLogger name).2.WellFormed ∧ (m.getLogger name).2.Prints (m.getLogger name).1 := by
  have hwf : (m.getLogger name).2.WellFormed := by
    unfold LoggerManager.getLogger
    split
    · exact hm
    · exact hm.setLogger ⟨rfl, fun x hx => absurd hx List.not_mem_nil⟩
  exact ⟨hwf, hwf name _ getLogger_loggers⟩

theorem wellFormed_initial : initial.WellFormed := by
  unfold initial addAppender
  intro n l hl
  by_cases h : n = ascii "root"
  · subst h
    rw [loggers_setLogger_self, Option.some.injEq] at hl
    subst hl
    refine ⟨rfl, fun x hx => ?_⟩
    rw [List.nil_append, List.mem_singleton] at hx
    subst hx
    decide +kernel
  · rw [loggers_setLogger_of_ne h] at hl
    cases hl

/-- In a well-formed manager a format is set without a deadlock. -/
theorem setFormat_eq (hl : m.Prints l) (format : Bytes) :
    m.setFormat name l format =
      .ok (if (LogFormatter.parse format).hasError then m
        else m.setLogger name { l with formatter := some (.parse format) }) := by
  have hnone : (l.appenders.any fun x => !(m.appender x).hasFormatter) = false := by
    rw [List.any_eq_false]
    intro x hx
    rw [(hl.2 x hx).2]
    decide
  unfold setFormat setFormatter
  dsimp only
  split
  · rfl
  · exact if_neg (by simpa [setLogger] using hnone)

/-- What `addAppender` does to a new appender: it gets the formatter of the logger if it has none. -/
def inherit (f : Option LogFormatter) (a : LogAppender) : LogAppender :=
  if a.formatter = none then a.setFormatter f else a

/-- The manager after a new appender has been made and added. -/
theorem addAppender_newAppender (a : LogAppender) :
    (m.newAppender a).2.addAppender name l (m.newAppender a).1 =
      { loggers := Function.update m.loggers name
          (some { l with appenders := l.appenders ++ [m.nextAppender] })
        appender := Function.update m.appender m.nextAppender (inherit l.formatter a)
        nextAppender := m.nextAppender + 1 } := by
  have happ : ((m.newAppender a).2.appender m.nextAppender) = a := Function.update_self ..
  have hid : (m.newAppender a).1 = m.nextAppender := rfl
  unfold addAppender inherit
  rw [hid, happ]
  split
  · rw [← Function.update_idem a (a.setFormatter l.formatter) m.appender]
    rfl
  · rfl

end LoggerManager

end Nemo.Log
