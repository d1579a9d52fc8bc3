import Nemo.Http.Dump
import Nemo.Log.FormatterInheritance
import Nemo.Log.LogDefineYaml
import Nemo.Log.LogPattern

/-!
# From a pattern to the text of a record

`LogFormatter::format` of `src/log/log_formatter.cc`, and `Logger::log` of `src/log/logger.cc` with the `log` of the
appenders, over any calls that set up the loggers.

* `format_pattern` — a pattern without `%%` prints its elements one after the other
* `log_delivers` — no call blocks or finds a null formatter, and a record gets to each appender of its logger, or of
  the root logger if that has none, as the pattern of the appender says
-/

namespace Nemo.Log

open Function (update)
open Http Infra

/-- `LogEvent`. `logger` is the name of the logger that it was made for. -/
structure LogEvent where
  filename : Bytes
  line : Int32
  elapse : UInt32
  threadId : UInt32
  taskId : UInt32
  timestamp : Int64
  threadName : Bytes
  content : Bytes
  logger : Bytes

/-- `operator<<` for signed numbers. -/
def printed (n : Int) : Bytes := if n < 0 then 0x2d :: toDecimal n.natAbs else toDecimal n.toNat

section

/-
What `strftime` leaves in a buffer of the size that was zero, with a format, for the local time of some seconds since
the epoch.
-/
variable (strftime : Nat → Bytes → Int → Bytes)

/-- `Timestamp::toFormattedString` -/
def toFormattedString (timestamp : Int64) (format : Bytes) : Bytes :=
  cString (strftime 64 (cString format) (timestamp.toInt.tdiv 1000000))

/-- `FormatItem::format` of the classes of items. -/
def FormatItem.format (level : LogLevel) (event : LogEvent) : FormatItem → Bytes
  | .message => event.content
  | .level => logLevel2String level
  | .elapse => toDecimal event.elapse.toNat
  | .name => event.logger
  | .threadId => toDecimal event.threadId.toNat
  | .newLine => ascii "\n"
  | .dateTime format => toFormattedString strftime event.timestamp format
  | .filename => event.filename
  | .line => printed event.line.toInt
  | .tab => ascii "\t"
  | .taskId => toDecimal event.taskId.toNat
  | .threadName => event.threadName
  | .string str => str

/-- `LogFormatter::format` -/
def LogFormatter.format (f : LogFormatter) (level : LogLevel) (event : LogEvent) : Bytes :=
  f.items.flatMap (FormatItem.format strftime level event)

/-! ## What a pattern prints -/

/-- What an element of the pattern language stands for in a record. -/
def Pattern.Element.print (level : LogLevel) (event : LogEvent) : Pattern.Element → Bytes
  | .literal text => text
  | .percent => [0x25]
  | .directive x => (x.item []).format strftime level event
  | .formatted x fmt => (x.item fmt).format strftime level event

variable (level : LogLevel) (event : LogEvent)

theorem format_textItem (str : Bytes) :
    (Pattern.textItem str).flatMap (FormatItem.format strftime level event) = str := by
  unfold Pattern.textItem
  split
  · next h => rw [List.isEmpty_iff.mp h, List.flatMap_nil]
  · rw [List.flatMap_singleton]
    rfl

/-- However the literals are joined, the items print the elements. -/
theorem format_items (str : Bytes) (es : List Pattern.Element) :
    (Pattern.items str es).flatMap (FormatItem.format strftime level event) =
      str ++ es.flatMap (Pattern.Element.print strftime level event) := by
  induction es generalizing str with
  | nil => rw [Pattern.items, format_textItem, List.flatMap_nil, List.append_nil]
  | cons e es ih =>
    rw [List.flatMap_cons]
    cases e with
    | literal text =>
      rw [Pattern.items, ih, List.append_assoc]
      rfl
    | percent =>
      rw [Pattern.items, ih, List.append_assoc]
      rfl
    | directive x =>
      rw [Pattern.items, List.flatMap_append, format_textItem, List.flatMap_cons, ih, List.nil_append]
      rfl
    | formatted x fmt =>
      rw [Pattern.items, List.flatMap_append, format_textItem, List.flatMap_cons, ih, List.nil_append]
      rfl

/-- **A pattern prints its elements**, in order. -/
theorem format_pattern {es : List Pattern.Element} (hwf : Pattern.WellFormed es) (hno : .percent ∉ es) :
    (LogFormatter.parse (Pattern.pattern es)).format strftime level event =
      es.flatMap (Pattern.Element.print strftime level event) := by
  have hitems := congrArg Prod.fst ((Pattern.parse_eq (Pattern.pattern es)).trans
    (Pattern.outcome_of_noPercent hwf hno (Nat.le_refl _) []))
  unfold LogFormatter.format
  rw [show (LogFormatter.parse (Pattern.pattern es)).items = Pattern.items [] es from hitems, format_items]
  rfl

/-! ## Appenders and loggers -/

/--
`StdoutLogAppender::log` and `FileLogAppender::log`: the text that is printed, or handed to the buffers of the file,
which drop a text that is longer than one of them. `none` is a null formatter.
-/
def LogAppender.log (a : LogAppender) : Option (List Bytes) :=
  if a.level.toNat ≤ level.toNat then a.formatter.map fun f => [f.format strftime level event] else some []

namespace LoggerManager

variable (m : LoggerManager)

/-- The loop over the appenders. -/
def logAll : List AppenderId → Option (List (AppenderId × Bytes))
  | [] => some []
  | x :: xs => do
    let texts ← (m.appender x).log strftime level event
    let rest ← logAll xs
    some (texts.map (fun text => (x, text)) ++ rest)

/-- `rootLogger_` of the logger of a name. The root logger itself has none. -/
def rootLogger (name : Bytes) : Option Logger :=
  if name = ascii "root" then none else m.loggers (ascii "root")

/-- `Logger::log`, where `root` is what the root logger does. -/
def logTo (l : Logger) (root : Option (List (AppenderId × Bytes))) : Option (List (AppenderId × Bytes)) :=
  if l.level.toNat ≤ level.toNat then
    if l.appenders.isEmpty then root else m.logAll strftime level event l.appenders
  else some []

/-- `Logger::log` -/
def log (name : Bytes) (l : Logger) : Option (List (AppenderId × Bytes)) :=
  m.logTo strftime level event l
    (match m.rootLogger name with
      | none => some []
      | some root => m.logTo strftime level event root (some []))

/-! ## Calls -/

inductive Call
  | getLogger (name : Bytes)
  | newAppender (target : Target)
  | appenderLevel (x : AppenderId) (level : LogLevel)
  | appenderFormatter (x : AppenderId) (formatter : Option LogFormatter)
  | setting (name : Bytes) (a : Setting)
  | setLevel (name : Bytes) (level : LogLevel)
  | log (name : Bytes) (level : LogLevel) (event : LogEvent)

/-- The appenders that a call is given have been made. -/
def Made : Setting → Prop
  | .addAppender x => x < m.nextAppender
  | _ => True

instance (a : Setting) : Decidable (m.Made a) := by
  unfold Made
  split <;> infer_instance

/-- A call. `some none` is a process that is blocked, or has read a null formatter. -/
def call : Call → Option (Option LoggerManager)
  | .getLogger name => some (some (m.getLogger name).2)
  | .newAppender target => some (some (m.newAppender { target }).2)
  | .appenderLevel x level => some (some (m.setAppender x { m.appender x with level := level }))
  | .appenderFormatter x formatter => some (some (m.setAppender x ((m.appender x).setFormatter formatter)))
  | .setting name a => if m.Made a then (m.loggers name).map fun l => (m.apply name l a).toOption else none
  | .setLevel name level => (m.loggers name).map fun l => some (m.setLevel name l level)
  | .log name level event =>
    (m.loggers name).map fun l => (m.log strftime level event name l).map fun _ => m

/-- The loggers of a program. -/
def logging : Lts (Option LoggerManager) Call where
  init := some initial
  step s a := s.bind fun m => m.call strftime a

/-- The formatters that are set have been made from patterns, and none is null. -/
def Formatted : Call → Prop
  | .appenderFormatter _ formatter | .setting _ (.setFormatter formatter) =>
    ∃ f ∈ formatter, f = .parse f.pattern
  | _ => True

instance (a : Call) : Decidable (Formatted a) := by
  unfold Formatted
  split <;> infer_instance

/-- The appenders that a record of the level gets to, in order. -/
def recipients (name : Bytes) (l : Logger) : List AppenderId :=
  List.filter (fun x => decide ((m.appender x).level.toNat ≤ level.toNat))
    (if level.toNat < l.level.toNat then []
      else if l.appenders ≠ [] then l.appenders
      else
        match m.rootLogger name with
        | none => []
        | some root => if level.toNat < root.level.toNat then [] else root.appenders)

end LoggerManager

end

/-! ## Formatters of appenders that are used -/

/-- A formatter that was made from its pattern. -/
def Constructed (formatter : Option LogFormatter) : Prop := ∃ f ∈ formatter, f = .parse f.pattern

theorem Constructed.parse (pattern : Bytes) : Constructed (some (.parse pattern)) := ⟨_, rfl, rfl⟩

theorem Constructed.ne_none {formatter : Option LogFormatter} (h : Constructed formatter) : formatter ≠ none := by
  rintro rfl
  obtain ⟨f, hf, -⟩ := h
  cases hf

namespace LoggerManager

/-- Every formatter is one that was made, and every appender of a logger has one. -/
structure Dressed (m : LoggerManager) : Prop where
  loggers : ∀ name l, m.loggers name = some l → Constructed l.formatter
  used : ∀ name l, m.loggers name = some l → ∀ x ∈ l.appenders,
    x < m.nextAppender ∧ (m.appender x).formatter ≠ none
  appenders : ∀ x, (m.appender x).hasFormatter = (m.appender x).formatter.isSome ∧
    ((m.appender x).formatter = none ∨ Constructed (m.appender x).formatter)

variable {m m' : LoggerManager} {name : Bytes} {l : Logger}

theorem Dressed.setLogger (hm : m.Dressed) (hformatter : Constructed l.formatter)
    (hused : ∀ x ∈ l.appenders, x < m.nextAppender ∧ (m.appender x).formatter ≠ none) :
    (m.setLogger name l).Dressed := by
  have hcases : ∀ {n l'}, (m.setLogger name l).loggers n = some l' → l' = l ∨ m.loggers n = some l' := by
    intro n l' hl'
    by_cases hn : n = name
    · rw [hn, loggers_setLogger_self, Option.some.injEq] at hl'
      exact .inl hl'.symm
    · rw [loggers_setLogger_of_ne hn] at hl'
      exact .inr hl'
  refine ⟨fun n l' hl' => ?_, fun n l' hl' => ?_, hm.appenders⟩
  · rcases hcases hl' with rfl | hl'
    · exact hformatter
    · exact hm.loggers n l' hl'
  · rcases hcases hl' with rfl | hl'
    · exact hused
    · exact hm.used n l' hl'

/-- An appender that gets a formatter, or is not used. -/
theorem Dressed.setAppender (hm : m.Dressed) {x : AppenderId} {a : LogAppender}
    (hflag : a.hasFormatter = a.formatter.isSome) (hmade : a.formatter = none ∨ Constructed a.formatter)
    (hkept : a.formatter = none → (m.appender x).formatter = none) : (m.setAppender x a).Dressed := by
  have happ : ∀ y, (m.setAppender x a).appender y = if y = x then a else m.appender y :=
    fun y => Function.update_apply ..
  refine ⟨hm.loggers, fun n l' hl' y hy => ?_, fun y => ?_⟩
  · obtain ⟨hlt, hne⟩ := hm.used n l' hl' y hy
    refine ⟨hlt, ?_⟩
    rw [happ]
    split
    · next heq => exact fun hnone => hne (heq ▸ hkept hnone)
    · exact hne
  · rw [happ]
    split
    · exact ⟨hflag, hmade⟩
    · exact hm.appenders y

/-- A number that is not taken yet. -/
theorem Dressed.newAppender (hm : m.Dressed) (target : Target) : (m.newAppender { target }).2.Dressed := by
  have happ : ∀ y, (m.newAppender { target }).2.appender y =
      if y = m.nextAppender then { target } else m.appender y := fun y => Function.update_apply ..
  refine ⟨hm.loggers, fun n l' hl' y hy => ?_, fun y => ?_⟩
  · obtain ⟨hlt, hne⟩ := hm.used n l' hl' y hy
    refine ⟨Nat.lt_succ_of_lt hlt, ?_⟩
    rw [happ, if_neg (Nat.ne_of_lt hlt)]
    exact hne
  · rw [happ]
    split
    · exact ⟨rfl, .inl rfl⟩
    · exact hm.appenders y

theorem Dressed.getLogger (hm : m.Dressed) (name : Bytes) : (m.getLogger name).2.Dressed := by
  unfold LoggerManager.getLogger
  split
  · exact hm
  · exact hm.setLogger (.parse _) fun x hx => absurd hx List.not_mem_nil

theorem Dressed.addAppender (hm : m.Dressed) (hformatter : Constructed l.formatter)
    (hused : ∀ x ∈ l.appenders, x < m.nextAppender ∧ (m.appender x).formatter ≠ none) {x : AppenderId}
    (hx : x < m.nextAppender) : (m.addAppender name l x).Dressed := by
  unfold LoggerManager.addAppender
  dsimp only
  split
  · next hnone =>
    have hset : (m.setAppender x ((m.appender x).setFormatter l.formatter)).Dressed :=
      hm.setAppender rfl (.inr hformatter) fun h => absurd h hformatter.ne_none
    refine hset.setLogger hformatter fun y hy => ?_
    have happ : (m.setAppender x ((m.appender x).setFormatter l.formatter)).appender y =
        if y = x then (m.appender x).setFormatter l.formatter else m.appender y := Function.update_apply ..
    rw [happ]
    rcases List.mem_append.mp hy with hy | hy
    · refine ⟨(hused y hy).1, ?_⟩
      split
      · exact hformatter.ne_none
      · exact (hused y hy).2
    · cases List.mem_singleton.mp hy
      rw [if_pos rfl]
      exact ⟨hx, hformatter.ne_none⟩
  · next hsome =>
    refine hm.setLogger hformatter fun y hy => ?_
    rcases List.mem_append.mp hy with hy | hy
    · exact hused y hy
    · cases List.mem_singleton.mp hy
      exact ⟨hx, hsome⟩

/-- A formatter is set without a deadlock. -/
theorem Dressed.setFormatter (hm : m.Dressed) (hl : m.loggers name = some l) {formatter : Option LogFormatter}
    (hformatter : Constructed formatter) :
    ∃ m', m.setFormatter name l formatter = .ok m' ∧ m'.Dressed := by
  have hused := hm.used name l hl
  refine ⟨m.setLogger name { l with formatter := formatter }, ?_, hm.setLogger hformatter hused⟩
  refine if_neg (Bool.not_eq_true _ ▸ List.any_eq_false.mpr fun x hx => ?_)
  have hflag : (m.appender x).hasFormatter = true :=
    (hm.appenders x).1.trans (Option.isSome_iff_ne_none.mpr (hused x hx).2)
  rw [show ((m.setLogger name { l with formatter := formatter }).appender x).hasFormatter = true from hflag]
  decide

theorem Dressed.apply (hm : m.Dressed) (hl : m.loggers name = some l) {a : Setting} (hmade : m.Made a)
    (ha : Formatted (.setting name a)) : ∃ m', m.apply name l a = .ok m' ∧ m'.Dressed := by
  have hused := hm.used name l hl
  cases a with
  | addAppender x => exact ⟨_, rfl, hm.addAppender (hm.loggers name l hl) hused hmade⟩
  | delAppender x =>
    refine ⟨_, rfl, ?_⟩
    unfold LoggerManager.delAppender
    split
    · exact hm.setLogger (hm.loggers name l hl) fun y hy => hused y (List.mem_of_mem_erase hy)
    · exact hm
  | clearAppenders =>
    exact ⟨_, rfl, hm.setLogger (hm.loggers name l hl) fun y hy => absurd hy List.not_mem_nil⟩
  | setFormatter formatter => exact hm.setFormatter hl ha
  | setFormat format =>
    unfold LoggerManager.apply LoggerManager.setFormat
    dsimp only
    split
    · exact ⟨m, rfl, hm⟩
    · exact hm.setFormatter hl (.parse format)

/-! ## Where a record gets to -/

section

variable (strftime : Nat → Bytes → Int → Bytes) (level : LogLevel) (event : LogEvent)

/-- The text that an appender makes of a record. -/
def textOf (m : LoggerManager) (x : AppenderId) : Bytes :=
  match (m.appender x).formatter with
  | some f => f.format strftime level event
  | none => []

theorem logAll_eq {xs : List AppenderId} (hxs : ∀ x ∈ xs, (m.appender x).formatter ≠ none) :
    m.logAll strftime level event xs =
      some ((xs.filter fun x => decide ((m.appender x).level.toNat ≤ level.toNat)).map
        fun x => (x, m.textOf strftime level event x)) := by
  induction xs with
  | nil => rfl
  | cons x xs ih =>
    obtain ⟨f, hf⟩ := Option.ne_none_iff_exists'.mp (hxs x List.mem_cons_self)
    have htext : m.textOf strftime level event x = f.format strftime level event := by rw [textOf, hf]
    rw [logAll, LogAppender.log, ih fun y hy => hxs y (List.mem_cons_of_mem _ hy), hf, List.filter_cons]
    by_cases hle : (m.appender x).level.toNat ≤ level.toNat
    · rw [if_pos hle, if_pos (decide_eq_true hle), List.map_cons, htext]
      rfl
    · rw [if_neg hle, if_neg fun h => hle (of_decide_eq_true h)]
      rfl

/-- A record gets to its recipients. -/
theorem Dressed.log_eq (hm : m.Dressed) (hl : m.loggers name = some l) :
    m.log strftime level event name l =
      some ((m.recipients level name l).map fun x => (x, m.textOf strftime level event x)) := by
  have hall : ∀ {n l'}, m.loggers n = some l' → m.logAll strftime level event l'.appenders = _ := fun {n l'} hl' =>
    logAll_eq strftime level event fun x hx => (hm.used n l' hl' x hx).2
  have hto : ∀ {n l' root}, m.loggers n = some l' → m.logTo strftime level event l' root =
      if level.toNat < l'.level.toNat then some []
      else if l'.appenders ≠ [] then m.logAll strftime level event l'.appenders else root := by
    intro n l' root hl'
    unfold logTo
    by_cases hle : l'.level.toNat ≤ level.toNat
    · rw [if_pos hle, if_neg (Nat.not_lt.mpr hle)]
      by_cases happ : l'.appenders = []
      · rw [happ, if_neg (not_not_intro rfl)]
        rfl
      · rw [if_pos happ, if_neg (mt List.isEmpty_iff.mp happ)]
    · rw [if_neg hle, if_pos (Nat.not_le.mp hle)]
  unfold log recipients
  rw [hto hl]
  by_cases hlt : level.toNat < l.level.toNat
  · rw [if_pos hlt, if_pos hlt]
    rfl
  · rw [if_neg hlt, if_neg hlt]
    by_cases happ : l.appenders = []
    · rw [if_neg (not_not_intro happ), if_neg (not_not_intro happ)]
      cases hroot : m.rootLogger name with
      | none => rfl
      | some root =>
        have hrootl : m.loggers (ascii "root") = some root := by
          unfold rootLogger at hroot
          split at hroot
          · cases hroot
          · exact hroot
        dsimp only
        rw [hto hrootl]
        by_cases hlt' : level.toNat < root.level.toNat
        · rw [if_pos hlt', if_pos hlt']
          rfl
        · rw [if_neg hlt', if_neg hlt']
          by_cases happ' : root.appenders = []
          · rw [if_neg (not_not_intro happ'), happ']
            rfl
          · rw [if_pos happ']
            exact hall hrootl
    · rw [if_pos happ, if_pos happ]
      exact hall hl

/-- Whom a record gets to has a formatter. -/
theorem Dressed.of_mem_recipients (hm : m.Dressed) (hl : m.loggers name = some l) {x : AppenderId}
    (hx : x ∈ m.recipients level name l) : Constructed (m.appender x).formatter := by
  have hused : ∀ {n l'}, m.loggers n = some l' → x ∈ l'.appenders → Constructed (m.appender x).formatter :=
    fun {n l'} hl' hx => (hm.appenders x).2.resolve_left (hm.used n l' hl' x hx).2
  unfold recipients at hx
  replace hx := (List.mem_filter.mp hx).1
  split at hx
  · exact absurd hx List.not_mem_nil
  · split at hx
    · exact hused hl hx
    · split at hx
      · exact absurd hx List.not_mem_nil
      · next root hroot =>
        split at hx
        · exact absurd hx List.not_mem_nil
        · unfold rootLogger at hroot
          split at hroot
          · cases hroot
          · exact hused hroot hx

/-! ## Runs -/

theorem Dressed.call (hm : m.Dressed) {a : Call} (ha : Formatted a) {s : Option LoggerManager}
    (h : m.call strftime a = some s) : ∃ m', s = some m' ∧ m'.Dressed := by
  cases a with
  | getLogger name =>
    cases h
    exact ⟨_, rfl, hm.getLogger name⟩
  | newAppender target =>
    cases h
    exact ⟨_, rfl, hm.newAppender target⟩
  | appenderLevel x level =>
    cases h
    exact ⟨_, rfl, hm.setAppender (hm.appenders x).1 (hm.appenders x).2 id⟩
  | appenderFormatter x formatter =>
    cases h
    have hconstructed : Constructed formatter := ha
    exact ⟨_, rfl, hm.setAppender rfl (.inr hconstructed) fun hnone => absurd hnone hconstructed.ne_none⟩
  | setting name a =>
    unfold LoggerManager.call at h
    dsimp only at h
    split at h
    · next hmade =>
      obtain ⟨l, hl, rfl⟩ := Option.map_eq_some_iff.mp h
      obtain ⟨m', hok, hm'⟩ := hm.apply hl hmade ha
      exact ⟨m', by rw [hok]; rfl, hm'⟩
    · cases h
  | setLevel name level =>
    obtain ⟨l, hl, rfl⟩ := Option.map_eq_some_iff.mp h
    exact ⟨_, rfl, hm.setLogger (hm.loggers name l hl) (hm.used name l hl)⟩
  | log name level event =>
    obtain ⟨l, hl, rfl⟩ := Option.map_eq_some_iff.mp h
    exact ⟨m, by rw [hm.log_eq strftime level event hl]; rfl, hm⟩

theorem dressed_initial : initial.Dressed := by
  have hempty : LoggerManager.Dressed {} :=
    ⟨fun _ _ hl => (by cases hl), fun _ _ hl => (by cases hl), fun _ => ⟨rfl, .inl rfl⟩⟩
  have hmade : (LoggerManager.newAppender {} { target := .stdout }).2.Dressed := hempty.newAppender .stdout
  exact hmade.addAppender (.parse _) (fun x hx => absurd hx List.not_mem_nil) Nat.zero_lt_one

/-- In a run without null formatters no call blocks or reads one. -/
theorem dressed_of_reachable {s : Option LoggerManager}
    (h : (logging strftime).ReachableBy (fun _ a => Formatted a) s) : ∃ m, s = some m ∧ m.Dressed := by
  refine h.invariant (I := fun s => ∃ m, s = some m ∧ m.Dressed) ⟨initial, rfl, dressed_initial⟩ ?_
  rintro s a s' ⟨m, rfl, hm⟩ ha hstep
  exact hm.call strftime ha hstep

/--
**A record gets to each of its recipients, as the pattern of the appender says**, in every run in which no null
formatter is set, and no call of such a run blocks or reads a null formatter.
-/
theorem log_delivers {s : Option LoggerManager} (h : (logging strftime).ReachableBy (fun _ a => Formatted a) s) :
    ∃ m, s = some m ∧ ∀ name l, m.loggers name = some l → ∀ level event, ∃ text : AppenderId → Bytes,
      m.log strftime level event name l = some ((m.recipients level name l).map fun x => (x, text x)) ∧
      ∀ x ∈ m.recipients level name l, ∃ pattern, (m.appender x).formatter = some (.parse pattern) ∧
        text x = (LogFormatter.parse pattern).format strftime level event ∧
        ∀ es, Pattern.WellFormed es → .percent ∉ es → pattern = Pattern.pattern es →
          text x = es.flatMap (Pattern.Element.print strftime level event) := by
  obtain ⟨m, rfl, hm⟩ := dressed_of_reachable strftime h
  refine ⟨m, rfl, fun name l hl level event =>
    ⟨m.textOf strftime level event, hm.log_eq strftime level event hl, fun x hx => ?_⟩⟩
  obtain ⟨f, hf, hparse⟩ := hm.of_mem_recipients level hl hx
  have htext : m.textOf strftime level event x = f.format strftime level event := by
    rw [textOf, Option.mem_def.mp hf]
  refine ⟨f.pattern, hparse ▸ hf, hparse ▸ htext, fun es hwf hno hpattern => ?_⟩
  rw [htext, hparse, hpattern]
  exact format_pattern strftime level event hwf hno

end

/-- A logger for warnings with an appender of its own, and one that leaves its records to the root logger. -/
def warnings : List Call :=
  [.getLogger (ascii "app"), .newAppender .stdout,
    .appenderFormatter 1 (some (.parse (ascii "[%p]%T%c:%l %m%n"))), .setting (ascii "app") (.addAppender 1),
    .setLevel (ascii "app") .warn, .getLogger (ascii "net"), .appenderFormatter 0 (some (.parse (ascii "%m%n")))]

def lowDisk : LogEvent where
  filename := ascii "disk.cc"
  line := 17
  elapse := 0
  threadId := 1
  taskId := 0
  timestamp := 0
  threadName := ascii "main"
  content := ascii "disk is low"
  logger := ascii "app"

theorem log_delivers_warnings : ∃ s, (logging fun _ _ _ => []).runBy (fun _ a => Formatted a)
      (some initial) warnings = some (some s) ∧
    (∃ l, s.loggers (ascii "app") = some l ∧ s.log (fun _ _ _ => []) .error lowDisk (ascii "app") l =
      some [(1, ascii "[ERROR]\tapp:17 disk is low\n")]) ∧
    ∃ m, some s = some m ∧ ∀ name l, m.loggers name = some l → ∀ level event, ∃ text : AppenderId → Bytes,
      m.log (fun _ _ _ => []) level event name l = some ((m.recipients level name l).map fun x => (x, text x)) ∧
      ∀ x ∈ m.recipients level name l, ∃ pattern, (m.appender x).formatter = some (.parse pattern) ∧
        text x = (LogFormatter.parse pattern).format (fun _ _ _ => []) level event ∧
        ∀ es, Pattern.WellFormed es → .percent ∉ es → pattern = Pattern.pattern es →
          text x = es.flatMap (Pattern.Element.print (fun _ _ _ => []) level event) := by
  have hrun : (((logging fun _ _ _ => []).runBy (fun _ a => Formatted a) (some initial) warnings).bind
      fun s => s.bind fun s => (s.loggers (ascii "app")).bind
        fun l => s.log (fun _ _ _ => []) .error lowDisk (ascii "app") l) =
      some [(1, ascii "[ERROR]\tapp:17 disk is low\n")] := by
    decide +kernel
  obtain ⟨s, hs, hbind⟩ := Option.bind_eq_some_iff.mp hrun
  obtain ⟨m, rfl, hlogger⟩ := Option.bind_eq_some_iff.mp hbind
  obtain ⟨l, hl, hlog⟩ := Option.bind_eq_some_iff.mp hlogger
  exact ⟨m, hs, ⟨l, hl, hlog⟩, log_delivers (fun _ _ _ => []) (.of_runBy .init hs)⟩

end LoggerManager

end Nemo.Log
