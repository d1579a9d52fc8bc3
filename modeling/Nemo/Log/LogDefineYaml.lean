import Nemo.Common.YamlNode
import Nemo.Log.LogIniter

/-!
# `LogDefine` as YAML

The two `LexicalCast`s of `LogDefine` in `src/log/log.cc`, and its `operator==`. The level of an appender
is encoded, but not decoded. `operator==` leaves out the thresholds of a file appender.

`logDefine_iff` — which definitions are decoded as they were encoded, and which are told apart
-/

namespace Nemo.Log

open Http Yaml

/-! ## Levels -/

/-- `LogLevel2String`. -/
def logLevel2String : LogLevel → Bytes
  | .debug => ascii "DEBUG"
  | .info => ascii "INFO"
  | .warn => ascii "WARN"
  | .error => ascii "ERROR"
  | .fatal => ascii "FATAL"
  | .all => ascii "ALL"

/-- `String2LogLevel`, which takes a beginning of the name too. -/
def string2LogLevel (str : Bytes) : LogLevel :=
  if strncasecmp str (ascii "debug") str.length = .eq then .debug
  else if strncasecmp str (ascii "info") str.length = .eq then .info
  else if strncasecmp str (ascii "warn") str.length = .eq then .warn
  else if strncasecmp str (ascii "error") str.length = .eq then .error
  else if strncasecmp str (ascii "fatal") str.length = .eq then .fatal
  else .all

theorem string2LogLevel_logLevel2String (level : LogLevel) :
    string2LogLevel (logLevel2String level) = level := by
  cases level <;> decide

section

variable (yaml : YamlCpp) (size : Convert UInt64) (off : Convert Int64)

/-! ## The casts -/

namespace LogAppenderDefine

/-- What the encoder assigns in each of the branches. -/
def fieldsOfType (appender : LogAppenderDefine) : List (Bytes × Option Node) :=
  if appender.type = 1 then
    [(ascii "type", some (.scalar (ascii "FileLogAppender"))),
      (ascii "file", some (.scalar appender.file)),
      (ascii "flush_interval", some (.scalar (size.encode appender.flushInterval))),
      (ascii "roll_threshold", some (.scalar (off.encode appender.rollThreshold))),
      (ascii "check_threshold", some (.scalar (size.encode appender.checkThreshold)))]
  else if appender.type = 2 then
    [(ascii "type", some (.scalar (ascii "StdoutLogAppender"))),
      (ascii "flush_interval", some (.scalar (size.encode appender.flushInterval)))]
  else []

/-- What the encoder assigns to the keys of `appenderNode`. -/
def fields (appender : LogAppenderDefine) : List (Bytes × Option Node) :=
  appender.fieldsOfType size off ++
    [(ascii "level", some (.scalar (logLevel2String appender.level))),
      (ascii "format", Node.given (!appender.format.isEmpty) appender.format)]

def toNode (appender : LogAppenderDefine) : Node := .ofFields (appender.fields size off)

/-- The branch of `FileLogAppender`. Without a file the appender is left out. -/
def ofFileNode (appender : Node) : Option (Option LogAppenderDefine) := do
  let logAppenderDefine : LogAppenderDefine := { type := 1 }
  match ← appender.subscript (ascii "file") with
  | none => return none
  | some file =>
    let file ← file.asString
    let format ← appender.optional Node.asString logAppenderDefine.format (ascii "format")
    let flushInterval ←
      appender.optional size.decode logAppenderDefine.flushInterval (ascii "flush_interval")
    let rollThreshold ←
      appender.optional off.decode logAppenderDefine.rollThreshold (ascii "roll_threshold")
    let checkThreshold ←
      appender.optional size.decode logAppenderDefine.checkThreshold (ascii "check_threshold")
    return some { logAppenderDefine with
      file := file
      format := format
      flushInterval := flushInterval
      rollThreshold := rollThreshold
      checkThreshold := checkThreshold }

/-- The branch of `StdoutLogAppender`. -/
def ofStdoutNode (appender : Node) : Option (Option LogAppenderDefine) := do
  let logAppenderDefine : LogAppenderDefine := { type := 2 }
  let format ← appender.optional Node.asString logAppenderDefine.format (ascii "format")
  let flushInterval ←
    appender.optional size.decode logAppenderDefine.flushInterval (ascii "flush_interval")
  return some { logAppenderDefine with format := format, flushInterval := flushInterval }

/-- One round of the decoder's loop. An appender without a type, or with another one, is left out. -/
def ofNode : Option Node → Option (Option LogAppenderDefine)
  | none => some none
  | some appender => do
    match ← appender.subscript (ascii "type") with
    | none => return none
    | some type =>
      let type ← type.asString
      if type = ascii "FileLogAppender" then ofFileNode size off appender
      else if type = ascii "StdoutLogAppender" then ofStdoutNode size appender
      else return none

end LogAppenderDefine

namespace LogDefine

/-- What the encoder assigns to the keys of the document. -/
def fields (logDefine : LogDefine) : List (Bytes × Option Node) :=
  [(ascii "name", some (.scalar logDefine.name)),
    (ascii "level", some (.scalar (logLevel2String logDefine.level))),
    (ascii "format", Node.given (!logDefine.format.isEmpty) logDefine.format),
    (ascii "appenders", if logDefine.appenders.isEmpty then none
      else some (.ofItems (logDefine.appenders.map (LogAppenderDefine.toNode size off))))]

def toNode (logDefine : LogDefine) : Node := .ofFields (logDefine.fields size off)

/-- `LexicalCast<String, LogDefine>`. -/
def encode (logDefine : LogDefine) : Bytes := yaml.emit (logDefine.toNode size off)

/-- The loop over `node["appenders"]`. -/
def appendersOfNode (appenders : Node) : Option (List LogAppenderDefine) := do
  let items ← (appenders.items yaml).mapM (LogAppenderDefine.ofNode size off)
  return items.filterMap id

def ofNode (node : Node) : Option LogDefine := do
  let name ← node.required Node.asString (ascii "name")
  let level ← node.optional Node.asString [] (ascii "level")
  let format ← node.optional Node.asString [] (ascii "format")
  let appenders ← node.optional (appendersOfNode yaml size off) [] (ascii "appenders")
  return { level := string2LogLevel level, appenders := appenders, name := name, format := format }

/-- `LexicalCast<LogDefine, String>`. -/
def decode (yamlStr : Bytes) : Option LogDefine := do
  ofNode yaml size off (← yaml.load yamlStr)

end LogDefine

/-! ## Agreement -/

/-- The two appenders are the same in what is encoded of the first, which is what the listener uses and
the flush interval of a console appender. -/
structure LogAppenderDefine.Agrees (a b : LogAppenderDefine) : Prop where
  type : b.type = a.type
  level : b.level = a.level
  format : b.format = a.format
  flushInterval : b.flushInterval = a.flushInterval
  file : a.type = 1 → b.file = a.file
  rollThreshold : a.type = 1 → b.rollThreshold = a.rollThreshold
  checkThreshold : a.type = 1 → b.checkThreshold = a.checkThreshold

structure LogDefine.Agrees (d e : LogDefine) : Prop where
  name : e.name = d.name
  level : e.level = d.level
  format : e.format = d.format
  appenders : List.Forall₂ LogAppenderDefine.Agrees d.appenders e.appenders

/-- The two appenders are the same in all but the thresholds. -/
structure LogAppenderDefine.Alike (a b : LogAppenderDefine) : Prop where
  type : a.type = b.type
  level : a.level = b.level
  format : a.format = b.format
  file : a.file = b.file
  flushInterval : a.flushInterval = b.flushInterval

structure LogDefine.Alike (d e : LogDefine) : Prop where
  name : d.name = e.name
  level : d.level = e.level
  format : d.format = e.format
  appenders : List.Forall₂ LogAppenderDefine.Alike d.appenders e.appenders

/-- The thresholds, if the appender is a file appender. -/
def LogAppenderDefine.SameThresholds (a b : LogAppenderDefine) : Prop :=
  a.type = 1 → b.rollThreshold = a.rollThreshold ∧ b.checkThreshold = a.checkThreshold

theorem LogAppenderDefine.eq_iff {a b : LogAppenderDefine} : a.eq b = true ↔ a.Alike b := by
  simp only [LogAppenderDefine.eq, Bool.and_eq_true, beq_iff_eq]
  constructor
  · rintro ⟨⟨⟨⟨htype, hlevel⟩, hformat⟩, hfile⟩, hflush⟩
    exact ⟨htype, hlevel, hformat, hfile, hflush⟩
  · rintro ⟨htype, hlevel, hformat, hfile, hflush⟩
    exact ⟨⟨⟨⟨htype, hlevel⟩, hformat⟩, hfile⟩, hflush⟩

theorem eqAppenders_iff {as bs : List LogAppenderDefine} :
    eqAppenders as bs = true ↔ List.Forall₂ LogAppenderDefine.Alike as bs := by
  induction as generalizing bs with
  | nil => cases bs <;> simp [eqAppenders]
  | cons a as ih =>
    cases bs with
    | nil => simp [eqAppenders]
    | cons b bs => simp [eqAppenders, LogAppenderDefine.eq_iff, ih]

theorem LogDefine.eq_iff {d e : LogDefine} : d.eq e = true ↔ d.Alike e := by
  simp only [LogDefine.eq, Bool.and_eq_true, beq_iff_eq, eqAppenders_iff]
  constructor
  · rintro ⟨⟨⟨hname, hlevel⟩, happenders⟩, hformat⟩
    exact ⟨hname, hlevel, hformat, happenders⟩
  · rintro ⟨hname, hlevel, hformat, happenders⟩
    exact ⟨⟨⟨hname, hlevel⟩, happenders⟩, hformat⟩

/-- Appenders that are alike agree if their thresholds do. -/
theorem LogAppenderDefine.Alike.agrees_iff {a b : LogAppenderDefine} (h : a.Alike b) :
    a.Agrees b ↔ a.SameThresholds b := by
  constructor
  · intro hagrees htype
    exact ⟨hagrees.rollThreshold htype, hagrees.checkThreshold htype⟩
  · intro hthresholds
    exact ⟨h.type.symm, h.level.symm, h.format.symm, h.flushInterval.symm, fun _ => h.file.symm,
      fun htype => (hthresholds htype).1, fun htype => (hthresholds htype).2⟩

theorem forall₂_agrees_iff {as bs : List LogAppenderDefine}
    (h : List.Forall₂ LogAppenderDefine.Alike as bs) :
    List.Forall₂ LogAppenderDefine.Agrees as bs ↔
      List.Forall₂ LogAppenderDefine.SameThresholds as bs := by
  induction h with
  | nil => simp
  | cons hhead _ ih => simp [hhead.agrees_iff, ih]

theorem LogDefine.Alike.agrees_iff {d e : LogDefine} (h : d.Alike e) :
    d.Agrees e ↔ List.Forall₂ LogAppenderDefine.SameThresholds d.appenders e.appenders := by
  rw [← forall₂_agrees_iff h.appenders]
  exact ⟨fun hagrees => hagrees.appenders,
    fun hagrees => ⟨h.name.symm, h.level.symm, h.format.symm, hagrees⟩⟩

/-- `operator==` tells two definitions apart if they do not agree. -/
def TellsApart (d e : LogDefine) : Prop := ¬ d.Agrees e → d.eq e = false

theorem tellsApart_iff {d e : LogDefine} :
    TellsApart d e ↔
      (d.Alike e → List.Forall₂ LogAppenderDefine.SameThresholds d.appenders e.appenders) := by
  rw [TellsApart, ← Bool.not_eq_true, LogDefine.eq_iff, not_imp_not]
  exact forall_congr' fun halike => halike.agrees_iff

/-! ## The round trip -/

def RoundTrip (logDefine : LogDefine) : Prop :=
  ∃ logDefine', LogDefine.decode yaml size off (logDefine.encode yaml size off) = some logDefine' ∧
    logDefine.Agrees logDefine'

/-- A name, and appenders of the two types, with a file if it is a file appender. -/
structure LogDefine.Valid (logDefine : LogDefine) : Prop where
  name : logDefine.name ≠ []
  appenders : ∀ a ∈ logDefine.appenders, a.type = 1 ∧ a.file ≠ [] ∨ a.type = 2

/-- yaml-cpp loads the document as it was emitted, and reads the integers in it back. -/
structure Faithful (logDefine : LogDefine) : Prop where
  loads : yaml.load (yaml.emit (logDefine.toNode size off)) = some (logDefine.toNode size off)
  flushInterval : ∀ a ∈ logDefine.appenders,
    size.decode (.scalar (size.encode a.flushInterval)) = some a.flushInterval
  rollThreshold : ∀ a ∈ logDefine.appenders, a.type = 1 →
    off.decode (.scalar (off.encode a.rollThreshold)) = some a.rollThreshold
  checkThreshold : ∀ a ∈ logDefine.appenders, a.type = 1 →
    size.decode (.scalar (size.encode a.checkThreshold)) = some a.checkThreshold

/-- What is decoded of an appender: its level is the default. -/
def LogAppenderDefine.decoded (a : LogAppenderDefine) : LogAppenderDefine :=
  if a.type = 1 then { a with level := .all }
  else { type := 2, format := a.format, flushInterval := a.flushInterval }

variable {yaml size off}

/-- The default of a format is the empty text. -/
theorem ite_isEmpty (text : Bytes) : (if text.isEmpty then [] else text) = text := by
  cases text <;> rfl

section

variable {a : LogAppenderDefine}

theorem LogAppenderDefine.fields_of_file (htype : a.type = 1) :
    a.fields size off =
      [(ascii "type", some (.scalar (ascii "FileLogAppender"))),
        (ascii "file", some (.scalar a.file)),
        (ascii "flush_interval", some (.scalar (size.encode a.flushInterval))),
        (ascii "roll_threshold", some (.scalar (off.encode a.rollThreshold))),
        (ascii "check_threshold", some (.scalar (size.encode a.checkThreshold))),
        (ascii "level", some (.scalar (logLevel2String a.level))),
        (ascii "format", Node.given (!a.format.isEmpty) a.format)] := by
  rw [LogAppenderDefine.fields, LogAppenderDefine.fieldsOfType, if_pos htype]
  rfl

theorem LogAppenderDefine.fields_of_stdout (htype : a.type = 2) :
    a.fields size off =
      [(ascii "type", some (.scalar (ascii "StdoutLogAppender"))),
        (ascii "flush_interval", some (.scalar (size.encode a.flushInterval))),
        (ascii "level", some (.scalar (logLevel2String a.level))),
        (ascii "format", Node.given (!a.format.isEmpty) a.format)] := by
  have hne : a.type ≠ 1 := by rw [htype]; decide
  rw [LogAppenderDefine.fields, LogAppenderDefine.fieldsOfType, if_neg hne, if_pos htype]
  rfl

theorem LogAppenderDefine.nodup_fields (htype : a.type = 1 ∨ a.type = 2) :
    ((a.fields size off).map Prod.fst).Nodup := by
  rcases htype with htype | htype
  · rw [fields_of_file htype]
    simp only [List.map_cons, List.map_nil]
    decide
  · rw [fields_of_stdout htype]
    simp only [List.map_cons, List.map_nil]
    decide

/-- An integer that is always assigned. -/
theorem LogAppenderDefine.optional_toNode {T : Type} {convert : Convert T} {key : Bytes} {n : T}
    (htype : a.type = 1 ∨ a.type = 2)
    (hmem : (key, some (.scalar (convert.encode n))) ∈ a.fields size off)
    (hn : convert.decode (.scalar (convert.encode n)) = some n) (default : T) :
    (a.toNode size off).optional convert.decode default key = some n := by
  rw [toNode, Node.optional_ofFields _ _ (nodup_fields htype) hmem]
  exact hn

theorem LogAppenderDefine.optional_format (htype : a.type = 1 ∨ a.type = 2) :
    (a.toNode size off).optional Node.asString [] (ascii "format") = some a.format := by
  have hmem : (ascii "format", Node.given (!a.format.isEmpty) a.format) ∈ a.fields size off :=
    List.mem_append_right _ (by simp)
  rw [toNode, Node.optional_asString [] (nodup_fields htype) hmem, ite_isEmpty]

theorem LogAppenderDefine.ofFileNode_toNode (htype : a.type = 1)
    (hflush : size.decode (.scalar (size.encode a.flushInterval)) = some a.flushInterval)
    (hroll : off.decode (.scalar (off.encode a.rollThreshold)) = some a.rollThreshold)
    (hcheck : size.decode (.scalar (size.encode a.checkThreshold)) = some a.checkThreshold) :
    ofFileNode size off (a.toNode size off) = some (some { a with level := .all }) := by
  have hfile : (ascii "file", some (.scalar a.file)) ∈ a.fields size off := by
    simp [fields_of_file htype]
  have hflushMem : (ascii "flush_interval", some (.scalar (size.encode a.flushInterval))) ∈
      a.fields size off := by simp [fields_of_file htype]
  have hrollMem : (ascii "roll_threshold", some (.scalar (off.encode a.rollThreshold))) ∈
      a.fields size off := by simp [fields_of_file htype]
  have hcheckMem : (ascii "check_threshold", some (.scalar (size.encode a.checkThreshold))) ∈
      a.fields size off := by simp [fields_of_file htype]
  have hsubscript : (a.toNode size off).subscript (ascii "file") = some (some (.scalar a.file)) :=
    Node.subscript_ofFields (nodup_fields (.inl htype)) hfile
  rw [ofFileNode, hsubscript]
  simp only [Node.asString, optional_format (.inl htype),
    optional_toNode (.inl htype) hflushMem hflush, optional_toNode (.inl htype) hrollMem hroll,
    optional_toNode (.inl htype) hcheckMem hcheck, Option.bind_eq_bind, Option.bind_some,
    Option.pure_def, ← htype]

theorem LogAppenderDefine.ofStdoutNode_toNode (htype : a.type = 2)
    (hflush : size.decode (.scalar (size.encode a.flushInterval)) = some a.flushInterval) :
    ofStdoutNode size (a.toNode size off) =
      some (some { type := 2, format := a.format, flushInterval := a.flushInterval }) := by
  have hflushMem : (ascii "flush_interval", some (.scalar (size.encode a.flushInterval))) ∈
      a.fields size off := by simp [fields_of_stdout htype]
  simp only [ofStdoutNode, optional_format (.inr htype),
    optional_toNode (.inr htype) hflushMem hflush, Option.bind_eq_bind, Option.bind_some,
    Option.pure_def]

end

variable {logDefine d e : LogDefine}

/-- One round of the decoder's loop, on an appender as it was encoded. -/
theorem ofNode_toNode (h : Faithful yaml size off logDefine) {a : LogAppenderDefine}
    (ha : a ∈ logDefine.appenders) (htype : a.type = 1 ∨ a.type = 2) :
    LogAppenderDefine.ofNode size off (some (a.toNode size off)) = some (some a.decoded) := by
  have hnodup : ((a.fields size off).map Prod.fst).Nodup := LogAppenderDefine.nodup_fields htype
  rcases htype with htype | htype
  · have hmem : (ascii "type", some (.scalar (ascii "FileLogAppender"))) ∈ a.fields size off := by
      simp [LogAppenderDefine.fields_of_file htype]
    have hsubscript : (a.toNode size off).subscript (ascii "type") = _ :=
      Node.subscript_ofFields hnodup hmem
    have hfile : LogAppenderDefine.ofFileNode size off (a.toNode size off) = _ :=
      LogAppenderDefine.ofFileNode_toNode htype (h.flushInterval a ha) (h.rollThreshold a ha htype)
        (h.checkThreshold a ha htype)
    rw [LogAppenderDefine.decoded, if_pos htype, ← hfile, LogAppenderDefine.ofNode, hsubscript]
    rfl
  · have hmem : (ascii "type", some (.scalar (ascii "StdoutLogAppender"))) ∈ a.fields size off := by
      simp [LogAppenderDefine.fields_of_stdout htype]
    have hsubscript : (a.toNode size off).subscript (ascii "type") = _ :=
      Node.subscript_ofFields hnodup hmem
    have hne : a.type ≠ 1 := by rw [htype]; decide
    have hstdout : LogAppenderDefine.ofStdoutNode size (a.toNode size off) = _ :=
      LogAppenderDefine.ofStdoutNode_toNode htype (h.flushInterval a ha)
    rw [LogAppenderDefine.decoded, if_neg hne, ← hstdout, LogAppenderDefine.ofNode, hsubscript]
    rfl

/-- The appenders are all decoded, and in their order. -/
theorem appendersOfNode_ofItems (h : Faithful yaml size off d) (hvalid : d.Valid) :
    LogDefine.appendersOfNode yaml size off
      (.ofItems (d.appenders.map (LogAppenderDefine.toNode size off))) =
      some (d.appenders.map LogAppenderDefine.decoded) := by
  have hitems : (d.appenders.map (some ∘ LogAppenderDefine.toNode size off)).mapM
      (LogAppenderDefine.ofNode size off) =
        some (d.appenders.map (some ∘ LogAppenderDefine.decoded)) := by
    rw [List.mapM_map, mapM_eq_some_iff, List.forall₂_map_right_iff, List.forall₂_same]
    intro a ha
    exact ofNode_toNode h ha ((hvalid.appenders a ha).imp_left And.left)
  rw [LogDefine.appendersOfNode, Node.items_ofItems, List.map_map, hitems]
  simp

theorem LogDefine.nodup_fields : ((d.fields size off).map Prod.fst).Nodup := by
  simp only [LogDefine.fields, List.map_cons, List.map_nil]
  decide

/-- A definition is decoded as it was encoded, but for the levels of the appenders. -/
theorem decode_encode (h : Faithful yaml size off d) (hvalid : d.Valid) :
    LogDefine.decode yaml size off (d.encode yaml size off) =
      some { d with appenders := d.appenders.map LogAppenderDefine.decoded } := by
  have hfield {i : Nat} {field : Bytes × Option Node} (hi : (d.fields size off)[i]? = some field) :
      field ∈ d.fields size off := List.mem_of_getElem? hi
  have hnodup : ((d.fields size off).map Prod.fst).Nodup := LogDefine.nodup_fields
  have hname := Node.required_ofFields Node.asString hnodup (hfield (i := 0) rfl)
  have hlevel := Node.optional_ofFields Node.asString [] hnodup (hfield (i := 1) rfl)
  have hformat := Node.optional_asString [] hnodup (hfield (i := 2) rfl)
  have happenders := Node.optional_ofFields (LogDefine.appendersOfNode yaml size off) [] hnodup
    (hfield (i := 3) rfl)
  have hdecoded : (if d.appenders.isEmpty then none
      else some (Node.ofItems (d.appenders.map (LogAppenderDefine.toNode size off)))).elim (some [])
        (LogDefine.appendersOfNode yaml size off) =
      some (d.appenders.map LogAppenderDefine.decoded) := by
    cases hempty : d.appenders.isEmpty with
    | true =>
      rw [List.isEmpty_iff.mp hempty]
      rfl
    | false => exact appendersOfNode_ofItems h hvalid
  rw [LogDefine.decode, LogDefine.encode, h.loads, Option.bind_eq_bind, Option.bind_some,
    LogDefine.ofNode, LogDefine.toNode, hname, hlevel, hformat, happenders, hdecoded, ite_isEmpty]
  simp only [Option.elim_some, Node.asString, Option.bind_eq_bind, Option.bind_some,
    string2LogLevel_logLevel2String]
  rfl

/-- The level of a decoded appender is the default. -/
theorem LogAppenderDefine.agrees_decoded_iff {a : LogAppenderDefine}
    (htype : a.type = 1 ∨ a.type = 2) :
    a.Agrees a.decoded ↔ a.level = .all := by
  rw [decoded]
  by_cases hfile : a.type = 1
  · rw [if_pos hfile]
    refine ⟨fun h => h.level.symm, fun h => ?_⟩
    exact ⟨rfl, h.symm, rfl, rfl, fun _ => rfl, fun _ => rfl, fun _ => rfl⟩
  · rw [if_neg hfile]
    refine ⟨fun h => h.level.symm, fun h => ?_⟩
    have hstdout := htype.resolve_left hfile
    exact ⟨hstdout.symm, h.symm, rfl, rfl, fun h => absurd h hfile, fun h => absurd h hfile,
      fun h => absurd h hfile⟩

theorem roundTrip_iff_levels (h : Faithful yaml size off d) (hvalid : d.Valid) :
    RoundTrip yaml size off d ↔ ∀ a ∈ d.appenders, a.level = .all := by
  have hagrees (a : LogAppenderDefine) (ha : a ∈ d.appenders) :
      a.Agrees a.decoded ↔ a.level = .all :=
    LogAppenderDefine.agrees_decoded_iff ((hvalid.appenders a ha).imp_left And.left)
  rw [RoundTrip, decode_encode h hvalid]
  constructor
  · rintro ⟨d', hd', hagree⟩ a ha
    cases hd'
    have happenders := hagree.appenders
    rw [List.forall₂_map_right_iff, List.forall₂_same] at happenders
    exact (hagrees a ha).mp (happenders a ha)
  · intro hlevels
    refine ⟨_, rfl, rfl, rfl, rfl, ?_⟩
    rw [List.forall₂_map_right_iff, List.forall₂_same]
    exact fun a ha => (hagrees a ha).mpr (hlevels a ha)

/--
**A definition is decoded as it was encoded if and only if its appenders have the level `ALL`, and two
definitions are told apart unless they differ in nothing but the thresholds of a file appender.**
-/
theorem logDefine_iff (h : Faithful yaml size off d) (hvalid : d.Valid) :
    RoundTrip yaml size off d ∧ TellsApart d e ↔
      (∀ a ∈ d.appenders, a.level = .all) ∧
      (d.Alike e → List.Forall₂ LogAppenderDefine.SameThresholds d.appenders e.appenders) :=
  and_congr (roundTrip_iff_levels h hvalid) tellsApart_iff

end

/-! ## A definition of one logger -/

def printField : Bytes × Node → Bytes
  | (key, .scalar text) => key ++ ascii ": " ++ text
  | (key, _) => key ++ ascii ": ~"

/-- An item of a sequence, which is a map of plain scalars. -/
def printItem : Node → List Bytes
  | .map (field :: fields) =>
    (ascii "  - " ++ printField field) :: fields.map fun field => ascii "    " ++ printField field
  | _ => [ascii "  - ~"]

def printEntry : Bytes × Node → List Bytes
  | (key, .sequence items) => (key ++ ascii ":") :: items.flatMap printItem
  | field => [printField field]

def parseField (line : Bytes) : Bytes × Node :=
  (line.takeWhile (· != 58), .scalar ((line.dropWhile (· != 58)).drop 2))

/-- One line, before the entries, the items and the fields that have been parsed of the lines after it. -/
def parseLine (line : Bytes) : List (Bytes × Node) × List Node × List (Bytes × Node) →
    List (Bytes × Node) × List Node × List (Bytes × Node)
  | (entries, items, fields) =>
    if (ascii "    ").isPrefixOf line then (entries, items, parseField (line.drop 4) :: fields)
    else if (ascii "  - ").isPrefixOf line then
      (entries, .map (parseField (line.drop 4) :: fields) :: items, [])
    else if line.getLast? = some 58 then ((line.dropLast, .sequence items) :: entries, [], [])
    else (parseField line :: entries, items, [])

/-- The part of yaml-cpp that prints and parses a block map of scalars and of sequences of maps. -/
def nestedYaml : YamlCpp where
  emit
    | .map entries => [10].intercalate (entries.flatMap printEntry)
    | _ => ascii "~"
  load text := some (.map ((text.splitOn 10).foldr parseLine ([], [], [])).1)
  isIndex key i := key == ascii (toString i)

def unsigned : Convert UInt64 where
  encode n := printDecimal n.toNat
  decode
    | .scalar digits => some (UInt64.ofNat (readDecimal digits))
    | _ => none

def signed : Convert Int64 where
  encode n := (if n < 0 then [45] else []) ++ printDecimal n.toInt.natAbs
  decode
    | .scalar (45 :: digits) => some (-Int64.ofNat (readDecimal digits))
    | .scalar digits => some (Int64.ofNat (readDecimal digits))
    | _ => none

/-- A logger with one appender to a file, of the given level. -/
def root (level : LogLevel) (rollThreshold : Int64) : LogDefine where
  level := .info
  name := ascii "root"
  appenders := [{
    type := 1
    level := level
    file := ascii "/tmp/root.log"
    rollThreshold := rollThreshold }]

theorem valid_root (level : LogLevel) (rollThreshold : Int64) : (root level rollThreshold).Valid where
  name := nofun
  appenders := by simp [root, ascii]

theorem faithful_root {level : LogLevel} (h : level = .all ∨ level = .warn) :
    Faithful nestedYaml unsigned signed (root level 4096) where
  loads := by rcases h with rfl | rfl <;> rfl
  flushInterval a ha := by
    cases List.mem_singleton.mp ha
    dsimp only
    decide
  rollThreshold a ha _ := by
    cases List.mem_singleton.mp ha
    dsimp only
    decide
  checkThreshold a ha _ := by
    cases List.mem_singleton.mp ha
    dsimp only
    decide

theorem logDefine_iff_root :
    RoundTrip nestedYaml unsigned signed (root .all 4096) ∧
        TellsApart (root .all 4096) (root .all 8192) ↔
      (∀ a ∈ (root .all 4096).appenders, a.level = .all) ∧
      ((root .all 4096).Alike (root .all 8192) → List.Forall₂ LogAppenderDefine.SameThresholds
        (root .all 4096).appenders (root .all 8192).appenders) :=
  logDefine_iff (faithful_root (.inl rfl)) (valid_root .all 4096)

/-- An appender of level `WARN` is decoded with the level `ALL`, and the size at which a file is rolled is
not compared. -/
theorem not_logDefine :
    (¬ ∀ (yaml : YamlCpp) (size : Convert UInt64) (off : Convert Int64) (d : LogDefine),
      Faithful yaml size off d → d.Valid → RoundTrip yaml size off d) ∧
    ¬ ∀ d e : LogDefine, d.Valid → e.Valid → TellsApart d e := by
  constructor
  · intro h
    have hround := h _ _ _ _ (faithful_root (.inr rfl)) (valid_root .warn 4096)
    rw [roundTrip_iff_levels (faithful_root (.inr rfl)) (valid_root .warn 4096)] at hround
    exact nomatch hround _ List.mem_cons_self
  · intro h
    have hapart := tellsApart_iff.mp (h _ _ (valid_root .all 4096) (valid_root .all 8192))
    have hsame := hapart ⟨rfl, rfl, rfl, .cons ⟨rfl, rfl, rfl, rfl, rfl⟩ .nil⟩
    cases hsame with
    | cons hhead _ =>
      have hroll : (8192 : Int64) = 4096 := (hhead rfl).1
      exact absurd hroll (by decide)

end Nemo.Log
