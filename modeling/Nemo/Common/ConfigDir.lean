import Nemo.Common.ConfigYaml
import Nemo.Util.ListFiles

/-!
# Loading a config directory

`Config::LoadFromDir` and `Config::LoadFromFile` of `src/common/config.cc`. A file is read again if its time of
modification is not the one that is stored for its path; where none is stored it is 0.

`loadDir_current` — every file that is to be loaded has been read as it is, whatever was written and loaded before, if
no version of a file has the time of the one that was read last
-/

namespace Nemo.Config

open Function (update)
open Http Util

/-- A version of a file: `st_mtime`, and what `YAML::LoadFile` makes of it, which is nothing if it throws. -/
structure File where
  mtime : UInt64
  document : Option Yaml

/-- The variables, and the static map of `LoadFromFile`. -/
structure Loader where
  datas : Datas
  fileLastModifyTime : Bytes → UInt64 := fun _ => 0

/-- The suffixes of `LoadFromDir`. -/
def configSuffixes : Suffixes := [ascii "yml", ascii "yaml"]

section

variable (print : Yaml → Bytes) (file : Bytes → File)

/-- `Config::LoadFromFile`. The time is stored before the file is read. -/
def loadFromFile (loader : Loader) (path : Bytes) : Loader :=
  if loader.fileLastModifyTime path = (file path).mtime then loader
  else
    { fileLastModifyTime := update loader.fileLastModifyTime path (file path).mtime
      datas :=
        match (file path).document with
        | none => loader.datas
        | some root => loadFromYaml print loader.datas root }

/-- `Config::LoadFromDir` -/
def loadFromDir (loader : Loader) (path : Bytes) (root : Root) : Loader :=
  (listFiles configSuffixes path root).foldl (loadFromFile print file) loader

end

/-! ## Files that change -/

/-- The loader, the files, and for each path the version that was read last. -/
structure Site where
  loader : Loader
  file : Bytes → File
  read : Bytes → Option File := fun _ => none

inductive Event
  | write (path : Bytes) (file : File)
  | loadDir (path : Bytes) (root : Root)

namespace Site

variable (print : Yaml → Bytes) (s : Site)

def loadFile (path : Bytes) : Site :=
  if s.loader.fileLastModifyTime path = (s.file path).mtime then s
  else
    { s with
      loader := loadFromFile print s.file s.loader path
      read := update s.read path (some (s.file path)) }

def loadDir (path : Bytes) (root : Root) : Site :=
  (listFiles configSuffixes path root).foldl (loadFile print) s

def step : Event → Site
  | .write path file => { s with file := update s.file path file }
  | .loadDir path root => s.loadDir print path root

def run (events : List Event) : Site := events.foldl (step print) s

/-- A version that is written has another time than the one that was read last. -/
def Stamped (s : Site) : Event → Prop
  | .write path file => file.mtime ≠ s.loader.fileLastModifyTime path
  | .loadDir _ _ => True

/-- Every version has, when it is written. -/
def StampedAll : Site → List Event → Prop
  | _, [] => True
  | s, e :: events => s.Stamped e ∧ (s.step print e).StampedAll events

instance (s : Site) (e : Event) : Decidable (s.Stamped e) := by
  unfold Stamped
  split <;> infer_instance

/-- The stored time is that of the file only if this version has been read. -/
def Current (s : Site) : Prop :=
  ∀ path, s.loader.fileLastModifyTime path = (s.file path).mtime → s.read path = some (s.file path)

/-- A process that has not loaded anything. -/
def start (datas : Datas) (file : Bytes → File) : Site where
  loader := { datas }
  file := file

variable {print : Yaml → Bytes} {s : Site}

theorem loadFile_file (path : Bytes) : (s.loadFile print path).file = s.file := by
  unfold loadFile
  split <;> rfl

/-- The loader does not depend on the history. -/
theorem loadFile_loader (path : Bytes) :
    (s.loadFile print path).loader = loadFromFile print s.file s.loader path := by
  unfold loadFile
  split
  · next h => rw [loadFromFile, if_pos h]
  · rfl

theorem loadFiles_eq (paths : List Bytes) (s : Site) :
    (paths.foldl (loadFile print) s).file = s.file ∧
      (paths.foldl (loadFile print) s).loader = paths.foldl (loadFromFile print s.file) s.loader := by
  induction paths generalizing s with
  | nil => exact ⟨rfl, rfl⟩
  | cons path paths ih =>
    obtain ⟨hfile, hloader⟩ := ih (s.loadFile print path)
    rw [loadFile_file] at hfile hloader
    rw [loadFile_loader] at hloader
    exact ⟨hfile, hloader⟩

/-- What the program does is what the source does, with the history beside it. -/
theorem loadDir_loader (path : Bytes) (root : Root) :
    (s.loadDir print path root).loader = loadFromDir print s.file s.loader path root :=
  (loadFiles_eq _ s).2

theorem loadFile_time (path : Bytes) :
    (s.loadFile print path).loader.fileLastModifyTime path = (s.file path).mtime := by
  unfold loadFile loadFromFile
  split
  · next h => exact h
  · exact Function.update_self ..

/-- A time that is right stays right. -/
theorem loadFile_time_of {path : Bytes} (h : s.loader.fileLastModifyTime path = (s.file path).mtime) (other : Bytes) :
    (s.loadFile print other).loader.fileLastModifyTime path = (s.file path).mtime := by
  by_cases heq : path = other
  · rw [heq, loadFile_time]
  · unfold loadFile loadFromFile
    split
    · exact h
    · exact (Function.update_of_ne heq ..).trans h

theorem loadFiles_time_of {path : Bytes} (paths : List Bytes) {s : Site}
    (h : s.loader.fileLastModifyTime path = (s.file path).mtime) :
    (paths.foldl (loadFile print) s).loader.fileLastModifyTime path = (s.file path).mtime := by
  induction paths generalizing s with
  | nil => exact h
  | cons other paths ih =>
    have := ih (s := s.loadFile print other) (by rw [loadFile_file]; exact loadFile_time_of h other)
    rwa [loadFile_file] at this

/-- Every file that is loaded has its time stored. -/
theorem loadFiles_time {path : Bytes} {paths : List Bytes} (h : path ∈ paths) (s : Site) :
    (paths.foldl (loadFile print) s).loader.fileLastModifyTime path = (s.file path).mtime := by
  induction paths generalizing s with
  | nil => exact absurd h List.not_mem_nil
  | cons other paths ih =>
    rcases List.mem_cons.mp h with rfl | h
    · have := @loadFiles_time_of print path paths (s.loadFile print path)
        (by rw [loadFile_file]; exact loadFile_time path)
      rwa [loadFile_file] at this
    · have := ih h (s.loadFile print other)
      rwa [loadFile_file] at this

/-- Files whose times are stored are not read. -/
theorem loadFiles_of_time {paths : List Bytes}
    (h : ∀ path ∈ paths, s.loader.fileLastModifyTime path = (s.file path).mtime) :
    paths.foldl (loadFile print) s = s := by
  induction paths with
  | nil => rfl
  | cons path paths ih =>
    rw [List.foldl_cons, loadFile, if_pos (h path List.mem_cons_self)]
    exact ih fun other hother => h other (List.mem_cons_of_mem _ hother)

theorem Current.loadFile (h : s.Current) (path : Bytes) : (s.loadFile print path).Current := by
  unfold Site.loadFile
  split
  · exact h
  · next hne =>
    intro other htime
    unfold loadFromFile at htime
    dsimp only at htime ⊢
    rw [if_neg hne] at htime
    dsimp only at htime
    rw [Function.update_apply] at htime ⊢
    split
    · next heq => rw [heq]
    · next hother =>
      rw [if_neg hother] at htime
      exact h other htime

theorem Current.loadFiles (paths : List Bytes) {s : Site} (h : s.Current) :
    (paths.foldl (Site.loadFile print) s).Current := by
  induction paths generalizing s with
  | nil => exact h
  | cons path paths ih => exact ih (h.loadFile path)

/-- A new version has not been read, and its time tells so. -/
theorem Current.step {e : Event} (h : s.Current) (he : s.Stamped e) : (s.step print e).Current := by
  cases e with
  | write path file =>
    intro other htime
    unfold Site.step at htime ⊢
    dsimp only at htime ⊢
    rw [Function.update_apply] at htime ⊢
    split at htime
    · next heq => exact absurd (heq ▸ htime).symm he
    · next hother =>
      rw [if_neg hother]
      exact h other htime
  | loadDir path root => exact Current.loadFiles _ h

variable {datas : Datas} {file : Bytes → File}

theorem Current.run {events : List Event} {s : Site} (h : s.Current) (hevents : s.StampedAll print events) :
    (s.run print events).Current := by
  induction events generalizing s with
  | nil => exact h
  | cons e events ih => exact ih (h.step hevents.1) hevents.2

/--
**Every file that is to be loaded has been read as it is**, after any writes and loads, and another load reads none,
if every version of a file that is written has another time than the one that was read last.
-/
theorem loadDir_current (hfile : ∀ path, (file path).mtime ≠ 0) {events : List Event}
    (hevents : (start datas file).StampedAll print events) {s : Site} (hrun : s = (start datas file).run print events)
    {path : Bytes} {contents : Dir} (huncut : Uncut configSuffixes path contents) :
    (∀ p ∈ filesOf configSuffixes path contents,
      (s.loadDir print path (.dir true contents)).read p = some (s.file p)) ∧
    (s.loadDir print path (.dir true contents)).loader =
      loadFromDir print s.file s.loader path (.dir true contents) ∧
    (s.loadDir print path (.dir true contents)).loadDir print path (.dir true contents) =
      s.loadDir print path (.dir true contents) := by
  have hlist : listFiles configSuffixes path (.dir true contents) = filesOf configSuffixes path contents :=
    readDir_eq_iff .. |>.mpr huncut
  have hfiles : (s.loadDir print path (.dir true contents)).file = s.file := (loadFiles_eq _ s).1
  have htime : ∀ p ∈ filesOf configSuffixes path contents,
      (s.loadDir print path (.dir true contents)).loader.fileLastModifyTime p = (s.file p).mtime := fun p hp =>
    loadFiles_time (hlist ▸ hp) s
  refine ⟨fun p hp => ?_, loadDir_loader .., loadFiles_of_time fun p hp => ?_⟩
  · have hcurrent : (s.loadDir print path (.dir true contents)).Current :=
      Current.loadFiles _ (hrun ▸ Current.run (fun p hp => absurd hp.symm (hfile p)) hevents)
    have := hcurrent p (by rw [hfiles]; exact htime p hp)
    rwa [hfiles] at this
  · rw [hfiles]
    exact htime p (hlist ▸ hp)

def twoFiles : Dir := .file (ascii "a.yml") (.file (ascii "b.yaml") .nil)

def emptyFiles : Site := start (fun _ => none) fun _ => ⟨1, none⟩

/-- Both files are loaded, and one is written twice. -/
def rewritten : List Event :=
  [.loadDir (ascii "/etc") (.dir true twoFiles), .write (ascii "/etc/a.yml") ⟨2, none⟩,
    .write (ascii "/etc/a.yml") ⟨3, some (.scalar [])⟩]

theorem loadDir_current_rewritten :
    filesOf configSuffixes (ascii "/etc") twoFiles = [ascii "/etc/a.yml", ascii "/etc/b.yaml"] ∧
    (∀ p ∈ filesOf configSuffixes (ascii "/etc") twoFiles,
      ((emptyFiles.run (fun _ => []) rewritten).loadDir (fun _ => []) (ascii "/etc") (.dir true twoFiles)).read p =
        some ((emptyFiles.run (fun _ => []) rewritten).file p)) ∧
    ((emptyFiles.run (fun _ => []) rewritten).file (ascii "/etc/a.yml")).mtime = 3 := by
  have hstamped : emptyFiles.StampedAll (fun _ => []) rewritten :=
    ⟨trivial, by decide +kernel, by decide +kernel, trivial⟩
  have huncut : Uncut configSuffixes (ascii "/etc") twoFiles := by
    rw [← readDir_eq_iff]
    decide +kernel
  exact ⟨by decide +kernel, (loadDir_current (fun _ => by decide) hstamped rfl huncut).1, by decide +kernel⟩

end Site

end Nemo.Config
