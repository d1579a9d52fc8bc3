import Mathlib.Data.List.Basic
import Nemo.Http.Table

/-!
# `ListFiles`

`ListFiles` of `src/util/util.cc`, for a directory tree. A regular file without a dot in its name ends the loop over its
directory, if suffixes are asked for.

* `listFiles_sublist` — only files with a suffix that is asked for are listed, in the order of the tree
* `listFiles_eq_iff` — all of them are listed exactly if none is behind a file without a dot
-/

namespace Nemo.Util

open Http (Bytes ascii)

/--
What `readdir` reads in a directory, by the `d_type`s of the entries. `readable` says whether `access`, `stat` and
`opendir` succeed on a directory, and its contents are read then.
-/
inductive Dir
  | nil
  | file (name : Bytes) (behind : Dir)
  | dir (name : Bytes) (readable : Bool) (contents behind : Dir)
  | other (name : Bytes) (behind : Dir)
  deriving DecidableEq

/-- What the path is that `ListFiles` is called with. `missing` is one that `access` or `stat` fails for. -/
inductive Root
  | missing
  | dir (opened : Bool) (contents : Dir)
  | file
  | other
  deriving DecidableEq

/-- `substr` behind `find_last_of('.')`. -/
def suffixOf (name : Bytes) : Option Bytes :=
  if 0x2e ∈ name then some (name.reverse.takeWhile (· ≠ 0x2e)).reverse else none

/-- The path of a directory, without a second slash. -/
def join (path name : Bytes) : Bytes :=
  if path.getLast? = some 0x2f then path ++ name else path ++ 0x2f :: name

/-- `.` and `..` -/
def isDots (name : Bytes) : Bool := name == ascii "." || name == ascii ".."

/-- `suffixes`, in any order. -/
abbrev Suffixes := List Bytes

/-- The loop over a directory. -/
def readDir (suffixes : Suffixes) : Bytes → Dir → List Bytes
  | _, .nil => []
  | path, .other _ behind => readDir suffixes path behind
  | path, .dir name readable contents behind =>
    (if isDots name || !readable then [] else readDir suffixes (join path name) contents) ++
      readDir suffixes path behind
  | path, .file name behind =>
    if suffixes.isEmpty then (path ++ 0x2f :: name) :: readDir suffixes path behind
    else
      match suffixOf name with
      -- the source returns here
      | none => []
      | some suffix =>
        (if suffixes.contains suffix then [path ++ 0x2f :: name] else []) ++ readDir suffixes path behind

/-- `ListFiles` -/
def listFiles (suffixes : Suffixes) (path : Bytes) : Root → List Bytes
  | .missing | .other => []
  | .dir opened contents => if opened then readDir suffixes path contents else []
  | .file =>
    match suffixOf path with
    | none => []
    | some suffix => if suffixes.contains suffix then [path] else []

/-! ## The files of a tree -/

/-- The name has one of the suffixes, or any name will do. -/
def matchesName (suffixes : Suffixes) (name : Bytes) : Bool :=
  suffixes.isEmpty || (suffixOf name).any suffixes.contains

/-- The regular files of a tree whose names match, in the order of the entries. -/
def filesOf (suffixes : Suffixes) : Bytes → Dir → List Bytes
  | _, .nil => []
  | path, .other _ behind => filesOf suffixes path behind
  | path, .dir name readable contents behind =>
    (if isDots name || !readable then [] else filesOf suffixes (join path name) contents) ++
      filesOf suffixes path behind
  | path, .file name behind =>
    (if matchesName suffixes name then [path ++ 0x2f :: name] else []) ++ filesOf suffixes path behind

/-- In no directory there is something to list behind a file that ends the loop. -/
def Uncut (suffixes : Suffixes) : Bytes → Dir → Prop
  | _, .nil => True
  | path, .other _ behind => Uncut suffixes path behind
  | path, .dir name readable contents behind =>
    (isDots name = false → readable = true → Uncut suffixes (join path name) contents) ∧ Uncut suffixes path behind
  | path, .file name behind =>
    if suffixes ≠ [] ∧ 0x2e ∉ name then filesOf suffixes path behind = [] else Uncut suffixes path behind

variable {suffixes : Suffixes} {name : Bytes}

theorem suffixOf_eq_none : suffixOf name = none ↔ 0x2e ∉ name := by
  unfold suffixOf
  split
  · next h => exact iff_of_false (Option.some_ne_none _) (not_not_intro h)
  · next h => exact iff_of_true rfl h

/-- A file with a dot in its name, or any file if there are no suffixes, is listed if it matches. -/
theorem readDir_file (h : ¬ (suffixes ≠ [] ∧ 0x2e ∉ name)) (path : Bytes) (behind : Dir) :
    readDir suffixes path (.file name behind) =
      (if matchesName suffixes name then [path ++ 0x2f :: name] else []) ++ readDir suffixes path behind := by
  rw [readDir, matchesName]
  cases hempty : suffixes.isEmpty with
  | true => rfl
  | false =>
    have hne : suffixes ≠ [] := List.isEmpty_eq_false_iff.mp hempty
    cases hsuffix : suffixOf name with
    | none => exact absurd ⟨hne, suffixOf_eq_none.mp hsuffix⟩ h
    | some suffix => rfl

/-- One without a dot ends the loop. -/
theorem readDir_undotted (h : suffixes ≠ [] ∧ 0x2e ∉ name) (path : Bytes) (behind : Dir) :
    readDir suffixes path (.file name behind) = [] ∧ matchesName suffixes name = false := by
  have hempty : suffixes.isEmpty = false := List.isEmpty_eq_false_iff.mpr h.1
  rw [readDir, matchesName, suffixOf_eq_none.mpr h.2, hempty]
  exact ⟨rfl, rfl⟩

theorem readDir_sublist (suffixes : Suffixes) (path : Bytes) (d : Dir) :
    (readDir suffixes path d).Sublist (filesOf suffixes path d) := by
  induction d generalizing path with
  | nil => exact .refl _
  | other name behind ih => exact ih path
  | dir name readable contents behind ihContents ih =>
    rw [readDir, filesOf]
    refine .append ?_ (ih path)
    split
    · exact .refl _
    · exact ihContents _
  | file name behind ih =>
    rw [filesOf]
    by_cases h : suffixes ≠ [] ∧ 0x2e ∉ name
    · rw [(readDir_undotted h path behind).1]
      exact List.nil_sublist _
    · rw [readDir_file h]
      exact .append (.refl _) (ih path)

/-- Two lists that are no longer than two others are them if the wholes are the same. -/
theorem append_eq_iff_of_sublist {α : Type} {a a' b b' : List α} (ha : a.Sublist a') (hb : b.Sublist b') :
    a ++ b = a' ++ b' ↔ a = a' ∧ b = b' := by
  refine ⟨fun h => ?_, fun h => by rw [h.1, h.2]⟩
  have hlen := congrArg List.length h
  rw [List.length_append, List.length_append] at hlen
  have hlea := ha.length_le
  have hleb := hb.length_le
  exact ⟨ha.eq_of_length (by omega), hb.eq_of_length (by omega)⟩

theorem readDir_eq_iff (suffixes : Suffixes) (path : Bytes) (d : Dir) :
    readDir suffixes path d = filesOf suffixes path d ↔ Uncut suffixes path d := by
  induction d generalizing path with
  | nil => exact iff_of_true rfl trivial
  | other name behind ih => exact ih path
  | dir name readable contents behind ihContents ih =>
    rw [readDir, filesOf, Uncut, ← ih path]
    by_cases h : (isDots name || !readable) = true
    · have hskip : isDots name = false → readable = true → Uncut suffixes (join path name) contents := by
        intro hdots hreadable
        rw [hdots, hreadable] at h
        exact absurd h (by decide)
      rw [if_pos h, if_pos h, List.nil_append, List.nil_append]
      exact (and_iff_right hskip).symm
    · rw [if_neg h, if_neg h, append_eq_iff_of_sublist (readDir_sublist ..) (readDir_sublist ..),
        ihContents (join path name)]
      rw [Bool.not_eq_true, Bool.or_eq_false_iff, Bool.not_eq_false'] at h
      exact and_congr_left' ⟨fun hc _ _ => hc, fun hc => hc h.1 h.2⟩
  | file name behind ih =>
    rw [filesOf, Uncut]
    by_cases h : suffixes ≠ [] ∧ 0x2e ∉ name
    · obtain ⟨hread, hmatch⟩ := readDir_undotted h path behind
      rw [hread, hmatch, if_pos h, if_neg Bool.false_ne_true, List.nil_append]
      exact eq_comm
    · rw [readDir_file h, if_neg h, ← ih path]
      exact List.append_right_inj _

/-- What is listed has been asked for. -/
theorem listFiles_sublist (suffixes : Suffixes) (path : Bytes) (contents : Dir) :
    (listFiles suffixes path (.dir true contents)).Sublist (filesOf suffixes path contents) :=
  readDir_sublist suffixes path contents

/-- **All the files are listed exactly if none is behind a file without a dot** in its directory. -/
theorem listFiles_eq_iff (suffixes : Suffixes) (path : Bytes) (contents : Dir) :
    listFiles suffixes path (.dir true contents) = filesOf suffixes path contents ↔ Uncut suffixes path contents :=
  readDir_eq_iff suffixes path contents

/-- What is behind `README` is not listed, what is behind its directory is. -/
example : listFiles [ascii "yml"] (ascii "/etc")
    (.dir true (.dir (ascii "a") true (.file (ascii "1.yml") (.file (ascii "README") (.file (ascii "2.yml") .nil)))
      (.file (ascii "3.yml") .nil))) = [ascii "/etc/a/1.yml", ascii "/etc/3.yml"] := by
  decide +kernel

end Nemo.Util
