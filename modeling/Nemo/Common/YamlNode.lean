import Mathlib.Data.List.Forall2
import Nemo.Common.CString

/-!
# Nodes of yaml-cpp

A `YAML::Node` is a tree. How a node is printed and how a text is parsed is a parameter, as are the
conversions of integers. What throws has no result.
-/

namespace Nemo.Yaml

open Http

/-- A `YAML::Node`. The key of an entry is its `Scalar()`. -/
inductive Node
  | null
  | scalar (text : Bytes)
  | sequence (items : List Node)
  | map (entries : List (Bytes × Node))

/-- What is used of yaml-cpp. -/
structure YamlCpp where
  /-- `ss << node`. -/
  emit : Node → Bytes
  /-- `YAML::Load`. -/
  load : Bytes → Option Node
  /-- Whether a key of a map reads as the index. -/
  isIndex : Bytes → Nat → Bool

/-- `YAML::convert<T>`, for an integer type. -/
structure Convert (T : Type) where
  encode : T → Bytes
  /-- `as<T>`. -/
  decode : Node → Option T

namespace Node

/-- A fresh node after a `push_back` of each of the items. -/
def ofItems (items : List Node) : Node := if items.isEmpty then null else sequence items

/-- `as<String>`. -/
def asString : Node → Option Bytes
  | scalar text => some text
  | _ => none

/-- `size`. -/
def size : Node → Nat
  | sequence items => items.length
  | map entries => entries.length
  | _ => 0

/-- `node[key]`, if it is defined. A scalar throws. -/
def subscript : Node → Bytes → Option (Option Node)
  | scalar _, _ => none
  | map entries, key => some (entries.lookup key)
  | _, _ => some none

/-- `node[i]`, if it is defined. -/
def index (yaml : YamlCpp) : Node → Nat → Option Node
  | sequence items, i => items[i]?
  | map entries, i => (entries.find? fun entry => yaml.isIndex entry.1 i).map Prod.snd
  | _, _ => none

/-- The nodes `node[0]`, …, `node[size - 1]`. -/
def items (yaml : YamlCpp) (node : Node) : List (Option Node) :=
  (List.range node.size).map (node.index yaml)

theorem items_sequence (yaml : YamlCpp) (nodes : List Node) :
    (sequence nodes).items yaml = nodes.map some := by
  refine List.ext_getElem? fun i => ?_
  show ((List.range nodes.length).map fun i => nodes[i]?)[i]? = _
  rw [List.getElem?_map, List.getElem?_map]
  by_cases hi : i < nodes.length
  · rw [List.getElem?_range hi, Option.map_some, List.getElem?_eq_getElem hi]
    rfl
  · rw [List.getElem?_eq_none (by rw [List.length_range]; omega), List.getElem?_eq_none (by omega)]
    rfl

theorem items_ofItems (yaml : YamlCpp) (nodes : List Node) :
    (ofItems nodes).items yaml = nodes.map some := by
  cases nodes with
  | nil => rfl
  | cons node nodes => exact items_sequence yaml (node :: nodes)

/-- `node[key].as<T>()`, which throws if the node is not defined. -/
def required {α : Type} (as : Node → Option α) (node : Node) (key : Bytes) : Option α := do
  (← node.subscript key).bind as

/-- `node[key].as<T>()` if the node is defined, else the default. -/
def optional {α : Type} (as : Node → Option α) (default : α) (node : Node) (key : Bytes) : Option α := do
  match ← node.subscript key with
  | some value => as value
  | none => return default

/-- The value of a field that is assigned under a condition. -/
def given (condition : Bool) (text : Bytes) : Option Node :=
  if condition then some (scalar text) else none

/-- The entries of the fields that have a value. -/
def present (fields : List (Bytes × Option Node)) : List (Bytes × Node) :=
  fields.filterMap fun field => field.2.map fun value => (field.1, value)

/-- A fresh node after `node[key] = value` of each field that has a value. -/
def ofFields (fields : List (Bytes × Option Node)) : Node := map (present fields)

theorem lookup_present_of_notMem {fields : List (Bytes × Option Node)} {key : Bytes}
    (hkey : key ∉ fields.map Prod.fst) : (present fields).lookup key = none := by
  rw [List.lookup_eq_none_iff]
  intro entry hentry
  obtain ⟨field, hfield, hvalue⟩ := List.mem_filterMap.mp hentry
  obtain ⟨value, -, rfl⟩ := Option.map_eq_some_iff.mp hvalue
  rw [bne_iff_ne]
  rintro rfl
  exact hkey (List.mem_map_of_mem hfield)

/-- Of different keys, each gives its value. -/
theorem subscript_ofFields {fields : List (Bytes × Option Node)} {key : Bytes} {value : Option Node}
    (hnodup : (fields.map Prod.fst).Nodup) (hmem : (key, value) ∈ fields) :
    (ofFields fields).subscript key = some value := by
  show some ((present fields).lookup key) = some value
  congr 1
  induction fields with
  | nil => cases hmem
  | cons field fields ih =>
    rw [List.map_cons, List.nodup_cons] at hnodup
    obtain ⟨hnew, hnodup⟩ := hnodup
    rcases List.mem_cons.mp hmem with heq | hrest
    · subst heq
      cases value with
      | none =>
        show (present fields).lookup key = none
        exact lookup_present_of_notMem hnew
      | some value =>
        show List.lookup key ((key, value) :: present fields) = some value
        rw [List.lookup_cons_self]
    · have hne : key ≠ field.1 := fun heq => hnew (heq ▸ List.mem_map_of_mem hrest)
      obtain ⟨key', value'⟩ := field
      cases value' with
      | none => exact ih hnodup hrest
      | some value' =>
        show List.lookup key ((key', value') :: present fields) = value
        rw [List.lookup_cons, beq_eq_false_iff_ne.mpr hne]
        exact ih hnodup hrest

section

variable {α : Type} (as : Node → Option α) {fields : List (Bytes × Option Node)} {key : Bytes}

theorem required_ofFields {value : Node} (hnodup : (fields.map Prod.fst).Nodup)
    (hmem : (key, some value) ∈ fields) : (ofFields fields).required as key = as value := by
  rw [required, subscript_ofFields hnodup hmem]
  rfl

theorem optional_ofFields {value : Option Node} (default : α) (hnodup : (fields.map Prod.fst).Nodup)
    (hmem : (key, value) ∈ fields) :
    (ofFields fields).optional as default key = value.elim (some default) as := by
  rw [optional, subscript_ofFields hnodup hmem]
  cases value <;> rfl

/-- A text that is assigned unless it is empty. -/
theorem optional_asString {text : Bytes} (default : Bytes) (hnodup : (fields.map Prod.fst).Nodup)
    (hmem : (key, given (!text.isEmpty) text) ∈ fields) :
    (ofFields fields).optional asString default key = some (if text.isEmpty then default else text) := by
  rw [optional_ofFields asString default hnodup hmem]
  cases hempty : text.isEmpty <;> rfl

end

end Node

/-! ## Decimal numbers -/

def printDecimal (n : Nat) : Bytes := (Nat.toDigits 10 n).map fun c => UInt8.ofNat c.toNat

def readDecimal (digits : Bytes) : Nat := digits.foldl (fun n c => n * 10 + (c.toNat - 48)) 0

/-! ## Lists of results -/

section

variable {α β γ : Type} {f : α → Option β}

theorem mapM_eq_some_iff {xs : List α} {ys : List β} :
    xs.mapM f = some ys ↔ List.Forall₂ (fun x y => f x = some y) xs ys := by
  induction xs generalizing ys with
  | nil => simp [eq_comm]
  | cons x xs ih =>
    rw [List.mapM_cons]
    constructor
    · intro h
      obtain ⟨y, hy, h⟩ := Option.bind_eq_some_iff.mp h
      obtain ⟨ys, hys, h⟩ := Option.bind_eq_some_iff.mp h
      cases h
      exact .cons hy (ih.mp hys)
    · intro h
      cases h with
      | cons hy hys =>
        rw [hy, ih.mpr hys]
        rfl

/-- One loop over the results of another. -/
theorem mapM_bind_mapM (g : β → Option γ) (xs : List α) :
    (xs.mapM f).bind (fun ys => ys.mapM g) = xs.mapM fun x => (f x).bind g := by
  induction xs with
  | nil => rfl
  | cons x xs ih =>
    rw [List.mapM_cons, List.mapM_cons, ← ih]
    cases f x with
    | none => rfl
    | some y =>
      cases xs.mapM f with
      | none =>
        cases hg : g y with
        | none => simp [hg]
        | some z => simp [hg]
      | some ys => simp

end

end Nemo.Yaml
