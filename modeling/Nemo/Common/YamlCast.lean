import Mathlib.Data.Finset.Lattice.Lemmas
import Mathlib.Logic.Function.Basic
import Nemo.Common.YamlNode
import Nemo.Http.Table

/-!
# `YamlCast`

The casts between containers and YAML texts in `src/common/yaml_cast.h`. A vector or a list is the list of
its elements, and so is a set or a map that is encoded, in the order in which it is iterated. A set that
is decoded is a `Finset`, a map a partial function.

An element is printed by `LexicalCast`, loaded as a node of its own, emitted again as a part of the
container, and what is emitted is cast back. The maps are encoded without their keys.

`yamlCast_iff` — which containers survive the casts
-/

namespace Nemo.Yaml

open Function (update)
open Http

/-- `LexicalCast<String, T>` and `LexicalCast<T, String>`. -/
structure LexicalCast (T : Type) where
  toStr : T → Option Bytes
  ofStr : Bytes → Option T

section

variable {T : Type} (yaml : YamlCpp) (lexical : LexicalCast T)

/-! ## The functions -/

/-- `Container2Str`. -/
def container2Str (container : List T) : Option Bytes := do
  let nodes ← container.mapM fun elem => do yaml.load (← lexical.toStr elem)
  return yaml.emit (.ofItems nodes)

/-- `MapContainer2Str`, which pushes the values. -/
def mapContainer2Str (container : List (Bytes × T)) : Option Bytes := do
  let nodes ← container.mapM fun elem => do yaml.load (← lexical.toStr elem.2)
  return yaml.emit (.ofItems nodes)

/-- The loop of `Str2SequenceContainer` and of `Str2SetContainer`. Of a node that is not defined, nothing
is emitted. -/
def str2Elements (yamlStr : Bytes) : Option (List T) := do
  let node ← yaml.load yamlStr
  (node.items yaml).mapM fun item => lexical.ofStr (item.elim [] yaml.emit)

/-- `Str2SequenceContainer`. -/
def str2SequenceContainer (yamlStr : Bytes) : Option (List T) := str2Elements yaml lexical yamlStr

/-- `Str2SetContainer`. -/
def str2SetContainer [DecidableEq T] (yamlStr : Bytes) : Option (Finset T) :=
  (str2Elements yaml lexical yamlStr).map fun elems => elems.foldl (fun set elem => insert elem set) ∅

/--
`Str2MapContainer`. An item of a sequence has no key: `iter->first` is a node whose `Scalar()` throws. A
scalar and a null node have no items.
-/
def str2MapContainer (yamlStr : Bytes) : Option (Bytes → Option T) := do
  match ← yaml.load yamlStr with
  | .map entries =>
    entries.foldlM
      (fun container entry => do
        let value ← lexical.ofStr (yaml.emit entry.2)
        return update container entry.1 (some value))
      fun _ => none
  | .sequence (_ :: _) => none
  | _ => return fun _ => none

/-! ## The round trips -/

/-- A `std::vector` or a `std::list`. -/
def SequenceRoundTrip (container : List T) : Prop :=
  (container2Str yaml lexical container).bind (str2SequenceContainer yaml lexical) = some container

/-- A `std::set` or a `std::unordered_set`, in the order of its iteration. -/
def SetRoundTrip [DecidableEq T] (container : List T) : Prop :=
  (container2Str yaml lexical container).bind (str2SetContainer yaml lexical) =
    some container.toFinset

/-- A `std::map` or a `std::unordered_map`, in the order of its iteration. -/
def MapRoundTrip (container : List (Bytes × T)) : Prop :=
  (mapContainer2Str yaml lexical container).bind (str2MapContainer yaml lexical) =
    some fun key => container.lookup key

/-- What becomes of an element: it is printed, loaded, emitted and cast back. -/
def trip (elem : T) : Option T := do
  let node ← yaml.load (← lexical.toStr elem)
  lexical.ofStr (yaml.emit node)

/-- The node of a container of these elements is loaded as it was emitted. -/
def LoadsBack (elems : List T) : Prop :=
  ∀ nodes, (elems.mapM fun elem => do yaml.load (← lexical.toStr elem)) = some nodes →
    yaml.load (yaml.emit (.ofItems nodes)) = some (.ofItems nodes)

variable {yaml lexical}

/-- A container is decoded to what becomes of its elements. -/
theorem container2Str_bind_str2Elements {container : List T} (h : LoadsBack yaml lexical container) :
    (container2Str yaml lexical container).bind (str2Elements yaml lexical) =
      container.mapM (trip yaml lexical) := by
  have htrip : trip yaml lexical =
      fun elem => (do yaml.load (← lexical.toStr elem)).bind fun node => lexical.ofStr (yaml.emit node) := by
    funext elem
    exact (Option.bind_assoc _ _ _).symm
  rw [htrip, ← mapM_bind_mapM]
  unfold container2Str
  cases hnodes : container.mapM fun elem => do yaml.load (← lexical.toStr elem) with
  | none => rfl
  | some nodes =>
    show str2Elements yaml lexical (yaml.emit (.ofItems nodes)) = _
    rw [str2Elements, h nodes hnodes]
    show ((Node.ofItems nodes).items yaml).mapM _ = _
    rw [Node.items_ofItems, List.mapM_map]
    rfl

theorem sequenceRoundTrip_iff {container : List T} (h : LoadsBack yaml lexical container) :
    SequenceRoundTrip yaml lexical container ↔ ∀ elem ∈ container, trip yaml lexical elem = some elem := by
  have heq : (container2Str yaml lexical container).bind (str2SequenceContainer yaml lexical) =
      container.mapM (trip yaml lexical) := container2Str_bind_str2Elements h
  rw [SequenceRoundTrip, heq, mapM_eq_some_iff, List.forall₂_same]

theorem foldl_insert [DecidableEq T] (elems : List T) (set : Finset T) :
    elems.foldl (fun set elem => insert elem set) set = set ∪ elems.toFinset := by
  induction elems generalizing set with
  | nil => simp
  | cons elem elems ih => simp [ih, Finset.insert_union]

theorem setRoundTrip_iff [DecidableEq T] {container : List T} (h : LoadsBack yaml lexical container) :
    SetRoundTrip yaml lexical container ↔
      ∃ elems, container.mapM (trip yaml lexical) = some elems ∧
        elems.toFinset = container.toFinset := by
  have heq : (container2Str yaml lexical container).bind (str2SetContainer yaml lexical) =
      (container.mapM (trip yaml lexical)).map List.toFinset := by
    rw [← container2Str_bind_str2Elements h]
    cases container2Str yaml lexical container with
    | none => rfl
    | some yamlStr =>
      show (str2Elements yaml lexical yamlStr).map _ = (str2Elements yaml lexical yamlStr).map _
      congr 1
      funext elems
      rw [foldl_insert, Finset.empty_union]
  rw [SetRoundTrip, heq, Option.map_eq_some_iff]

/-- The sequence of its values is not a map. -/
theorem mapRoundTrip_iff {container : List (Bytes × T)}
    (h : LoadsBack yaml lexical (container.map Prod.snd)) :
    MapRoundTrip yaml lexical container ↔ container = [] := by
  have hencode : mapContainer2Str yaml lexical container =
      container2Str yaml lexical (container.map Prod.snd) := by
    rw [container2Str, List.mapM_map]
    rfl
  unfold MapRoundTrip
  rw [hencode]
  unfold container2Str
  cases hnodes : (container.map Prod.snd).mapM fun elem => do yaml.load (← lexical.toStr elem) with
  | none =>
    refine iff_of_false nofun ?_
    rintro rfl
    cases hnodes
  | some nodes =>
    show str2MapContainer yaml lexical (yaml.emit (.ofItems nodes)) = _ ↔ _
    rw [str2MapContainer, h nodes hnodes]
    have hlen := (mapM_eq_some_iff.mp hnodes).length_eq
    rw [List.length_map] at hlen
    cases nodes with
    | nil =>
      obtain rfl : container = [] := List.eq_nil_of_length_eq_zero hlen
      exact iff_of_true rfl rfl
    | cons node nodes =>
      refine iff_of_false nofun ?_
      rintro rfl
      cases hlen

/--
**A vector or a list survives the casts if and only if each of its elements does, a set if its elements
become the same set, and a map if it is empty.**
-/
theorem yamlCast_iff [DecidableEq T] {sequence set : List T} {map : List (Bytes × T)}
    (hsequence : LoadsBack yaml lexical sequence) (hset : LoadsBack yaml lexical set)
    (hmap : LoadsBack yaml lexical (map.map Prod.snd)) :
    (SequenceRoundTrip yaml lexical sequence ↔
      ∀ elem ∈ sequence, trip yaml lexical elem = some elem) ∧
    (SetRoundTrip yaml lexical set ↔ ∃ elems, set.mapM (trip yaml lexical) = some elems ∧
      elems.toFinset = set.toFinset) ∧
    (MapRoundTrip yaml lexical map ↔ map = []) :=
  ⟨sequenceRoundTrip_iff hsequence, setRoundTrip_iff hset, mapRoundTrip_iff hmap⟩

end

/-! ## Containers of `bool` -/

/-- The part of yaml-cpp that prints and parses plain scalars and block sequences of them. -/
def blockYaml : YamlCpp where
  emit
    | .sequence items => [10].intercalate (items.map fun
      | .scalar text => ascii "- " ++ text
      | _ => ascii "- ~")
    | .scalar text => text
    | _ => ascii "~"
  load text :=
    if text = ascii "~" then some .null
    else if (ascii "- ").isPrefixOf text then
      some (.sequence ((text.splitOn 10).map fun line => .scalar (line.drop 2)))
    else some (.scalar text)
  isIndex key i := key == ascii (toString i)

/-- `boost::lexical_cast` of a `bool`. -/
def boolCast : LexicalCast Bool where
  toStr b := some (if b then ascii "1" else ascii "0")
  ofStr text := if text = ascii "1" then some true else if text = ascii "0" then some false else none

theorem loadsBack_bool (b : Bool) : LoadsBack blockYaml boolCast [b] := by
  rintro nodes h
  cases b <;> cases h <;> rfl

theorem yamlCast_iff_bool :
    (SequenceRoundTrip blockYaml boolCast [true, false] ↔
      ∀ elem ∈ [true, false], trip blockYaml boolCast elem = some elem) ∧
    (SetRoundTrip blockYaml boolCast [false] ↔
      ∃ elems, [false].mapM (trip blockYaml boolCast) = some elems ∧
        elems.toFinset = [false].toFinset) ∧
    (MapRoundTrip blockYaml boolCast [(ascii "a", true)] ↔ [(ascii "a", true)] = []) := by
  have htwo : LoadsBack blockYaml boolCast [true, false] := by
    rintro nodes h
    cases h
    rfl
  exact yamlCast_iff htwo (loadsBack_bool false) (loadsBack_bool true)

/-- The map from `a` to `true` is printed as a sequence of `1`, which is not decoded as a map. -/
theorem not_mapRoundTrip :
    ¬ ∀ (yaml : YamlCpp) (lexical : LexicalCast Bool) (map : List (Bytes × Bool)),
      LoadsBack yaml lexical (map.map Prod.snd) →
      (∀ b, (lexical.toStr b).bind lexical.ofStr = some b) → MapRoundTrip yaml lexical map := by
  intro h
  have hround := h blockYaml boolCast [(ascii "a", true)] (loadsBack_bool true) (by decide)
  rw [mapRoundTrip_iff (loadsBack_bool true)] at hround
  cases hround

end Nemo.Yaml
