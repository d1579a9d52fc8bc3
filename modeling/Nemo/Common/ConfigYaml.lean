import Mathlib.Data.List.Induction
import Mathlib.Data.List.Infix
import Nemo.Common.CString
import Nemo.Common.ConfigLookup

/-!
# Loading a config document

`listAllMember` and `Config::LoadFromYaml` in `src/common/config.cc`, with `fromString` and `setValue` of
`ConfigVar`. A document is a tree; how a map or a sequence is printed is a parameter.

* `listAllMember_eq` — the nodes that are listed are those whose path has valid prefixes only, in
  pre-order
* `loadFromYaml_spec` — a variable takes the value of the last of its nodes that converts, unless its name is
  empty, or `operator==` takes a new value for the old one
-/

namespace Nemo.Config

open Function (update)
open Http

/-- A `YAML::Node`. The key of an entry is its `Scalar()`. -/
inductive Yaml
  | scalar (text : Bytes)
  | sequence (items : List Yaml)
  | map (entries : List (Bytes × Yaml))

/-- `prefix.empty() ? key : prefix + "." + key`. -/
def join (path key : Bytes) : Bytes := if path.isEmpty then key else path ++ 46 :: key

mutual

/-- `listAllMember`. -/
def listAllMember (path : Bytes) : Yaml → List (Bytes × Yaml)
  | .map entries =>
    if validName path then (path, .map entries) :: listEntries path entries else []
  | node => if validName path then [(path, node)] else []

/-- The loop over the entries of a map. -/
def listEntries (path : Bytes) : List (Bytes × Yaml) → List (Bytes × Yaml)
  | [] => []
  | (key, value) :: entries => listAllMember (join path key) value ++ listEntries path entries

end

/-! ## The nodes of a document -/

mutual

/-- The nodes that are reached by the keys of maps, in pre-order, with these keys. -/
def Yaml.nodes : Yaml → List (List Bytes × Yaml)
  | .map entries => ([], .map entries) :: Yaml.inside entries
  | node => [([], node)]

/-- The nodes in the entries of a map. -/
def Yaml.inside : List (Bytes × Yaml) → List (List Bytes × Yaml)
  | [] => []
  | (key, value) :: entries => (value.nodes.map fun n => (key :: n.1, n.2)) ++ Yaml.inside entries

end

/-- Every prefix on the way from `path` along the keys is valid. -/
def validPath (path : Bytes) (keys : List Bytes) : Bool :=
  keys.inits.all fun ks => validName (ks.foldl join path)

/-- The nodes whose paths are valid from `path` on, with their paths. -/
def visited (path : Bytes) (nodes : List (List Bytes × Yaml)) : List (Bytes × Yaml) :=
  (nodes.filter fun n => validPath path n.1).map fun n => (n.1.foldl join path, n.2)

theorem validPath_nil (path : Bytes) : validPath path [] = validName path := Bool.and_true _

theorem validPath_cons (path key : Bytes) (keys : List Bytes) :
    validPath path (key :: keys) = (validName path && validPath (join path key) keys) := by
  simp [validPath, List.all_map, Function.comp_def]

theorem visited_cons_key {path : Bytes} (hpath : validName path = true) (key : Bytes)
    (nodes : List (List Bytes × Yaml)) :
    visited path (nodes.map fun n => (key :: n.1, n.2)) = visited (join path key) nodes := by
  simp [visited, List.filter_map, validPath_cons, hpath, Function.comp_def]

theorem visited_append (path : Bytes) (nodes nodes' : List (List Bytes × Yaml)) :
    visited path (nodes ++ nodes') = visited path nodes ++ visited path nodes' := by
  simp [visited]

/-- Without a valid path to start from, no node is visited. -/
theorem visited_of_invalid {path : Bytes} (hpath : validName path = false)
    (nodes : List (List Bytes × Yaml)) : visited path nodes = [] := by
  have hnone : ∀ n ∈ nodes, ¬validPath path n.1 = true := by
    intro n _
    cases n.1 with
    | nil => simp [validPath_nil, hpath]
    | cons key keys => simp [validPath_cons, hpath]
  rw [visited, List.filter_eq_nil_iff.mpr hnone, List.map_nil]

theorem visited_cons {path : Bytes} (hpath : validName path = true) (node : Yaml)
    (nodes : List (List Bytes × Yaml)) :
    visited path (([], node) :: nodes) = (path, node) :: visited path nodes := by
  simp [visited, validPath_nil, hpath]

theorem visited_single (path : Bytes) (node : Yaml) :
    visited path [([], node)] = if validName path then [(path, node)] else [] := by
  cases hpath : validName path with
  | false => exact visited_of_invalid hpath _
  | true => exact visited_cons hpath node []

mutual

/-- The nodes that are listed from a path on. -/
theorem listAllMember_visited (path : Bytes) : ∀ node : Yaml,
    listAllMember path node = visited path node.nodes
  | .scalar text => by
    rw [listAllMember, Yaml.nodes, visited_single]
    · exact nofun
    · exact nofun
  | .sequence items => by
    rw [listAllMember, Yaml.nodes, visited_single]
    · exact nofun
    · exact nofun
  | .map entries => by
    rw [listAllMember, Yaml.nodes]
    cases hpath : validName path with
    | false => rw [visited_of_invalid hpath, if_neg (by simp)]
    | true =>
      rw [if_pos rfl, listEntries_visited path hpath entries, visited_cons hpath]

theorem listEntries_visited (path : Bytes) (hpath : validName path = true) :
    ∀ entries : List (Bytes × Yaml), listEntries path entries = visited path (Yaml.inside entries)
  | [] => rfl
  | (key, value) :: entries => by
    rw [listEntries, Yaml.inside, visited_append, visited_cons_key hpath,
      listAllMember_visited (join path key) value, listEntries_visited path hpath entries]

end

theorem validName_visited {path : Bytes} {nodes : List (List Bytes × Yaml)} {n : Bytes × Yaml}
    (h : n ∈ visited path nodes) : validName n.1 = true := by
  obtain ⟨m, hm, rfl⟩ := List.mem_map.mp h
  have hvalid := List.all_eq_true.mp (List.mem_filter.mp hm).2
  exact hvalid _ ((List.mem_inits _ _).mpr List.prefix_rfl)

/-! ## Loading -/

/-- A type of variables: its values, `FromStr`, and `operator==`. -/
structure VarType where
  Value : Type
  fromStr : Bytes → Option Value
  eq : Value → Value → Bool

/-- A `ConfigVarBase`, with the type it has. -/
structure ConfigVarBase where
  type : VarType
  value : type.Value

namespace ConfigVarBase

variable (v : ConfigVarBase)

/-- `setValue`, for listeners that return. -/
def setValue (val : v.type.Value) : ConfigVarBase :=
  if v.type.eq val v.value then v else { type := v.type, value := val }

/-- `fromString`: a conversion that throws is logged. -/
def fromString (str : Bytes) : Bool × ConfigVarBase :=
  match v.type.fromStr str with
  | none => (false, v)
  | some val => (true, v.setValue val)

end ConfigVarBase

/-- The variables by their names. -/
abbrev Datas := Bytes → Option ConfigVarBase

/-- The text that is converted: that of a scalar, or what `operator<<` prints. -/
def Yaml.text (print : Yaml → Bytes) : Yaml → Bytes
  | .scalar text => text
  | node => print node

/-- The body of the loop of `LoadFromYaml`. -/
def loadNode (print : Yaml → Bytes) (datas : Datas) (node : Bytes × Yaml) : Datas :=
  let key := node.1
  if key.isEmpty then datas
  else
    let key := key.map tolower
    match datas key with
    | none => datas
    | some v => update datas key (some (v.fromString (node.2.text print)).2)

/-- `Config::LoadFromYaml`. -/
def loadFromYaml (print : Yaml → Bytes) (datas : Datas) (root : Yaml) : Datas :=
  (listAllMember [] root).foldl (loadNode print) datas

/-- The texts of the visited nodes whose path is a name. -/
def textsOf (print : Yaml → Bytes) (root : Yaml) (name : Bytes) : List Bytes :=
  ((visited [] root.nodes).filter fun n => n.1 == name).map fun n => n.2.text print

/-- What becomes of the variable: its value is that of the last text that converts, or its former one. -/
def loaded (v : ConfigVarBase) (texts : List Bytes) : ConfigVarBase :=
  ⟨v.type, ((texts.filterMap v.type.fromStr).getLast?).getD v.value⟩

/-- Of the values that the texts convert to and the former one, `operator==` takes no two different ones for
equal. If it is equality on the type, this is so of all texts. -/
def Discerns (v : ConfigVarBase) (texts : List Bytes) : Prop :=
  ∀ val ∈ texts.filterMap v.type.fromStr, ∀ old ∈ v.value :: texts.filterMap v.type.fromStr,
    v.type.eq val old = true → val = old

/-- The variable of the name holds what the document has for it. -/
def LoadsLast (print : Yaml → Bytes) (datas : Datas) (root : Yaml) (name : Bytes) : Prop :=
  loadFromYaml print datas root name = (datas name).map fun v => loaded v (textsOf print root name)

theorem tolower_of_nameChar {b : UInt8} (h : nameChar b = true) : tolower b = b := by
  rw [tolower, if_neg]
  rintro ⟨hlo, hhi⟩
  have hdot : b ≠ 46 := by rintro rfl; simp at hlo
  have hline : b ≠ 95 := by rintro rfl; simp at hhi
  simp [nameChar, hdot, hline] at h
  omega

theorem map_tolower_of_validName {name : Bytes} (h : validName name = true) : name.map tolower = name := by
  have hall : ∀ b ∈ name, tolower b = id b := fun b hb => tolower_of_nameChar (List.all_eq_true.mp h b hb)
  rw [List.map_congr_left hall, List.map_id]

section

variable {print : Yaml → Bytes} {datas : Datas} {name : Bytes}

/-- A node changes the variable of its path alone. -/
theorem loadNode_apply {n : Bytes × Yaml} (hvalid : validName n.1 = true) (hname : name ≠ []) :
    loadNode print datas n name
      = if n.1 = name then (datas name).map fun v => (v.fromString (n.2.text print)).2 else datas name := by
  rw [loadNode]
  dsimp only
  rw [map_tolower_of_validName hvalid]
  by_cases hn : n.1 = name
  · subst hn
    rw [if_neg (by simpa using hname), if_pos rfl]
    cases hdatas : datas n.1 with
    | none => exact hdatas
    | some v => exact Function.update_self ..
  · rw [if_neg hn]
    split
    · rfl
    · cases datas n.1 with
      | none => rfl
      | some v => exact Function.update_of_ne (Ne.symm hn) ..

/-- The variable without a name is left out. -/
theorem loadNode_nil {n : Bytes × Yaml} (hvalid : validName n.1 = true) :
    loadNode print datas n [] = datas [] := by
  rw [loadNode]
  dsimp only
  rw [map_tolower_of_validName hvalid]
  split
  · rfl
  · next hne =>
    cases datas n.1 with
    | none => rfl
    | some v =>
      refine Function.update_of_ne ?_ ..
      intro heq
      rw [← heq] at hne
      exact hne rfl

theorem foldl_loadNode {ns : List (Bytes × Yaml)} (hvalid : ∀ n ∈ ns, validName n.1 = true)
    (hname : name ≠ []) : ns.foldl (loadNode print) datas name
      = (datas name).map fun v => (((ns.filter fun n => n.1 == name).map fun n => n.2.text print).foldl
          (fun v str => (v.fromString str).2) v) := by
  induction ns generalizing datas with
  | nil => simp
  | cons n ns ih =>
    obtain ⟨hn, hns⟩ := List.forall_mem_cons.mp hvalid
    rw [List.foldl_cons, ih hns, loadNode_apply hn hname, List.filter_cons]
    by_cases heq : n.1 = name
    · rw [if_pos heq, if_pos (beq_iff_eq.mpr heq), Option.map_map]
      rfl
    · rw [if_neg heq, if_neg (by simpa using heq)]

theorem foldl_loadNode_nil {ns : List (Bytes × Yaml)} (hvalid : ∀ n ∈ ns, validName n.1 = true) :
    ns.foldl (loadNode print) datas [] = datas [] := by
  induction ns generalizing datas with
  | nil => rfl
  | cons n ns ih =>
    obtain ⟨hn, hns⟩ := List.forall_mem_cons.mp hvalid
    rw [List.foldl_cons, ih hns, loadNode_nil hn]

/-- Of the texts that are passed to `fromString`, the last one that converts counts. -/
theorem foldl_fromString (v : ConfigVarBase) {texts : List Bytes} (h : Discerns v texts) :
    texts.foldl (fun v str => (v.fromString str).2) v = loaded v texts := by
  induction texts using List.reverseRecOn with
  | nil => rfl
  | append_singleton texts str ih =>
    have hvals : (texts ++ [str]).filterMap v.type.fromStr =
        texts.filterMap v.type.fromStr ++ [str].filterMap v.type.fromStr := List.filterMap_append
    have hfront : Discerns v texts := by
      intro val hval old hold heq
      refine h val ?_ old ?_ heq
      · rw [hvals]
        exact List.mem_append_left _ hval
      · rw [hvals]
        exact List.mem_cons.mpr ((List.mem_cons.mp hold).imp_right (List.mem_append_left _))
    rw [List.foldl_concat, ih hfront]
    unfold loaded ConfigVarBase.fromString
    dsimp only
    cases hstr : v.type.fromStr str with
    | none => rw [hvals, List.filterMap_cons_none hstr, List.filterMap_nil, List.append_nil]
    | some val =>
      rw [List.filterMap_cons_some hstr, List.filterMap_nil] at hvals
      rw [hvals, List.getLast?_concat, Option.getD_some]
      unfold ConfigVarBase.setValue
      dsimp only
      split
      · next heq =>
        -- an equal value is not stored, and is the same
        have hmem : ((texts.filterMap v.type.fromStr).getLast?).getD v.value ∈
            v.value :: (texts ++ [str]).filterMap v.type.fromStr := by
          rw [hvals]
          cases hlast : (texts.filterMap v.type.fromStr).getLast? with
          | none => exact List.mem_cons_self
          | some old =>
            exact List.mem_cons_of_mem _ (List.mem_append_left _ (List.mem_of_getLast? hlast))
        have hval : val ∈ (texts ++ [str]).filterMap v.type.fromStr := by
          rw [hvals]
          exact List.mem_append_right _ List.mem_cons_self
        rw [h val hval _ hmem heq]
      · rfl

/-- The nodes that are visited, in the order in which they are loaded. -/
theorem listAllMember_eq (root : Yaml) : listAllMember [] root = visited [] root.nodes :=
  listAllMember_visited [] root

/-- The texts of the nodes of a name are passed to its variable. -/
theorem loadFromYaml_apply (root : Yaml) (hname : name ≠ []) :
    loadFromYaml print datas root name = (datas name).map fun v =>
      (textsOf print root name).foldl (fun v str => (v.fromString str).2) v := by
  rw [loadFromYaml, listAllMember_eq]
  exact foldl_loadNode (fun n => validName_visited) hname

theorem loadsLast_of_discerns (root : Yaml) (hname : name ≠ [])
    (h : ∀ v ∈ datas name, Discerns v (textsOf print root name)) : LoadsLast print datas root name := by
  rw [LoadsLast, loadFromYaml_apply root hname]
  exact Option.map_congr fun v hv => foldl_fromString v (h v hv)

/--
The effect of a document: which nodes are visited, that each variable with a name has the value of the
last of its nodes that converts if `operator==` discerns the values, and that the variable with the empty
name is left as it is.
-/
theorem loadFromYaml_spec (print : Yaml → Bytes) (datas : Datas) (root : Yaml) :
    listAllMember [] root = visited [] root.nodes ∧
      (∀ name, name ≠ [] → (∀ v ∈ datas name, Discerns v (textsOf print root name)) →
        LoadsLast print datas root name) ∧
      loadFromYaml print datas root [] = datas [] := by
  refine ⟨listAllMember_eq root, fun name => loadsLast_of_discerns root, ?_⟩
  rw [loadFromYaml, listAllMember_eq]
  exact foldl_loadNode_nil fun n => validName_visited

end

/-- A `ConfigVar<String>`. -/
def stringVar (value : Bytes) : ConfigVarBase :=
  { type := { Value := Bytes, fromStr := some, eq := BEq.beq }, value }

/-- A variable whose name is empty does not get the value of the root, which has the empty path. -/
theorem not_loadsLast_nil : ¬LoadsLast (fun _ => []) (fun _ => some (stringVar [])) (.scalar (ascii "1")) [] := by
  intro h
  have hload : some (stringVar []) = some (stringVar (ascii "1")) := h
  simp only [stringVar, Option.some.injEq, ConfigVarBase.mk.injEq, heq_eq_eq, true_and] at hload
  exact absurd hload (by decide)

end Nemo.Config
