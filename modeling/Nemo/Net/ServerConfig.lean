import Nemo.Common.ConfigYaml
import Nemo.Common.YamlCast
import Nemo.Db.DbConfig
import Nemo.Log.LogDefineYaml

/-!
# `ServerConfig`

The two `LexicalCast`s of `net::ServerConfig` in `src/include/net/server.h`, and the variable `servers` of
`src/system/application.cc`, which is a vector of them. `operator==` compares the names only.

`fromString_servers` — what becomes of the variable when it is set to a text that was printed of other servers
-/

namespace Nemo.Net

open Http Yaml Config

structure ServerConfig where
  addresses : List Bytes := []
  id : Bytes := []
  type : Bytes := []
  name : Bytes := []
  certFile : Bytes := []
  keyFile : Bytes := []
  timeoutMillionSeconds : Int32 := 1000 * 2 * 60
  keepAlive : Bool := false
  ssl : Bool := false
  deriving DecidableEq

namespace ServerConfig

/-- The test of both casts for the fields of a connection. -/
def isTcp (type : Bytes) : Bool := type == ascii "tcp" || type == ascii "http"

section

variable (yaml : YamlCpp) (int : Convert Int32) (bool : Convert Bool)

/-! ## The casts -/

/-- What the encoder assigns to the keys of the document. -/
def fields (config : ServerConfig) : List (Bytes × Option Node) :=
  [(ascii "id", some (.scalar config.id)),
    (ascii "type", some (.scalar config.type)),
    (ascii "name", some (.scalar config.name)),
    (ascii "ssl", some (.scalar (bool.encode config.ssl))),
    (ascii "cert_file", some (.scalar config.certFile)),
    (ascii "key_file", some (.scalar config.keyFile)),
    (ascii "keep_alive", Node.given (isTcp config.type) (bool.encode config.keepAlive)),
    (ascii "timeout", Node.given (isTcp config.type) (int.encode config.timeoutMillionSeconds)),
    (ascii "addresses", if config.addresses.isEmpty then none else some (.ofItems (config.addresses.map .scalar)))]

def toNode (config : ServerConfig) : Node := .ofFields (config.fields int bool)

/-- `node[key].as<T>(fallback)`, which does not throw if the conversion fails. -/
def fallback {α : Type} (as : Node → Option α) (default : α) (node : Node) (key : Bytes) : Option α :=
  (node.subscript key).map fun value => (value.bind as).getD default

/-- The loop over `node["addresses"]`. -/
def addressesOf (node : Node) : Option (List Bytes) :=
  node.optional (fun addresses => (addresses.items yaml).mapM fun item => item.bind Node.asString) []
    (ascii "addresses")

/-- `keep_alive` and `timeout`, with the defaults of the fields. -/
def connectionOf (type : Bytes) (node : Node) : Option (Bool × Int32) :=
  if isTcp type then do
    let keepAlive ← fallback bool.decode false node (ascii "keep_alive")
    let timeout ← fallback int.decode (1000 * 2 * 60) node (ascii "timeout")
    some (keepAlive, timeout)
  else some (false, 1000 * 2 * 60)

def ofNode (node : Node) : Option ServerConfig := do
  let id ← fallback Node.asString [] node (ascii "id")
  let type ← fallback Node.asString [] node (ascii "type")
  let name ← fallback Node.asString [] node (ascii "name")
  let ssl ← fallback bool.decode false node (ascii "ssl")
  let certFile ← fallback Node.asString [] node (ascii "cert_file")
  let keyFile ← fallback Node.asString [] node (ascii "key_file")
  let (keepAlive, timeout) ← connectionOf int bool type node
  let addresses ← addressesOf yaml node
  return {
    addresses := addresses
    id := id
    type := type
    name := name
    certFile := certFile
    keyFile := keyFile
    timeoutMillionSeconds := timeout
    keepAlive := keepAlive
    ssl := ssl }

/-- `LexicalCast<String, ServerConfig>` and `LexicalCast<ServerConfig, String>` -/
def lexicalCast : LexicalCast ServerConfig where
  toStr config := some (yaml.emit (config.toNode int bool))
  ofStr text := (yaml.load text).bind (ofNode yaml int bool)

/-- `operator==` -/
def eq (config other : ServerConfig) : Bool := config.name == other.name

/-- The type of the variable `servers`. -/
def servers : VarType where
  Value := List ServerConfig
  fromStr := str2SequenceContainer yaml (lexicalCast yaml int bool)
  eq configs others := configs.isEqv others eq

/-! ## What is decoded -/

/-- What is kept of a config: a server that is not one of connections has the defaults of theirs. -/
def decoded (config : ServerConfig) : ServerConfig :=
  if isTcp config.type then config
  else { config with keepAlive := false, timeoutMillionSeconds := 1000 * 2 * 60 }

/-- yaml-cpp loads the document as it was emitted, and reads the values in it back. -/
structure Faithful (config : ServerConfig) : Prop where
  loads : yaml.load (yaml.emit (config.toNode int bool)) = some (config.toNode int bool)
  ssl : bool.decode (.scalar (bool.encode config.ssl)) = some config.ssl
  keepAlive : bool.decode (.scalar (bool.encode config.keepAlive)) = some config.keepAlive
  timeout : int.decode (.scalar (int.encode config.timeoutMillionSeconds)) = some config.timeoutMillionSeconds

variable {yaml int bool} {config : ServerConfig}

theorem nodup_fields (config : ServerConfig) : ((config.fields int bool).map Prod.fst).Nodup := by
  have hkeys : (config.fields int bool).map Prod.fst = [ascii "id", ascii "type", ascii "name", ascii "ssl",
      ascii "cert_file", ascii "key_file", ascii "keep_alive", ascii "timeout", ascii "addresses"] := rfl
  rw [hkeys]
  decide

theorem fallback_toNode {α : Type} (as : Node → Option α) (default : α) {key : Bytes} {value : Option Node}
    (h : (key, value) ∈ config.fields int bool) :
    fallback as default (config.toNode int bool) key = some ((value.bind as).getD default) := by
  rw [fallback, toNode, Node.subscript_ofFields (nodup_fields config) h]
  rfl

theorem addressesOf_toNode : addressesOf yaml (config.toNode int bool) = some config.addresses := by
  have hmem : (ascii "addresses", if config.addresses.isEmpty then none
      else some (.ofItems (config.addresses.map .scalar))) ∈ config.fields int bool :=
    List.mem_of_getElem? (i := 8) rfl
  have hscalars : ∀ addresses : List Bytes,
      ((addresses.map Node.scalar).map some).mapM (fun item => item.bind Node.asString) = some addresses := by
    intro addresses
    rw [mapM_eq_some_iff]
    induction addresses with
    | nil => exact .nil
    | cons address addresses ih => exact .cons rfl ih
  rw [addressesOf, toNode, Node.optional_ofFields _ _ (nodup_fields config) hmem]
  cases hempty : config.addresses.isEmpty with
  | true => rw [List.isEmpty_iff.mp hempty]; rfl
  | false =>
    show ((Node.ofItems (config.addresses.map .scalar)).items yaml).mapM _ = _
    rw [Node.items_ofItems]
    exact hscalars config.addresses

theorem connectionOf_toNode (h : Faithful yaml int bool config) :
    connectionOf int bool config.type (config.toNode int bool) =
      some (if isTcp config.type then (config.keepAlive, config.timeoutMillionSeconds)
        else (false, 1000 * 2 * 60)) := by
  have halive : (ascii "keep_alive", Node.given (isTcp config.type) (bool.encode config.keepAlive)) ∈
      config.fields int bool := List.mem_of_getElem? (i := 6) rfl
  have htimeout : (ascii "timeout", Node.given (isTcp config.type) (int.encode config.timeoutMillionSeconds)) ∈
      config.fields int bool := List.mem_of_getElem? (i := 7) rfl
  unfold connectionOf
  cases htcp : isTcp config.type with
  | true =>
    rw [htcp] at halive htimeout
    rw [if_pos rfl, if_pos rfl, fallback_toNode _ _ halive, fallback_toNode _ _ htimeout]
    simp only [Node.given, if_true, Option.bind_some, h.keepAlive, h.timeout, Option.getD_some, Option.bind_eq_bind]
  | false => rfl

/-- A config is decoded with what is kept of it. -/
theorem ofNode_toNode (h : Faithful yaml int bool config) :
    ofNode yaml int bool (config.toNode int bool) = some config.decoded := by
  have hfield {i : Nat} {field : Bytes × Option Node} (hi : (config.fields int bool)[i]? = some field) :
      field ∈ config.fields int bool := List.mem_of_getElem? hi
  have hid := fallback_toNode Node.asString [] (hfield (i := 0) rfl)
  have htype := fallback_toNode Node.asString [] (hfield (i := 1) rfl)
  have hname := fallback_toNode Node.asString [] (hfield (i := 2) rfl)
  have hssl := fallback_toNode bool.decode false (hfield (i := 3) rfl)
  have hcert := fallback_toNode Node.asString [] (hfield (i := 4) rfl)
  have hkey := fallback_toNode Node.asString [] (hfield (i := 5) rfl)
  unfold ofNode decoded
  rw [hid, htype, hname, hssl, hcert, hkey]
  simp only [Option.bind_some, Node.asString, Option.getD_some, Option.bind_eq_bind, h.ssl]
  rw [connectionOf_toNode h, addressesOf_toNode]
  cases htcp : isTcp config.type <;> rfl

theorem trip_eq (h : Faithful yaml int bool config) :
    trip yaml (lexicalCast yaml int bool) config = some config.decoded := by
  show ((yaml.load (yaml.emit (config.toNode int bool))).bind fun node =>
    (yaml.load (yaml.emit node)).bind (ofNode yaml int bool)) = _
  rw [h.loads, Option.bind_some, h.loads, Option.bind_some, ofNode_toNode h]

theorem mapM_trip {configs : List ServerConfig} (h : ∀ config ∈ configs, Faithful yaml int bool config) :
    configs.mapM (trip yaml (lexicalCast yaml int bool)) = some (configs.map decoded) := by
  rw [mapM_eq_some_iff, List.forall₂_map_right_iff, List.forall₂_same]
  exact fun config hconfig => trip_eq (h config hconfig)

theorem isEqv_eq_iff {configs others : List ServerConfig} :
    configs.isEqv others eq = true ↔ configs.map name = others.map name := by
  induction configs generalizing others with
  | nil => cases others <;> simp [List.isEqv]
  | cons config configs ih =>
    cases others with
    | nil => simp [List.isEqv]
    | cons other others => simp [List.isEqv, eq, ih]

theorem name_decoded (config : ServerConfig) : config.decoded.name = config.name := by
  unfold decoded
  split <;> rfl

/-- What is printed of servers converts to what is kept of them. -/
theorem fromStr_container2Str {new : List ServerConfig} (h : ∀ config ∈ new, Faithful yaml int bool config)
    (hloads : yaml.load (yaml.emit (.ofItems (new.map (toNode int bool)))) =
      some (.ofItems (new.map (toNode int bool)))) :
    ∃ text, container2Str yaml (lexicalCast yaml int bool) new = some text ∧
      (servers yaml int bool).fromStr text = some (new.map decoded) := by
  have hnodes : (new.mapM fun elem => do yaml.load (← (lexicalCast yaml int bool).toStr elem)) =
      some (new.map (toNode int bool)) := by
    rw [mapM_eq_some_iff, List.forall₂_map_right_iff, List.forall₂_same]
    exact fun config hconfig => (h config hconfig).loads
  have hback : LoadsBack yaml (lexicalCast yaml int bool) new := by
    intro nodes heq
    rw [hnodes, Option.some.injEq] at heq
    exact heq ▸ hloads
  exact Option.bind_eq_some_iff.mp ((container2Str_bind_str2Elements hback).trans (mapM_trip h))

/--
**The variable takes the servers that were printed if the names are others**, in number or in order, with the defaults
for those that are not servers of connections. If the names are the same it keeps its value, whatever else has changed.
-/
theorem fromString_servers {old new : List ServerConfig} (h : ∀ config ∈ new, Faithful yaml int bool config)
    (hloads : yaml.load (yaml.emit (.ofItems (new.map (toNode int bool)))) =
      some (.ofItems (new.map (toNode int bool)))) :
    ∃ text, container2Str yaml (lexicalCast yaml int bool) new = some text ∧
      ConfigVarBase.fromString ⟨servers yaml int bool, old⟩ text =
        (true, if new.map name = old.map name then ⟨servers yaml int bool, old⟩
          else ⟨servers yaml int bool, new.map decoded⟩) := by
  obtain ⟨text, htext, hfromStr⟩ := fromStr_container2Str h hloads
  refine ⟨text, htext, ?_⟩
  have hnames : (new.map decoded).map name = new.map name := by
    rw [List.map_map]
    exact List.map_congr_left fun config _ => name_decoded config
  have heqv : (servers yaml int bool).eq (new.map decoded) old = true ↔ new.map name = old.map name := by
    rw [← hnames]
    exact isEqv_eq_iff
  unfold ConfigVarBase.fromString ConfigVarBase.setValue
  dsimp only
  rw [hfromStr]
  dsimp only
  exact congrArg (Prod.mk true) (if_congr heqv rfl rfl)

end

/-! ## The config of one shop -/

/-- The part of yaml-cpp that prints and parses a block map of plain scalars, and a sequence of such maps. -/
def mapsYaml : YamlCpp where
  emit
    | .map entries => [10].intercalate (entries.map Log.printField)
    | .sequence items => [10].intercalate (items.flatMap fun
      | .map (field :: fields) =>
        (ascii "- " ++ Log.printField field) :: fields.map fun field => ascii "  " ++ Log.printField field
      | _ => [ascii "- ~"])
    | _ => ascii "~"
  load text :=
    if (ascii "- ").isPrefixOf text then
      some (.sequence ((text.splitOn 10).foldr
        (fun line (items, fields) =>
          if (ascii "- ").isPrefixOf line then (.map (Log.parseField (line.drop 2) :: fields) :: items, [])
          else (items, Log.parseField (line.drop 2) :: fields)) ([], [])).1)
    else some (.map ((text.splitOn 10).map Log.parseField))
  isIndex key i := key == ascii (toString i)

def bools : Convert Bool where
  encode b := if b then ascii "true" else ascii "false"
  decode
    | .scalar text => if text = ascii "true" then some true else if text = ascii "false" then some false else none
    | _ => none

/-- A server of another type, of which the timeout is not printed. -/
def shop (ssl : Bool) : ServerConfig where
  id := ascii "1"
  type := ascii "echo"
  name := ascii "shop"
  certFile := ascii "c.pem"
  keyFile := ascii "k.pem"
  timeoutMillionSeconds := 5
  ssl := ssl

theorem faithful_shop (ssl : Bool) : Faithful mapsYaml Db.decimal bools (shop ssl) where
  loads := by cases ssl <;> rfl
  ssl := by cases ssl <;> rfl
  keepAlive := rfl
  timeout := by cases ssl <;> decide

/-- The config of the shop is taken where there was none, and not where there was another one of its name. -/
theorem fromString_servers_shop :
    (∃ text, container2Str mapsYaml (lexicalCast mapsYaml Db.decimal bools) [shop true] = some text ∧
      ConfigVarBase.fromString ⟨servers mapsYaml Db.decimal bools, []⟩ text =
        (true, if [shop true].map name = [].map name then ⟨servers mapsYaml Db.decimal bools, []⟩
          else ⟨servers mapsYaml Db.decimal bools, [shop true].map decoded⟩)) ∧
    ∃ text, container2Str mapsYaml (lexicalCast mapsYaml Db.decimal bools) [shop true] = some text ∧
      ConfigVarBase.fromString ⟨servers mapsYaml Db.decimal bools, [shop false]⟩ text =
        (true, if [shop true].map name = [shop false].map name
          then ⟨servers mapsYaml Db.decimal bools, [shop false]⟩
          else ⟨servers mapsYaml Db.decimal bools, [shop true].map decoded⟩) := by
  have hfaithful : ∀ config ∈ [shop true], Faithful mapsYaml Db.decimal bools config := fun config hconfig => by
    cases List.mem_singleton.mp hconfig
    exact faithful_shop true
  exact ⟨fromString_servers hfaithful rfl, fromString_servers hfaithful rfl⟩

/-- A document changes the server of the shop, and the variable `servers` keeps the old one, as it has the same
name; and a variable whose name is empty does not get the value of the root. -/
theorem not_loadsLast :
    (∃ text, container2Str mapsYaml (lexicalCast mapsYaml Db.decimal bools) [shop true] = some text ∧
      ¬LoadsLast (fun _ => [])
        (Function.update (fun _ => none) (ascii "servers")
          (some ⟨servers mapsYaml Db.decimal bools, [shop false]⟩))
        (.map [(ascii "servers", .scalar text)]) (ascii "servers")) ∧
    ¬LoadsLast (fun _ => []) (fun _ => some (stringVar [])) (.scalar (ascii "1")) [] := by
  refine ⟨?_, not_loadsLast_nil⟩
  have hfaithful : ∀ config ∈ [shop true], Faithful mapsYaml Db.decimal bools config := fun config hconfig => by
    cases List.mem_singleton.mp hconfig
    exact faithful_shop true
  obtain ⟨text, htext, hfromStr⟩ := fromStr_container2Str hfaithful rfl
  refine ⟨text, htext, fun h => ?_⟩
  generalize hroot : Yaml.map [(ascii "servers", .scalar text)] = root at h
  have htexts : textsOf (fun _ => []) root (ascii "servers") = [text] := by
    subst hroot
    rfl
  rw [LoadsLast, loadFromYaml_apply root (by decide), htexts, Function.update_self] at h
  simp only [Option.map_some, List.foldl_cons, List.foldl_nil, loaded, List.filterMap_cons, hfromStr,
    ConfigVarBase.fromString, Option.some.injEq] at h
  -- the names are the same, so that nothing was stored
  have hkept : ConfigVarBase.setValue ⟨servers mapsYaml Db.decimal bools, [shop false]⟩ ([shop true].map decoded) =
      ⟨servers mapsYaml Db.decimal bools, [shop false]⟩ := if_pos rfl
  rw [hkept] at h
  injection h with _ hvalue
  have hdecoded : [shop false] = [shop true].map decoded := hvalue
  exact absurd hdecoded (by decide)

end ServerConfig

end Nemo.Net
