import Nemo.Common.YamlNode
import Nemo.Http.Table

/-!
# `DbConfig` as YAML

The two `LexicalCast`s of `db::DbConfig` in `src/include/db/db.h`. The decoder looks a timeout up, but then
converts the whole document to an integer.

`dbConfigRoundTrip_iff` — a config is decoded as it was encoded if and only if no timeout was encoded
-/

namespace Nemo.Db

open Http Yaml

structure DbConfig where
  name : Bytes := []
  dbname : Bytes := []
  user : Bytes := []
  password : Bytes := []
  host : Bytes := []
  port : Int32 := -1
  sslca : Bytes := []
  sslcert : Bytes := []
  charset : Bytes := ascii "uft8"
  connections : Int32 := 1
  connectTimeout : Int32 := -1
  readTimeout : Int32 := -1
  writeTimeout : Int32 := -1
  reconnect : Bool := false
  deriving DecidableEq

section

variable (yaml : YamlCpp) (int : Convert Int32)

/-! ## The casts -/

/-- What the encoder assigns to the keys of the document. -/
def DbConfig.fields (config : DbConfig) : List (Bytes × Option Node) :=
  [(ascii "name", some (.scalar config.name)),
    (ascii "dbname", some (.scalar config.dbname)),
    (ascii "user", some (.scalar config.user)),
    (ascii "password", some (.scalar config.password)),
    (ascii "connections", some (.scalar (int.encode config.connections))),
    (ascii "host", Node.given (!config.host.isEmpty) config.host),
    (ascii "port", Node.given (!config.host.isEmpty) (int.encode config.port)),
    (ascii "sslca", Node.given (!config.sslca.isEmpty) config.sslca),
    (ascii "sslcert", Node.given (!config.sslca.isEmpty) config.sslcert),
    (ascii "charset", Node.given (!config.charset.isEmpty) config.charset),
    (ascii "connect_timeout", Node.given (0 < config.connectTimeout) (int.encode config.connectTimeout)),
    (ascii "read_timeout", Node.given (0 < config.readTimeout) (int.encode config.readTimeout)),
    (ascii "write_timeout", Node.given (0 < config.writeTimeout) (int.encode config.writeTimeout))]

def DbConfig.toNode (config : DbConfig) : Node := .ofFields (config.fields int)

/-- `LexicalCast<String, DbConfig>`. -/
def encode (config : DbConfig) : Bytes := yaml.emit (config.toNode int)

/-- `host` and `port`. -/
def decodeHost (node : Node) : Option (Bytes × Int32) := do
  match ← node.subscript (ascii "host") with
  | some tmpNode => return (← tmpNode.asString, ← node.required int.decode (ascii "port"))
  | none => return ([], -1)

/-- `sslca` and `sslcert`. -/
def decodeSsl (node : Node) : Option (Bytes × Bytes) := do
  match ← node.subscript (ascii "sslca") with
  | some tmpNode => return (← tmpNode.asString, ← node.required Node.asString (ascii "sslcert"))
  | none => return ([], [])

/-- `charset`, which has a default. -/
def decodeCharset (node : Node) : Option Bytes :=
  node.optional Node.asString (ascii "uft8") (ascii "charset")

/-- A timeout: if its node is defined, `node.as<int>()` is called of the document. -/
def decodeTimeout (node : Node) (key : Bytes) : Option Int32 := do
  match ← node.subscript key with
  | some _ => int.decode node
  | none => return -1

def fromNode (node : Node) : Option DbConfig := do
  let name ← node.required Node.asString (ascii "name")
  let dbname ← node.required Node.asString (ascii "dbname")
  let user ← node.required Node.asString (ascii "user")
  let password ← node.required Node.asString (ascii "password")
  let connections ← node.required int.decode (ascii "connections")
  let (host, port) ← decodeHost int node
  let (sslca, sslcert) ← decodeSsl node
  let charset ← decodeCharset node
  let connectTimeout ← decodeTimeout int node (ascii "connect_timeout")
  let readTimeout ← decodeTimeout int node (ascii "read_timeout")
  let writeTimeout ← decodeTimeout int node (ascii "write_timeout")
  return {
    name := name
    dbname := dbname
    user := user
    password := password
    host := host
    port := port
    sslca := sslca
    sslcert := sslcert
    charset := charset
    connections := connections
    connectTimeout := connectTimeout
    readTimeout := readTimeout
    writeTimeout := writeTimeout }

/-- `LexicalCast<DbConfig, String>`. -/
def decode (yamlStr : Bytes) : Option DbConfig := do
  fromNode int (← yaml.load yamlStr)

/-! ## The round trip -/

/-- The two configs are the same in what is encoded of the first. -/
structure SameEncoded (c c' : DbConfig) : Prop where
  name : c'.name = c.name
  dbname : c'.dbname = c.dbname
  user : c'.user = c.user
  password : c'.password = c.password
  connections : c'.connections = c.connections
  host : c.host ≠ [] → c'.host = c.host ∧ c'.port = c.port
  sslca : c.sslca ≠ [] → c'.sslca = c.sslca ∧ c'.sslcert = c.sslcert
  charset : c.charset ≠ [] → c'.charset = c.charset
  connectTimeout : 0 < c.connectTimeout → c'.connectTimeout = c.connectTimeout
  readTimeout : 0 < c.readTimeout → c'.readTimeout = c.readTimeout
  writeTimeout : 0 < c.writeTimeout → c'.writeTimeout = c.writeTimeout

def RoundTrip (config : DbConfig) : Prop :=
  ∃ config', decode yaml int (encode yaml int config) = some config' ∧ SameEncoded config config'

/-- yaml-cpp loads the document as it was emitted, and reads the integers in it back. It does not read a
map as an integer. -/
structure Faithful (config : DbConfig) : Prop where
  loads : yaml.load (yaml.emit (config.toNode int)) = some (config.toNode int)
  connections : int.decode (.scalar (int.encode config.connections)) = some config.connections
  port : int.decode (.scalar (int.encode config.port)) = some config.port
  map : ∀ entries, int.decode (.map entries) = none

variable {yaml int} {config : DbConfig}

/-- The keys are different. -/
theorem nodup_keys (config : DbConfig) : ((config.fields int).map Prod.fst).Nodup := by
  have hkeys : (config.fields int).map Prod.fst = [ascii "name", ascii "dbname", ascii "user",
      ascii "password", ascii "connections", ascii "host", ascii "port", ascii "sslca",
      ascii "sslcert", ascii "charset", ascii "connect_timeout", ascii "read_timeout",
      ascii "write_timeout"] := rfl
  rw [hkeys]
  decide

theorem subscript_toNode {key : Bytes} {value : Option Node} (h : (key, value) ∈ config.fields int) :
    (config.toNode int).subscript key = some value :=
  Node.subscript_ofFields (nodup_keys config) h

/-- A field that is always assigned. -/
theorem required_toNode {α : Type} (as : Node → Option α) {key text : Bytes}
    (h : (key, some (.scalar text)) ∈ config.fields int) :
    (config.toNode int).required as key = as (.scalar text) :=
  Node.required_ofFields as (nodup_keys config) h

theorem decodeHost_toNode (h : Faithful yaml int config) :
    decodeHost int (config.toNode int) =
      some (if config.host.isEmpty then ([], -1) else (config.host, config.port)) := by
  have hhost := subscript_toNode (List.mem_of_getElem? (l := config.fields int) (i := 5) rfl)
  have hport := subscript_toNode (List.mem_of_getElem? (l := config.fields int) (i := 6) rfl)
  cases hempty : config.host.isEmpty with
  | true =>
    rw [hempty] at hhost
    rw [decodeHost, hhost]
    rfl
  | false =>
    rw [hempty] at hhost hport
    rw [decodeHost, hhost, Node.required, hport]
    show ((int.decode (.scalar (int.encode config.port))).bind fun port =>
      some (config.host, port)) = _
    rw [h.port]
    rfl

theorem decodeSsl_toNode :
    decodeSsl (config.toNode int) =
      some (if config.sslca.isEmpty then ([], []) else (config.sslca, config.sslcert)) := by
  have hsslca := subscript_toNode (List.mem_of_getElem? (l := config.fields int) (i := 7) rfl)
  have hsslcert := subscript_toNode (List.mem_of_getElem? (l := config.fields int) (i := 8) rfl)
  cases hempty : config.sslca.isEmpty with
  | true =>
    rw [hempty] at hsslca
    rw [decodeSsl, hsslca]
    rfl
  | false =>
    rw [hempty] at hsslca hsslcert
    rw [decodeSsl, hsslca, Node.required, hsslcert]
    rfl

theorem decodeCharset_toNode :
    decodeCharset (config.toNode int) =
      some (if config.charset.isEmpty then ascii "uft8" else config.charset) :=
  Node.optional_asString _ (nodup_keys config)
    (List.mem_of_getElem? (l := config.fields int) (i := 9) rfl)

/-- A timeout that was encoded is not decoded. -/
theorem decodeTimeout_toNode (h : Faithful yaml int config) {key : Bytes} {timeout : Int32}
    (hmem : (key, Node.given (0 < timeout) (int.encode timeout)) ∈ config.fields int) :
    decodeTimeout int (config.toNode int) key = if 0 < timeout then none else some (-1) := by
  have htimeout := subscript_toNode hmem
  by_cases hpos : 0 < timeout
  · rw [decide_eq_true hpos] at htimeout
    rw [decodeTimeout, htimeout, if_pos hpos]
    exact h.map _
  · rw [decide_eq_false hpos] at htimeout
    rw [decodeTimeout, htimeout, if_neg hpos]
    rfl

/-- What the encoder wrote, with the defaults of what it left out. -/
def DbConfig.decoded (config : DbConfig) : DbConfig where
  name := config.name
  dbname := config.dbname
  user := config.user
  password := config.password
  host := if config.host.isEmpty then [] else config.host
  port := if config.host.isEmpty then -1 else config.port
  sslca := if config.sslca.isEmpty then [] else config.sslca
  sslcert := if config.sslca.isEmpty then [] else config.sslcert
  charset := if config.charset.isEmpty then ascii "uft8" else config.charset
  connections := config.connections

/-- The decoder gives a config unless a timeout was encoded. -/
theorem fromNode_toNode (h : Faithful yaml int config) :
    fromNode int (config.toNode int) =
      if 0 < config.connectTimeout ∨ 0 < config.readTimeout ∨ 0 < config.writeTimeout then none
      else some config.decoded := by
  have hfield {i : Nat} {field : Bytes × Option Node} (hi : (config.fields int)[i]? = some field) :
      field ∈ config.fields int := List.mem_of_getElem? hi
  have hname := required_toNode Node.asString (hfield (i := 0) rfl)
  have hdbname := required_toNode Node.asString (hfield (i := 1) rfl)
  have huser := required_toNode Node.asString (hfield (i := 2) rfl)
  have hpassword := required_toNode Node.asString (hfield (i := 3) rfl)
  have hconnections := required_toNode int.decode (hfield (i := 4) rfl)
  have hconnect := decodeTimeout_toNode h (hfield (i := 10) rfl)
  have hread := decodeTimeout_toNode h (hfield (i := 11) rfl)
  have hwrite := decodeTimeout_toNode h (hfield (i := 12) rfl)
  rw [fromNode, hname, hdbname, huser, hpassword, hconnections, h.connections, decodeHost_toNode h,
    decodeSsl_toNode, decodeCharset_toNode, hconnect, hread, hwrite]
  simp only [Node.asString, Option.bind_eq_bind, Option.bind_some]
  -- the first timeout that was encoded throws
  by_cases hc : 0 < config.connectTimeout
  · simp [hc]
  by_cases hr : 0 < config.readTimeout
  · simp [hc, hr]
  by_cases hw : 0 < config.writeTimeout
  · simp [hc, hr, hw]
  simp only [hc, hr, hw, if_false, or_self, Option.bind_some]
  unfold DbConfig.decoded
  cases hhost : config.host.isEmpty <;> cases hsslca : config.sslca.isEmpty <;> rfl

theorem sameEncoded_decoded (hc : ¬ 0 < config.connectTimeout) (hr : ¬ 0 < config.readTimeout)
    (hw : ¬ 0 < config.writeTimeout) : SameEncoded config config.decoded where
  name := rfl
  dbname := rfl
  user := rfl
  password := rfl
  connections := rfl
  host h := by
    have hempty : config.host.isEmpty = false := List.isEmpty_eq_false_iff.mpr h
    simp [DbConfig.decoded, hempty]
  sslca h := by
    have hempty : config.sslca.isEmpty = false := List.isEmpty_eq_false_iff.mpr h
    simp [DbConfig.decoded, hempty]
  charset h := by
    have hempty : config.charset.isEmpty = false := List.isEmpty_eq_false_iff.mpr h
    simp [DbConfig.decoded, hempty]
  connectTimeout h := absurd h hc
  readTimeout h := absurd h hr
  writeTimeout h := absurd h hw

/-- **A config is decoded as it was encoded if and only if no timeout was encoded.** -/
theorem dbConfigRoundTrip_iff (h : Faithful yaml int config) :
    RoundTrip yaml int config ↔
      ¬ 0 < config.connectTimeout ∧ ¬ 0 < config.readTimeout ∧ ¬ 0 < config.writeTimeout := by
  have hdecode : decode yaml int (encode yaml int config) = fromNode int (config.toNode int) := by
    rw [decode, encode, h.loads]
    rfl
  rw [RoundTrip, hdecode, fromNode_toNode h, ← not_or, ← not_or]
  constructor
  · rintro ⟨config', hconfig, -⟩ htimeout
    rw [if_pos htimeout] at hconfig
    cases hconfig
  · intro htimeout
    rw [if_neg htimeout]
    rw [not_or, not_or] at htimeout
    exact ⟨_, rfl, sameEncoded_decoded htimeout.1 htimeout.2.1 htimeout.2.2⟩

end

/-! ## A config of one database -/

/-- The part of yaml-cpp that prints and parses block maps of plain scalars. -/
def blockMap : YamlCpp where
  emit
    | .map entries => [10].intercalate (entries.map fun
      | (key, .scalar text) => key ++ ascii ": " ++ text
      | (key, _) => key ++ ascii ": ~")
    | .scalar text => text
    | _ => ascii "~"
  load text := some (.map ((text.splitOn 10).map fun line =>
    (line.takeWhile (· != 58), .scalar ((line.dropWhile (· != 58)).drop 2))))
  isIndex key i := key == ascii (toString i)

/-- Decimal numbers. -/
def decimal : Convert Int32 where
  encode n := (if n < 0 then [45] else []) ++ printDecimal n.toInt.natAbs
  decode
    | .scalar (45 :: digits) => some (-Int32.ofNat (readDecimal digits))
    | .scalar digits => some (Int32.ofNat (readDecimal digits))
    | _ => none

def local3306 : DbConfig where
  name := ascii "orders"
  dbname := ascii "shop"
  user := ascii "nemo"
  password := ascii "secret"
  host := ascii "127.0.0.1"
  port := 3306

theorem faithful_local3306 (connectTimeout : Int32) (h : connectTimeout = -1 ∨ connectTimeout = 5) :
    Faithful blockMap decimal { local3306 with connectTimeout := connectTimeout } where
  loads := by rcases h with rfl | rfl <;> rfl
  connections := by rcases h with rfl | rfl <;> decide
  port := by rcases h with rfl | rfl <;> decide
  map _ := rfl

theorem dbConfigRoundTrip_iff_local3306 :
    RoundTrip blockMap decimal local3306 ↔
      ¬ 0 < local3306.connectTimeout ∧ ¬ 0 < local3306.readTimeout ∧ ¬ 0 < local3306.writeTimeout :=
  dbConfigRoundTrip_iff (faithful_local3306 (-1) (.inl rfl))

/-- Of a config with a connect timeout of 5 the whole document is converted to an integer. -/
theorem not_dbConfigRoundTrip :
    ¬ ∀ (yaml : YamlCpp) (int : Convert Int32) (config : DbConfig), Faithful yaml int config →
      config.connectTimeout = -1 ∨ 0 < config.connectTimeout →
      config.readTimeout = -1 ∨ 0 < config.readTimeout →
      config.writeTimeout = -1 ∨ 0 < config.writeTimeout → RoundTrip yaml int config := by
  intro h
  have hfaithful := faithful_local3306 5 (.inr rfl)
  obtain ⟨config', hconfig, -⟩ := h _ _ _ hfaithful (.inr (by decide)) (.inl rfl) (.inl rfl)
  have hnone := fromNode_toNode hfaithful
  rw [if_pos (.inl (by decide))] at hnone
  rw [decode, encode, hfaithful.loads, Option.bind_eq_bind, Option.bind_some, hnone] at hconfig
  cases hconfig

end Nemo.Db
