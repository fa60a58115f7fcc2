import Walkrie.Library.Table
import Walkrie.Sink.Configuration

/-!
# The application configuration

`load_config` reads a TOML document into an `AppConfig`, whose `validate()`
reports what is wrong with it.  A key that is missing, or whose value has
another type, leaves the default in place.  What the file system says about a
path, and what each sink reports about its own block, is given.
-/

namespace Walkrie
namespace Config

open Sink (check)

/-! ## TOML -/

/-- The types of value the configuration asks for. -/
inductive TomlValue
  | text (value : String)
  | integer (value : Int64)
  | boolean (value : Bool)
  | other

abbrev TomlTable := Table String TomlValue

/-- The helper `str` of `load_config`. -/
def str (table : TomlTable) (key : String) (default : String) : String :=
  match table.lookup key with
  | some (.text value) => value
  | _ => default

/-- The helper `i32` of `load_config`, with its narrowing cast. -/
def i32 (table : TomlTable) (key : String) (default : Int32) : Int32 :=
  match table.lookup key with
  | some (.integer value) => value.toInt32
  | _ => default

/-- The helper `bl` of `load_config`. -/
def bl (table : TomlTable) (key : String) (default : Bool) : Bool :=
  match table.lookup key with
  | some (.boolean value) => value
  | _ => default

/-! ## The parts of the configuration -/

structure AppSettings where
  logLevel : String := "info"
  logFile : String := "/var/log/walkrie/walkrie.log"
  logMaxSizeMb : Int32 := 10
  logMaxFiles : Int32 := 5
  batchSize : UInt64 := 1
  batchTimeoutMs : Int32 := 50
  backfillDir : String := "/var/lib/walkrie/backfill"

structure TlsConfig where
  sslmode : String := ""
  sslrootcert : String := ""
  sslcert : String := ""
  sslkey : String := ""
  sslpassword : String := ""

structure SourceConfig where
  host : String := "localhost"
  port : String := "5432"
  dbname : String := ""
  user : String := ""
  password : String := ""
  slotName : String := "pgcdc_slot"
  publication : String := "pgcdc_pub"
  backfill : Bool := false
  tls : TlsConfig := {}

structure EmbeddingConfig where
  provider : String := "llama"
  model : String := ""
  modelPath : String := ""
  apiKey : String := ""
  loraPath : String := ""
  dimensions : Int32 := 1024
  nThreads : Int32 := 4
  nCtx : Int32 := 512
  maxBatchSize : Int32 := 1
  nGpuLayers : Int32 := 0
  validate : String := "none"

/-- The configuration.  A sink is what its own `validate()` reports, or `none`
for a null pointer. -/
structure AppConfig where
  settings : AppSettings := {}
  sources : List SourceConfig := []
  sinks : List (Option (List String)) := []
  embedding : EmbeddingConfig := {}

/-- A parsed document.  An element of the source array that is no table is
`none`. -/
structure Document where
  app : Option TomlTable := none
  source : List (Option TomlTable) := []
  sinks : List (Option (List String)) := []
  embedding : Option TomlTable := none

/-! ## Loading -/

/-- The block of `load_config` for `[app]`.  The size of a batch is converted
to `int` and back around the helper. -/
def loadSettings (settings : AppSettings) (app : TomlTable) : AppSettings :=
  { logLevel := str app "log_level" settings.logLevel
    logFile := str app "log_file" settings.logFile
    logMaxSizeMb := i32 app "log_max_size_mb" settings.logMaxSizeMb
    logMaxFiles := i32 app "log_max_files" settings.logMaxFiles
    batchSize :=
      (i32 app "batch_size" settings.batchSize.toInt64.toInt32).toInt64.toUInt64
    batchTimeoutMs := i32 app "batch_timeout_ms" settings.batchTimeoutMs
    backfillDir := str app "backfill_dir" settings.backfillDir }

/-- `TlsConfig::load_from_toml`. -/
def loadTls (tls : TlsConfig) (table : TomlTable) : TlsConfig :=
  { sslmode := str table "sslmode" tls.sslmode
    sslrootcert := str table "sslrootcert" tls.sslrootcert
    sslcert := str table "sslcert" tls.sslcert
    sslkey := str table "sslkey" tls.sslkey
    sslpassword := str table "sslpassword" tls.sslpassword }

/-- The loop of `load_config` over the sources. -/
def loadSource (source : SourceConfig) (table : TomlTable) : SourceConfig :=
  { host := str table "host" source.host
    port := str table "port" source.port
    dbname := str table "dbname" source.dbname
    user := str table "user" source.user
    password := str table "password" source.password
    slotName := str table "slot_name" source.slotName
    publication := str table "publication" source.publication
    backfill := bl table "backfill" source.backfill
    tls := loadTls source.tls table }

/-- The block of `load_config` for `[embedding]`. -/
def loadEmbedding (embedding : EmbeddingConfig) (table : TomlTable) :
    EmbeddingConfig :=
  { embedding with
    provider := str table "provider" embedding.provider
    model := str table "model" embedding.model
    modelPath := str table "model_path" embedding.modelPath
    apiKey := str table "api_key" embedding.apiKey
    loraPath := str table "lora_path" embedding.loraPath
    dimensions := i32 table "dimensions" embedding.dimensions
    nThreads := i32 table "n_threads" embedding.nThreads
    nCtx := i32 table "n_ctx" embedding.nCtx
    nGpuLayers := i32 table "n_gpu_layers" embedding.nGpuLayers
    validate := str table "validate" embedding.validate }

/-- `load_config` of a document that parses.  The size of a batch ends up in
the embedding configuration as an `int` again. -/
def loadConfig (document : Document) : AppConfig :=
  let settings := (document.app.map (loadSettings {})).getD {}
  let embedding := (document.embedding.map (loadEmbedding {})).getD {}
  { settings
    sources := document.source.map fun table =>
      (table.map (loadSource {})).getD {}
    sinks := document.sinks
    embedding :=
      { embedding with maxBatchSize := settings.batchSize.toInt64.toInt32 } }

/-! ## Validating -/

/-- What the reader finds in the header of a model file. -/
structure ModelMetadata where
  parsed : Bool
  embeddingDimensions : Option Int64

/-- What the file system says about a path. -/
inductive FileState
  | missing
  | irregular
  | unreadable
  | regular (size : Nat) (metadata : ModelMetadata)

abbrev FileSystem := String → FileState

/-- The helper `check_file` of `TlsConfig::validate`. -/
def checkFile (files : FileSystem) (context path field : String) :
    List String :=
  if path = "" then []
  else
    match files path with
    | .missing =>
        [context ++ " " ++ field ++ " does not exist: '" ++ path ++ "'"]
    | .irregular =>
        [context ++ " " ++ field ++ " exists but is not a regular file: '" ++
          path ++ "'"]
    | .unreadable =>
        [context ++ " " ++ field ++
          " exists but is not readable by the current user: '" ++ path ++ "'"]
    | .regular _ _ => []

/-- `TlsConfig::validate`. -/
def TlsConfig.validate (files : FileSystem) (tls : TlsConfig)
    (context : String) : List String :=
  check (tls.sslmode ≠ "" && tls.sslmode ∉ ["disable", "allow", "prefer",
      "require", "verify-ca", "verify-full"])
      (context ++ " sslmode must be one of: disable, allow, prefer, " ++
        "require, verify-ca, verify-full") ++
    check ((tls.sslcert == "") != (tls.sslkey == ""))
      (context ++ " sslcert and sslkey must both be set together for client " ++
        "certificate authentication (or both left empty)") ++
    checkFile files context tls.sslrootcert "sslrootcert" ++
    checkFile files context tls.sslcert "sslcert" ++
    checkFile files context tls.sslkey "sslkey"

/-- The checks of one source. -/
def validateSource (files : FileSystem) (source : SourceConfig)
    (position : Nat) : List String :=
  let context := "[source][" ++ toString position ++ "]"
  check (source.dbname = "") (context ++ " dbname is required") ++
    check (source.user = "") (context ++ " user is required") ++
    source.tls.validate files context

/-- The comparison of the model with the configuration, whose message is an
error only if validation is forced. -/
def validateModel (embedding : EmbeddingConfig) (metadata : ModelMetadata) :
    List String :=
  let message :=
    if metadata.parsed = false then
      "[embedding] model_path is not a valid GGUF file: '" ++
        embedding.modelPath ++ "' — check it's the right file and " ++
        "wasn't corrupted or truncated during download"
    else
      match metadata.embeddingDimensions with
      | none => ""
      | some declared =>
          if declared ≠ embedding.dimensions.toInt64 then
            "[embedding] dimensions (" ++ toString embedding.dimensions ++
              ") does not match the embedding size declared by the model " ++
              "at '" ++ embedding.modelPath ++ "' (" ++ toString declared ++
              ") — set [embedding] dimensions to match the model"
          else ""
  check (message ≠ "" && embedding.validate == "force") message

/-- The checks of `model_path`. -/
def validateModelPath (files : FileSystem) (embedding : EmbeddingConfig) :
    List String :=
  let path := embedding.modelPath
  if path = "" then
    ["[embedding] model_path is required when provider = 'llama'"]
  else
    match files path with
    | .missing =>
        ["[embedding] model_path does not exist: '" ++ path ++
          "' — place a GGUF model file at this path before starting walkrie " ++
          "(see README.md for download instructions)"]
    | .irregular =>
        ["[embedding] model_path exists but is not a regular file: '" ++ path ++
          "'"]
    | .unreadable =>
        ["[embedding] model_path exists but is not readable by the current " ++
          "user: '" ++ path ++ "' — check file ownership/permissions (the " ++
          "walkrie service runs as the 'walkrie' system user)"]
    | .regular size metadata =>
        if size = 0 then
          ["[embedding] model_path points to an empty (0-byte) file: '" ++
            path ++ "' — the download may have failed or been interrupted"]
        else if embedding.validate ≠ "none" then
          validateModel embedding metadata
        else []

/-- The checks of `lora_path`. -/
def validateLoraPath (files : FileSystem) (embedding : EmbeddingConfig) :
    List String :=
  let path := embedding.loraPath
  if path = "" then []
  else
    match files path with
    | .missing =>
        ["[embedding] lora_path does not exist: '" ++ path ++
          "' — place the LoRA adapter GGUF at this path or remove lora_path " ++
          "to run without an adapter"]
    | .irregular =>
        ["[embedding] lora_path exists but is not a regular file: '" ++ path ++
          "'"]
    | .unreadable =>
        ["[embedding] lora_path exists but is not readable by the current " ++
          "user: '" ++ path ++ "' — check file ownership/permissions (the " ++
          "walkrie service runs as the 'walkrie' system user)"]
    | .regular size _ =>
        check (size = 0)
          ("[embedding] lora_path points to an empty (0-byte) file: '" ++
            path ++ "' — the download may have failed or been interrupted")

/-- The checks of the embedding configuration. -/
def validateEmbedding (files : FileSystem) (embedding : EmbeddingConfig) :
    List String :=
  check (embedding.provider ≠ "llama" && embedding.provider ≠ "openai")
      "[embedding] provider must be 'llama' or 'openai'" ++
    check (embedding.validate ∉ ["none", "warn", "force"])
      "[embedding] validate must be one of: none, warn, force" ++
    (if embedding.provider = "llama" then
      validateModelPath files embedding ++ validateLoraPath files embedding ++
        check (embedding.dimensions ≤ 0)
          "[embedding] dimensions must be > 0"
    else []) ++
    (if embedding.provider = "openai" then
      check (embedding.apiKey = "")
          "[embedding] api_key is required when provider = 'openai'" ++
        check (embedding.model = "")
          "[embedding] model is required when provider = 'openai'" ++
        check (embedding.model = "text-embedding-3-small" &&
            embedding.dimensions > 1536)
          ("[embedding] dimensions must be <= 1536 for " ++
            "text-embedding-3-small") ++
        check (embedding.model = "text-embedding-3-large" &&
            embedding.dimensions > 3072)
          ("[embedding] dimensions must be <= 3072 for " ++
            "text-embedding-3-large") ++
        check (embedding.model = "text-embedding-ada-002" &&
            embedding.dimensions ≠ 1536)
          ("[embedding] text-embedding-ada-002 does not support dimension " ++
            "truncation — dimensions must be exactly 1536")
    else [])

def batchSizeError : String := "[app] batch_size must be >= 1"

/-- `AppConfig::validate`. -/
def AppConfig.validate (files : FileSystem) (config : AppConfig) :
    List String :=
  check (config.settings.logLevel ∉
      ["trace", "debug", "info", "warn", "error", "critical"])
      ("[app] log_level must be one of: trace, debug, info, warn, error, " ++
        "critical") ++
    check (config.settings.batchSize < 1) batchSizeError ++
    check (config.settings.batchTimeoutMs ≤ 0)
      "[app] batch_timeout_ms must be > 0" ++
    check config.sources.isEmpty
      "[source] at least one [[source]] block is required" ++
    config.sources.zipIdx.flatMap (fun entry =>
      validateSource files entry.1 entry.2) ++
    validateEmbedding files config.embedding ++
    config.sinks.flatMap fun sink =>
      sink.getD ["[sink] a valid sink type is required"]

end Config
end Walkrie
