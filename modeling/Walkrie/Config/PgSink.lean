import Walkrie.Config.App

/-!
# The configuration of the pgvector sink

`load_from_config` reads a `[[sink]]` table, whose `table_mapping` key nests
arrays of tables.  An element of the wrong type reads like an empty table, and
the checks on what remains drop it.
-/

namespace Walkrie
namespace Config

open Sink (check MappingBlock loadMappings validateMapping validateMappings)

/-! ## Nested TOML -/

/-- A value of a TOML document. -/
inductive Toml
  | scalar (value : TomlValue)
  | array (elements : List Toml)
  | table (entries : List (String × Toml))

namespace Toml

/-- The value as the typed getters see it. -/
def value : Toml → TomlValue
  | .scalar value => value
  | .array _ | .table _ => .other

/-- A table without what it nests. -/
def scalars (entries : List (String × Toml)) : TomlTable :=
  (entries.map fun entry =>
    (⟨entry.1, entry.2.value⟩ : Sigma fun _ : String => TomlValue)).toAList

/-- The helper `str_or`. -/
def strOr (entries : List (String × Toml)) (key default : String) : String :=
  str (scalars entries) key default

/-- The elements of an array; nothing for a key that holds no array. -/
def elements (entries : List (String × Toml)) (key : String) : List Toml :=
  match entries.lookup key with
  | some (.array elements) => elements
  | _ => []

/-- One element of `columns`. -/
def columnMapping : Toml → ColumnMapping
  | .table entries =>
      { sourceColumn := strOr entries "source_column" ""
        sinkColumn := strOr entries "sink_column" ""
        role := strOr entries "role" "" }
  | .scalar _ | .array _ => { sourceColumn := "", sinkColumn := "", role := "" }

/-- One element of `table_mapping`. -/
def mappingBlock : Toml → MappingBlock
  | .table entries =>
      { sourceTable := strOr entries "source_table" ""
        discriminatorColumn := strOr entries "discriminator_column" ""
        discriminatorLabel := strOr entries "discriminator_label" ""
        columns := (elements entries "columns").map columnMapping }
  | .scalar _ | .array _ => {}

end Toml

/-! ## The configuration -/

structure PgSinkConfiguration where
  host : String := "localhost"
  port : String := "5432"
  dbname : String := ""
  user : String := ""
  password : String := ""
  table : String := ""
  embeddingColumn : String := ""
  tableMappings : List TableMapping := []
  tls : TlsConfig := {}

/-- A file system without files. -/
def noFiles : FileSystem :=
  fun _ => .missing

namespace PgSinkConfiguration

/-- `PgSinkConfiguration::load_from_config`. -/
def loadFromConfig (config : PgSinkConfiguration)
    (entries : List (String × Toml)) : PgSinkConfiguration :=
  { host := Toml.strOr entries "host" config.host
    port := Toml.strOr entries "port" config.port
    dbname := Toml.strOr entries "dbname" config.dbname
    user := Toml.strOr entries "user" config.user
    password := Toml.strOr entries "password" config.password
    table := Toml.strOr entries "table" config.table
    embeddingColumn :=
      Toml.strOr entries "embed_column" config.embeddingColumn
    tableMappings := config.tableMappings ++
      loadMappings ((Toml.elements entries "table_mapping").map
        Toml.mappingBlock)
    tls := loadTls config.tls (Toml.scalars entries) }

/-- `PgSinkConfiguration::validate`. -/
def validate (files : FileSystem) (config : PgSinkConfiguration) :
    List String :=
  check (config.dbname = "") "[sink] dbname is required" ++
    check (config.user = "") "[sink] user is required" ++
    check (config.table = "") "[sink] table is required" ++
    check (config.embeddingColumn = "")
      "[sink] embedding column is required" ++
    check config.tableMappings.isEmpty
      "[sink] at least one [[sink.table_mapping]] block is required" ++
    config.tls.validate files "[sink]" ++
    config.tableMappings.flatMap validateMapping

/-- What `validate()` asks of a configuration. -/
structure Valid (files : FileSystem) (config : PgSinkConfiguration) :
    Prop where
  dbname : config.dbname ≠ ""
  user : config.user ≠ ""
  table : config.table ≠ ""
  embeddingColumn : config.embeddingColumn ≠ ""
  tls : config.tls.validate files "[sink]" = []
  mappings : validateMappings config.tableMappings = []

theorem validate_eq_nil_iff
    {files : FileSystem}
    {config : PgSinkConfiguration} :
    config.validate files = [] ↔ config.Valid files := by
  unfold validate
  simp only [List.append_eq_nil_iff, Sink.check_eq_nil_iff,
    decide_eq_false_iff_not]
  constructor
  · rintro ⟨⟨⟨⟨⟨⟨dbname, user⟩, table⟩, column⟩, present⟩, tls⟩, each⟩
    refine ⟨dbname, user, table, column, tls, ?_⟩
    rw [validateMappings, List.append_eq_nil_iff, Sink.check_eq_nil_iff]
    exact ⟨present, each⟩
  · rintro ⟨dbname, user, table, column, tls, mappings⟩
    rw [validateMappings, List.append_eq_nil_iff,
      Sink.check_eq_nil_iff] at mappings
    exact ⟨⟨⟨⟨⟨⟨dbname, user⟩, table⟩, column⟩, mappings.1⟩, tls⟩, mappings.2⟩

end PgSinkConfiguration

end Config
end Walkrie
