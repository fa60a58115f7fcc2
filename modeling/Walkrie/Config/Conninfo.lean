import Walkrie.Library.Quoting
import Walkrie.Config.PgSink

/-!
# The connection strings of sources and sinks

Source and sink build the text for `PQconnectdb` each in its own way, from free
text that they write down without quotes.  Values that need no quoting come out
as configured.  The sink writes the password even when it is empty, and then
reads the setting that follows as the password.
-/

namespace Walkrie
namespace Config

open Conninfo

/-! ## The two builders -/

/-- A setting that is left out when it is empty. -/
def optional (keyword value : String) : String :=
  if value ≠ "" then " " ++ keyword ++ "=" ++ value else ""

/-- `TlsConfig::to_conninfo_fragment`. -/
def TlsConfig.toConninfoFragment (tls : TlsConfig) : String :=
  optional "sslmode" tls.sslmode ++
    optional "sslrootcert" tls.sslrootcert ++
    optional "sslcert" tls.sslcert ++
    optional "sslkey" tls.sslkey ++
    optional "sslpassword" tls.sslpassword

/-- `PgReplicationConfig::to_conninfo`. -/
def SourceConfig.toConninfo (source : SourceConfig) : String :=
  "host=" ++ source.host ++
    " port=" ++ source.port ++
    " dbname=" ++ source.dbname ++
    " user=" ++ source.user ++
    optional "password" source.password ++
    source.tls.toConninfoFragment ++
    " replication=database"

/-- The connection string of `PgSinkConfiguration::create_sink`. -/
def PgSinkConfiguration.conninfo (config : PgSinkConfiguration) : String :=
  "host=" ++ config.host ++
    " port=" ++ config.port ++
    " dbname=" ++ config.dbname ++
    " user=" ++ config.user ++
    " password=" ++ config.password ++
    config.tls.toConninfoFragment

/-! ## What the configuration asks for -/

/-- The settings of a `TlsConfig`; an empty one is not set. -/
def TlsConfig.settings (tls : TlsConfig) : List Setting :=
  [("sslmode", tls.sslmode), ("sslrootcert", tls.sslrootcert),
    ("sslcert", tls.sslcert), ("sslkey", tls.sslkey),
    ("sslpassword", tls.sslpassword)]

/-- No TLS setting has a value. -/
def TlsConfig.Bare (tls : TlsConfig) : Prop :=
  ∀ setting ∈ tls.settings, setting.2 = ""

instance (tls : TlsConfig) : Decidable tls.Bare :=
  inferInstanceAs (Decidable (∀ setting ∈ tls.settings, _))

def SourceConfig.settings (source : SourceConfig) : List Setting :=
  [("host", source.host), ("port", source.port), ("dbname", source.dbname),
    ("user", source.user), ("password", source.password)] ++
    source.tls.settings ++ [("replication", "database")]

def PgSinkConfiguration.settings (config : PgSinkConfiguration) :
    List Setting :=
  [("host", config.host), ("port", config.port), ("dbname", config.dbname),
    ("user", config.user), ("password", config.password)] ++
    config.tls.settings

/-- A connection string that is read as the settings: each keyword has its
value, where an empty value may be missing, and there is no other keyword. -/
def Yields (text : String) (settings : List Setting) : Prop :=
  ∃ parsed, parse text = some parsed ∧
    (∀ setting ∈ settings,
      (value? parsed setting.1).getD "" = setting.2) ∧
    ∀ setting ∈ parsed, setting.1 ∈ settings.map Prod.fst

/-! ## The settings that are written -/

/-- What a builder writes: the settings it always writes, and the others as
far as they have a value. -/
def written (always : List String) (settings : List Setting) : List Setting :=
  settings.filter fun setting => setting.1 ∈ always ∨ setting.2 ≠ ""

section Written

variable {always : List String}
variable {settings : List Setting}

theorem render_written_cons
    (setting : Setting) :
    render (written always (setting :: settings)) =
      (if setting.1 ∈ always then write setting
        else optional setting.1 setting.2) ++
        render (written always settings) := by
  by_cases named : setting.1 ∈ always
  · simp [written, named]
  · by_cases empty : setting.2 = ""
    · simp [written, named, empty, optional]
    · simp [written, named, empty, optional, write]

theorem written_sublist : (written always settings).Sublist settings :=
  List.filter_sublist

theorem written_append
    (others : List Setting) :
    written always (settings ++ others) =
      written always settings ++ written always others :=
  List.filter_append settings others

/-- All that is written has a value if what is always written has. -/
theorem forall_mem_written_iff :
    (∀ setting ∈ written always settings, setting.2 ≠ "") ↔
      ∀ setting ∈ settings, setting.1 ∈ always → setting.2 ≠ "" := by
  simp only [written, List.mem_filter, decide_eq_true_eq, and_imp]
  exact forall₂_congr fun setting _ =>
    ⟨fun each named => each (.inl named), fun each => Or.rec each id⟩

/-- Values that need no quotes. -/
def Unquoted (settings : List Setting) : Prop :=
  ∀ setting ∈ settings, Plain setting.2

instance (settings : List Setting) : Decidable (Unquoted settings) :=
  inferInstanceAs (Decidable (∀ setting ∈ settings, _))

/-- What is not written has no value, and so needs no quotes. -/
theorem unquoted_written_iff :
    Unquoted (written always settings) ↔ Unquoted settings := by
  constructor
  · intro unquoted setting member
    by_cases present : setting ∈ written always settings
    · exact unquoted setting present
    · have empty : setting.2 = "" := by
        by_contra given
        exact present (List.mem_filter.mpr
          ⟨member, decide_eq_true (.inr given)⟩)
      rw [empty]
      decide
  · exact fun unquoted setting member =>
      unquoted setting (written_sublist.subset member)

/-- Settings that need no quotes, with values for all but the last that is
written, are read as they are. -/
theorem yields_of_writable
    {text : String}
    (distinct : (settings.map Prod.fst).Nodup)
    (rendered : " " ++ text = render (written always settings))
    (writable : Writable (written always settings))
    (filled : Filled (written always settings)) :
    Yields text settings := by
  have parsed : parse text = some (written always settings) := by
    rw [← parse_blank, rendered, parse_render writable filled]
  have keywords : ((written always settings).map Prod.fst).Nodup :=
    distinct.sublist (written_sublist.map Prod.fst)
  refine ⟨_, parsed, fun setting member => ?_, fun setting member =>
    List.mem_map_of_mem (written_sublist.subset member)⟩
  by_cases present : setting ∈ written always settings
  · rw [value?, (Assoc.last_eq_some_iff keywords).mpr present,
      Option.getD_some]
  · have empty : setting.2 = "" := by
      by_contra given
      exact present (List.mem_filter.mpr
        ⟨member, decide_eq_true (.inr given)⟩)
    have unset : value? (written always settings) setting.1 = none := by
      refine Assoc.last_eq_none_iff.mpr fun named => ?_
      obtain ⟨other, otherMember, same⟩ := List.mem_map.mp named
      have equal := List.inj_on_of_nodup_map distinct
        (written_sublist.subset otherMember) member same
      exact present (equal ▸ otherMember)
    rw [unset, empty, Option.getD_none]

/-- Settings are read as they are exactly when they need no quotes and nothing
but the last one that is written is empty. -/
theorem yields_iff
    {text : String}
    {optional : List String}
    (keywords : ∀ setting ∈ settings, Keyword setting.1)
    (distinct : (settings.map Prod.fst).Nodup)
    (marked : Marked optional (settings.map Prod.fst))
    (empties : ∀ setting ∈ written always settings, setting.2 = "" →
      setting.1 ∈ optional)
    (rendered : " " ++ text = render (written always settings)) :
    Yields text settings ↔
      Unquoted settings ∧ Filled (written always settings) := by
  have named : ((written always settings).map Prod.fst).Sublist
      (settings.map Prod.fst) :=
    written_sublist.map Prod.fst
  have writtenKeywords : ∀ setting ∈ written always settings,
      Keyword setting.1 := fun setting member =>
    keywords setting (written_sublist.subset member)
  constructor
  · rintro ⟨parsed, executed, values, _⟩
    rw [← parse_blank, rendered] at executed
    rw [← unquoted_written_iff]
    exact writable_of_read writtenKeywords (marked.sublist named)
      (distinct.sublist named) empties executed fun setting member =>
        values setting (written_sublist.subset member)
  · rintro ⟨unquoted, filled⟩
    exact yields_of_writable distinct rendered
      ⟨writtenKeywords, unquoted_written_iff.mpr unquoted⟩ filled

end Written

/-! ## The two builders write their settings -/

/-- What `to_conninfo` always writes. -/
def SourceConfig.always : List String :=
  ["host", "port", "dbname", "user", "replication"]

/-- What `create_sink` always writes. -/
def PgSinkConfiguration.always : List String :=
  ["host", "port", "dbname", "user", "password"]

theorem SourceConfig.blank_toConninfo (source : SourceConfig) :
    " " ++ source.toConninfo =
      render (written SourceConfig.always source.settings) := by
  rw [← String.toList_inj]
  delta SourceConfig.toConninfo
  simp only [settings, TlsConfig.settings, always, TlsConfig.toConninfoFragment,
    List.cons_append, List.nil_append, render_written_cons,
    String.toList_append]
  simp [written]

theorem PgSinkConfiguration.blank_conninfo (config : PgSinkConfiguration) :
    " " ++ config.conninfo =
      render (written PgSinkConfiguration.always config.settings) := by
  rw [← String.toList_inj]
  delta PgSinkConfiguration.conninfo
  simp only [settings, TlsConfig.settings, always, TlsConfig.toConninfoFragment,
    List.cons_append, List.nil_append, render_written_cons,
    String.toList_append]
  simp [written]

/-- The keywords of the two builders. -/
def keywords : List String :=
  ["host", "port", "dbname", "user", "password", "sslmode", "sslrootcert",
    "sslcert", "sslkey", "sslpassword", "replication"]

theorem keyword_of_mem : ∀ keyword ∈ keywords, Keyword keyword := by
  decide

theorem nodup_keywords : keywords.Nodup := by
  decide

/-- No keyword of the source can be spelled with those after it that may be
without a value. -/
theorem SourceConfig.marked_keywords :
    Marked ["host", "port"] keywords := by
  refine ⟨⟨'h', ?_⟩, ⟨'t', ?_⟩, ⟨'b', ?_⟩, ⟨'u', ?_⟩, ⟨'w', ?_⟩, ⟨'l', ?_⟩,
    ⟨'l', ?_⟩, ⟨'l', ?_⟩, ⟨'l', ?_⟩, ⟨'l', ?_⟩, ⟨'l', ?_⟩, trivial⟩ <;> decide

/-- The same for the sink, which also writes an empty password. -/
theorem PgSinkConfiguration.marked_keywords :
    Marked ["host", "port", "password"] keywords := by
  refine ⟨⟨'h', ?_⟩, ⟨'t', ?_⟩, ⟨'b', ?_⟩, ⟨'u', ?_⟩, ⟨'w', ?_⟩, ⟨'l', ?_⟩,
    ⟨'l', ?_⟩, ⟨'l', ?_⟩, ⟨'l', ?_⟩, ⟨'l', ?_⟩, ⟨'l', ?_⟩, trivial⟩ <;> decide

namespace SourceConfig

variable {source : SourceConfig}

/-- Nothing but the host and the port can be empty: `replication` comes last
and has a value. -/
theorem filled_written_iff
    (dbname : source.dbname ≠ "")
    (user : source.user ≠ "") :
    Filled (written always source.settings) ↔
      source.host ≠ "" ∧ source.port ≠ "" := by
  have last : written always [("replication", "database")] =
      [("replication", "database")] := rfl
  rw [settings, written_append, last, filled_append_iff (by simp),
    forall_mem_written_iff]
  simp [TlsConfig.settings, always, Filled, dbname, user]

theorem yields_toConninfo_iff
    {files : FileSystem}
    {position : Nat}
    (accepted : validateSource files source position = []) :
    Yields source.toConninfo source.settings ↔
      Unquoted source.settings ∧ source.host ≠ "" ∧ source.port ≠ "" := by
  have named : source.settings.map Prod.fst = keywords := rfl
  unfold validateSource at accepted
  simp only [List.append_eq_nil_iff, Sink.check_eq_nil_iff,
    decide_eq_false_iff_not] at accepted
  obtain ⟨⟨dbname, user⟩, _⟩ := accepted
  have empties : ∀ setting ∈ written always source.settings,
      setting.2 = "" → setting.1 ∈ ["host", "port"] := by
    simp [written, settings, TlsConfig.settings, always, dbname, user]
  rw [yields_iff (fun setting member => keyword_of_mem _
      (named ▸ List.mem_map_of_mem member)) (named ▸ nodup_keywords)
    (named ▸ marked_keywords) empties source.blank_toConninfo,
    filled_written_iff dbname user]

end SourceConfig

namespace PgSinkConfiguration

variable {config : PgSinkConfiguration}

/-- The password comes last if there are no TLS settings, and then it can be
empty. -/
theorem filled_written_iff
    (dbname : config.dbname ≠ "")
    (user : config.user ≠ "") :
    Filled (written always config.settings) ↔
      config.host ≠ "" ∧ config.port ≠ "" ∧
        (config.password = "" → config.tls.Bare) := by
  have optional : ∀ setting ∈ config.tls.settings, setting.1 ∉ always := by
    simp [TlsConfig.settings, always]
  by_cases bare : config.tls.Bare
  · have dropped : written always config.tls.settings = [] :=
      List.filter_eq_nil_iff.mpr fun setting member => by
        simp [optional setting member, bare setting member]
    rw [settings, written_append, dropped, List.append_nil]
    simp [written, always, Filled, dbname, user, bare]
  · have kept : written always config.tls.settings ≠ [] := by
      intro dropped
      refine bare fun setting member => ?_
      simpa [optional setting member] using
        List.filter_eq_nil_iff.mp dropped setting member
    have filled : Filled (written always config.tls.settings) :=
      fun setting member => forall_mem_written_iff.mpr
        (fun setting member named => absurd named (optional setting member))
        setting (List.mem_of_mem_dropLast member)
    rw [settings, written_append, filled_append_iff kept,
      forall_mem_written_iff]
    simp only [filled, and_true, bare, imp_false]
    simp [always, dbname, user]

theorem yields_conninfo_iff
    {files : FileSystem}
    (accepted : config.validate files = []) :
    Yields config.conninfo config.settings ↔
      Unquoted config.settings ∧ config.host ≠ "" ∧ config.port ≠ "" ∧
        (config.password = "" → config.tls.Bare) := by
  have named : (config.settings.map Prod.fst).Sublist keywords :=
    List.dropLast_sublist keywords
  have valid := validate_eq_nil_iff.mp accepted
  have empties : ∀ setting ∈ written always config.settings,
      setting.2 = "" → setting.1 ∈ ["host", "port", "password"] := by
    simp [written, settings, TlsConfig.settings, always, valid.dbname,
      valid.user]
  rw [yields_iff (fun setting member => keyword_of_mem _
      (named.subset (List.mem_map_of_mem member)))
    (nodup_keywords.sublist named)
    (marked_keywords.sublist named) empties config.blank_conninfo,
    filled_written_iff valid.dbname valid.user]

end PgSinkConfiguration

/-! ## What the strings say -/

/-- The string of an accepted source, and that of an accepted sink, say what
the configuration says exactly when no value needs quotes, host and port are
not empty and, for a sink, no TLS setting follows an empty password. -/
theorem conninfo_yields_iff
    (files : FileSystem) :
    (∀ (source : SourceConfig) (position : Nat),
      validateSource files source position = [] →
        (Yields source.toConninfo source.settings ↔
          Unquoted source.settings ∧ source.host ≠ "" ∧
            source.port ≠ "")) ∧
    ∀ config : PgSinkConfiguration,
      config.validate files = [] →
        (Yields config.conninfo config.settings ↔
          Unquoted config.settings ∧ config.host ≠ "" ∧ config.port ≠ "" ∧
            (config.password = "" → config.tls.Bare)) :=
  ⟨fun _ _ accepted => SourceConfig.yields_toConninfo_iff accepted,
    fun _ accepted => PgSinkConfiguration.yields_conninfo_iff accepted⟩

/-- A source that asks for encryption. -/
def encryptedSource (password : String) : SourceConfig where
  dbname := "app"
  user := "walkrie"
  password := password
  tls := { sslmode := "require" }

/-- A sink that asks for encryption. -/
def encryptedSink (password : String) : PgSinkConfiguration where
  dbname := "vectors"
  user := "walkrie"
  password := password
  table := "documents"
  embeddingColumn := "embedding"
  tableMappings :=
    [{ sourceTable := "articles"
       columns := []
       idSource := "id"
       idSink := "id"
       embedSource := "body"
       embedSink := "content" }]
  tls := { sslmode := "require" }

/-- With a password of letters both strings say what was configured. -/
theorem conninfo_yields_encrypted :
    Yields (encryptedSource "secret").toConninfo
        (encryptedSource "secret").settings ∧
      Yields (encryptedSink "secret").conninfo
        (encryptedSink "secret").settings := by
  obtain ⟨sources, sinks⟩ := conninfo_yields_iff noFiles
  have source := sources (encryptedSource "secret") 0 rfl
  have sink := sinks (encryptedSink "secret") rfl
  exact ⟨source.mpr (by decide), sink.mpr (by decide)⟩

/-- Without a password the sink asks for no encryption, and authenticates with
the setting that should have asked for it.  A password with a blank makes the
source's string unreadable. -/
theorem conninfo_misread :
    ((encryptedSink "").validate noFiles = [] ∧
      parse (encryptedSink "").conninfo =
        some [("host", "localhost"), ("port", "5432"),
          ("dbname", "vectors"), ("user", "walkrie"),
          ("password", "sslmode=require")] ∧
      ¬Yields (encryptedSink "").conninfo (encryptedSink "").settings) ∧
    (validateSource noFiles (encryptedSource "se cret") 0 = [] ∧
      ¬Yields (encryptedSource "se cret").toConninfo
        (encryptedSource "se cret").settings) := by
  have sink : parse (encryptedSink "").conninfo =
      some [("host", "localhost"), ("port", "5432"), ("dbname", "vectors"),
        ("user", "walkrie"), ("password", "sslmode=require")] := by
    decide +kernel
  have source : parse (encryptedSource "se cret").toConninfo = none := by
    decide +kernel
  refine ⟨⟨rfl, sink, ?_⟩, rfl, ?_⟩
  · rintro ⟨parsed, read, values, _⟩
    obtain rfl := Option.some.inj (sink.symm.trans read)
    exact absurd (values ("password", "") (by decide)) (by decide)
  · rintro ⟨parsed, read, _⟩
    rw [source] at read
    cases read

end Config
end Walkrie
