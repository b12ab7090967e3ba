import AccessRules.Schema
import AccessRules.Setting.Environment
import AccessRules.Setting.Fields
import AccessRules.Value.Spelled
import AccessRules.Yaml

/-! The configuration: how to reach the database, and the entity types with their relations and
defaults. Environment variables stand over what a file says. -/
namespace AccessRules

structure Database where
  uri : String
  name : String
  appName : Option String
  /-- How many milliseconds to wait for a server. -/
  timeout : UInt64
  deriving DecidableEq, Repr

def Database.default : Database :=
  ⟨"mongodb://localhost:27017", "docscope", some "docscope", 3000⟩

structure EntitySettings where
  /-- The collection of the entities, if it is not named after the type. -/
  collection : Option String
  relations : KeyMap Relation
  defaults : List (String × Json)
  deriving Repr

structure Configuration where
  database : Database
  entities : KeyMap EntitySettings
  deriving Repr

def Relation.ofSetting (v : Setting) : Load Relation := do
  let fields : Setting.Fields (Option RelationKind × Option String × Option String) := [
    ("kind", fun parts v => do pure (some (← v.toChoice RelationKind.ofName?), parts.2)),
    ("target_type", fun parts v => do pure (parts.1, ← v.optional Setting.toText, parts.2.2)),
    ("foreign_key", fun parts v => do pure (parts.1, parts.2.1, ← v.optional Setting.toText))]
  let ((kind, target, key), missing) ← v.toRecord fields (none, none, none)
  match kind with
  | some kind => pure ⟨kind, target.map EntityType.mk, key⟩
  | none => throw missing

def Database.ofSetting (v : Setting) : Load Database := do
  let fields : Setting.Fields Database := [
    ("uri", fun db v => do pure { db with uri := ← v.toText }),
    ("database", fun db v => do pure { db with name := ← v.toText }),
    ("app_name", fun db v => do pure { db with appName := ← v.optional Setting.toText }),
    ("server_selection_timeout_ms", fun db v => do pure { db with timeout := ← v.toNat64 })]
  pure (← v.toRecord fields Database.default).1

namespace EntitySettings

/-- Defaults are a table; null stands for an empty one. -/
def readDefaults : Setting → Load (List (String × Json))
  | .null => pure []
  | .table entries => Setting.toJsonFields entries
  | _ => throw .invalidType

def ofSetting (v : Setting) : Load EntitySettings := do
  let fields : Setting.Fields EntitySettings := [
    ("collection", fun e v => do pure { e with collection := ← v.optional Setting.toText }),
    ("relations", fun e v => do pure { e with relations := ← v.toTable Relation.ofSetting }),
    ("defaults", fun e v => do pure { e with defaults := ← readDefaults v })]
  pure (← v.toRecord fields ⟨none, [], []⟩).1

def blank? (e : EntitySettings) : Option Document := do
  match ← Spelled.read? (.object e.defaults) with
  | .document doc => some doc
  | _ => none

end EntitySettings

namespace Configuration

def ofSetting (v : Setting) : Load Configuration := do
  let fields : Setting.Fields Configuration := [
    ("mongo", fun c v => do pure { c with database := ← Database.ofSetting v }),
    ("entities", fun c v => do pure { c with entities := ← v.toTable EntitySettings.ofSetting })]
  pure (← v.toRecord fields ⟨Database.default, []⟩).1

def readFile (yaml : String) : Load Setting :=
  match Yaml.parse yaml with
  | some (.table entries) => pure (.table entries)
  | _ => throw .malformed

def ofYaml (yaml : String) : Load Configuration := do ofSetting (← readFile yaml)

def variableStart : String := "DOCSCOPE__"

/-- The configuration of a file, if there is one, and of environment variables over it. -/
def load (yaml : Option String) (environment : List (String × String)) : Load Configuration := do
  let below ← match yaml with
    | some text => readFile text
    | none => pure (.table [])
  ofSetting (below.overlay (Environment.settings variableStart environment))

def collections (c : Configuration) : KeyMap String :=
  c.entities.filterMap fun (name, e) => e.collection.map (name, ·)

/-- The schema of the configured types; the first type whose defaults have no form as values is
reported. -/
def schema (c : Configuration) : Except EntityType Schema := do
  let entities ← c.entities.mapM fun (name, e) =>
    match e.blank? with
    | some defaults => Except.ok (name, (⟨e.relations, defaults⟩ : Entity))
    | none => .error (EntityType.mk name)
  pure ⟨entities⟩

end Configuration
end AccessRules
