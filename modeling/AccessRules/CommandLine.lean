import AccessRules.CommandLine.Arguments
import AccessRules.Fixtures
import AccessRules.Json.Printer
import AccessRules.Pattern.Syntax
import AccessRules.Permission
import AccessRules.RulesFile
import AccessRules.Scope

/-! What the commands do: print the scope that rules compile to, check one document, and print the
stored documents that rules allow. -/
namespace AccessRules.CommandLine

structure Outcome where
  code : Nat
  output : String
  deriving DecidableEq, Repr

def success : Nat := 0
/-- The code of every failure, and of a document that is denied. -/
def failure : Nat := 1
def misuse : Nat := 2

def failed : Outcome := ⟨failure, ""⟩

def documentText (doc : Document) : String :=
  (ExtendedJson.write (.document doc)).pretty ++ "\n"

/-- What the files of an invocation hold: the schema, the rules and the stored entities. Entities
that are in a database and not in fixtures are out of reach. -/
def prepare (environment : List (String × String)) (readFile : String → Option String)
    (invocation : Invocation) : Option (Schema × MemoryStore × List Rule) := do
  let configuration ←
    (Configuration.load (invocation.configuration.bind readFile) environment).toOption
  let rules ← (RulesFile.rules (← readFile invocation.rules)).toOption
  let schema ← configuration.schema.toOption
  let text ← readFile (← invocation.fixtures)
  let store ← (Fixtures.parse ObjectId.generated text).toOption
  pure (schema, store, rules)

def argumentDocument? (s : String) : Option Document := do
  (ExtendedJson.readDocument (← (Json.parse s).toOption)).toOption

def perform (schema : Schema) (store : Store) (rules : List Rule) (type : EntityType) :
    Command → Option Outcome
  | .compile => do
    let selector ← (scope schema store type rules).result.toOption
    pure ⟨success, documentText selector.document⟩
  | .check document => do
    let entity ← argumentDocument? document
    let allowed ← (permits schema store type rules entity).result.toOption
    pure (if allowed then ⟨success, "allowed\n"⟩ else ⟨failure, "denied\n"⟩)
  | .query limit => do
    let docs ← (allowedDocuments schema store type rules).result.toOption
    pure ⟨success, String.join ((docs.take (limit.getD docs.length)).map documentText)⟩

def run (environment : List (String × String)) (readFile : String → Option String)
    (words : List String) : Outcome :=
  match Invocation.ofWords environment words with
  | .error .usage => ⟨misuse, ""⟩
  | .error (.help text) => ⟨success, text⟩
  | .ok invocation =>
    ((prepare environment readFile invocation).bind fun (schema, store, rules) =>
      perform schema store rules invocation.type invocation.command).getD failed

end AccessRules.CommandLine
