/-! The help texts of the command line. -/
namespace AccessRules.CommandLine.Help

private def joinLines (lines : List String) : String := String.join (lines.map (· ++ "\n"))

def program : String := "docscope"

def configurationVariable : String := "DOCSCOPE_CONFIG"

/-- The general help; it shows what the variable for the configuration file holds. -/
def general (configuration : Option String) : String :=
  joinLines
    ["Compile and evaluate document-store authorization rules",
      "",
      "Usage: " ++ program ++ " [OPTIONS] --rules <RULES> <COMMAND>",
      "",
      "Commands:",
      "  compile  Print the selector the rules compile to",
      "  check    Check a single document, persisted or not",
      "  query    Print every stored document the rules allow",
      "  help     Print this message or the help of the given subcommand(s)",
      "",
      "Options:",
      "  -c, --config <CONFIG>        Configuration file (YAML); `DOCSCOPE__*` variables override it [env: "
        ++ configurationVariable ++ "=" ++ configuration.getD "" ++ "]",
      "  -r, --rules <RULES>          Rules file (YAML)",
      "      --fixtures <FIXTURES>    JSON file of documents per entity type, used instead of `MongoDB`",
      "      --log-level <LOG_LEVEL>  Log level when `RUST_LOG` is not set [default: info]",
      "  -h, --help                   Print help"]

private def command (summary usage : String) (options : List String) : String :=
  joinLines
    ([summary,
      "",
      "Usage: " ++ program ++ " --rules <RULES> " ++ usage ++ " <ENTITY_TYPE>",
      "",
      "Arguments:",
      "  <ENTITY_TYPE>  ",
      "",
      "Options:"] ++ options)

def compile : String :=
  command "Print the selector the rules compile to" "compile" ["  -h, --help  Print help"]

def check : String :=
  command "Check a single document, persisted or not" "check --document <DOCUMENT>"
    ["      --document <DOCUMENT>  The document as a JSON object",
      "  -h, --help                 Print help"]

def query : String :=
  command "Print every stored document the rules allow" "query [OPTIONS]"
    ["      --limit <LIMIT>  ",
      "  -h, --help           Print help"]

end AccessRules.CommandLine.Help
