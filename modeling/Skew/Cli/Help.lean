import Skew.Cli.Arguments

/-!
# Help texts
-/

namespace Skew.Cli

def versionText : String := "objctl 0.1.0\n"

def configHelp : String := "  -c, --config <CONFIG>        Configuration file path\n"

def logLevelHelp : String :=
  "      --log-level <LOG_LEVEL>  Log level (trace, debug, info, warn, error)\n"

def helpHelp : String := "  -h, --help                   Print help\n"

def rootHelp : String :=
  "Inspect and backport versioned object primitives\n\nUsage: objctl [OPTIONS] <COMMAND>\n\n"
    ++ "Commands:\n"
    ++ "  types            List registered types, versions, fields and methods\n"
    ++ "  inspect          Hydrate a primitive and print it as plain JSON\n"
    ++ "  backport         Rewrite a primitive at an older version\n"
    ++ "  gen-config       Generate example configuration file\n"
    ++ "  validate-config  Validate a configuration file\n"
    ++ "  help             Print this message or the help of the given subcommand(s)\n\n"
    ++ "Options:\n" ++ configHelp ++ logLevelHelp ++ helpHelp
    ++ "  -V, --version                Print version\n"

def Topic.text : Topic → String
  | .types =>
    "List registered types, versions, fields and methods\n\n"
      ++ "Usage: objctl types [OPTIONS] [NAME]\n\n"
      ++ "Arguments:\n  [NAME]  Only show this type\n\n"
      ++ "Options:\n" ++ configHelp ++ logLevelHelp ++ helpHelp
  | .inspect =>
    "Hydrate a primitive and print it as plain JSON\n\nUsage: objctl inspect [OPTIONS] <FILE>\n\n"
      ++ "Arguments:\n  <FILE>  Primitive JSON file\n\n"
      ++ "Options:\n" ++ configHelp ++ logLevelHelp ++ helpHelp
  | .backport =>
    "Rewrite a primitive at an older version\n\n"
      ++ "Usage: objctl backport [OPTIONS] --to <VERSION> <FILE>\n\n"
      ++ "Arguments:\n  <FILE>  Primitive JSON file\n\n"
      ++ "Options:\n" ++ configHelp
      ++ "      --to <VERSION>           Target version (MAJOR.MINOR)\n" ++ logLevelHelp ++ helpHelp
  | .genConfig =>
    "Generate example configuration file\n\nUsage: objctl gen-config [OPTIONS]\n\n"
      ++ "Options:\n" ++ configHelp
      ++ "  -o, --output <OUTPUT>        Output file path (stdout if omitted)\n" ++ logLevelHelp
      ++ helpHelp
  | .validateConfig =>
    "Validate a configuration file\n\nUsage: objctl validate-config [OPTIONS] <FILE>\n\n"
      ++ "Arguments:\n  <FILE>  \n\n" ++ "Options:\n" ++ configHelp ++ logLevelHelp ++ helpHelp
  | .help =>
    "Print this message or the help of the given subcommand(s)\n\n"
      ++ "Usage: objctl help [COMMAND]...\n\n"
      ++ "Arguments:\n  [COMMAND]...  Print help for the subcommand(s)\n"

def helpText (topic? : Option Topic) : String :=
  match topic? with
  | some t => t.text
  | none => rootHelp

end Skew.Cli
