import ProtoScribe.Command.Arguments

/-!
# Help

The texts that a request for help or for the version is answered with.
-/

namespace ProtoScribe.Command

/-- A text of whole lines. -/
def paragraphs (lines : List String) : String := String.join (lines.map (· ++ "\n"))

/-- The program with its version. -/
def versionText : String := paragraphs ["protomak 0.1.0"]

/-- The help about a topic. -/
def Topic.text : Topic → String
  | .program => paragraphs
    [ "Command-line front end for protomak: loads a YAML/JSON schema tree and writes it out as a .proto file.",
      "",
      "Usage: protomak [OPTIONS] <COMMAND>",
      "",
      "Commands:",
      "  generate  Write a schema document out as a .proto file",
      "  print     Print the rendered .proto text to stdout",
      "  help      Print this message or the help of the given subcommand(s)",
      "",
      "Options:",
      "  -v, --verbose...       Enable verbose output. Repeat for more verbosity (-v, -vv, -vvv)",
      "      --config <CONFIG>  Path to configuration file (defaults to ./protomak.yaml if present)",
      "  -h, --help             Print help",
      "  -V, --version          Print version" ]
  | .generate => paragraphs
    [ "Write a schema document out as a .proto file",
      "",
      "Usage: protomak generate [OPTIONS] --schema <FILE>",
      "",
      "Options:",
      "      --schema <FILE>     Schema document (.yaml, .yml or .json)",
      "  -v, --verbose...        Enable verbose output. Repeat for more verbosity (-v, -vv, -vvv)",
      "      --config <CONFIG>   Path to configuration file (defaults to ./protomak.yaml if present)",
      "      --name <NAME>       Logical output name. `.proto` is appended unless already present. Defaults to the schema file stem",
      "      --output-dir <DIR>  Output directory, created if missing. Overrides the config file",
      "      --atomic            Write through a temp file and rename it into place",
      "  -h, --help              Print help" ]
  | .print => paragraphs
    [ "Print the rendered .proto text to stdout",
      "",
      "Usage: protomak print [OPTIONS] --schema <FILE>",
      "",
      "Options:",
      "      --schema <FILE>    Schema document (.yaml, .yml or .json)",
      "  -v, --verbose...       Enable verbose output. Repeat for more verbosity (-v, -vv, -vvv)",
      "      --config <CONFIG>  Path to configuration file (defaults to ./protomak.yaml if present)",
      "  -h, --help             Print help" ]
  | .help => paragraphs
    [ "Print this message or the help of the given subcommand(s)",
      "",
      "Usage: protomak help [COMMAND]...",
      "",
      "Arguments:",
      "  [COMMAND]...  Print help for the subcommand(s)" ]

end ProtoScribe.Command
