/-!
# Help texts
-/

namespace BLTree.Command

inductive Topic where
  | program
  | check
  | tree
  | help
  deriving DecidableEq

def versionText : String := "bl-ast 0.1.0\n"

def checkAbout : String := "Check that a program file is well formed and print a summary"

def treeAbout : String := "Print the statement tree of a program's body or of one procedure"

def helpAbout : String := "Print this message or the help of the given subcommand(s)"

def colourAbout : String :=
  "When to colour the output [default: auto] [possible values: auto, always, never]"

def textOf (lines : List String) : String := String.join (lines.map (· ++ "\n"))

/-- The help of a subcommand that takes a file. -/
def fileHelp (about name : String) (options : List String) : String :=
  textOf <|
    [about, "", "Usage: bl-ast " ++ name ++ " [OPTIONS] <FILE>", "",
      "Arguments:", "  <FILE>  The path to the JSON program file", "", "Options:"] ++ options

def Topic.text : Topic → String
  | program =>
    textOf
      ["Validate and inspect BL programs stored as JSON statement trees.", "",
        "Usage: bl-ast [OPTIONS] <COMMAND>", "",
        "Commands:",
        "  check  " ++ checkAbout,
        "  tree   " ++ treeAbout,
        "  help   " ++ helpAbout, "",
        "Options:",
        "      --color <COLOR>  " ++ colourAbout,
        "  -h, --help           Print help",
        "  -V, --version        Print version"]
  | check =>
    fileHelp checkAbout "check"
      ["      --color <COLOR>  " ++ colourAbout,
        "  -h, --help           Print help"]
  | tree =>
    fileHelp treeAbout "tree"
      ["      --color <COLOR>          " ++ colourAbout,
        "      --procedure <PROCEDURE>  Print this procedure instead of the body",
        "  -h, --help                   Print help"]
  | help =>
    textOf
      [helpAbout, "", "Usage: bl-ast help [COMMAND]...", "",
        "Arguments:", "  [COMMAND]...  Print help for the subcommand(s)"]

end BLTree.Command
