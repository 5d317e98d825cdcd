import ImportHarvest.Text.Pieces
/-!
The help and version texts, and a completion script for each shell.
-/

namespace ImportHarvest.CommandLine

open Text

def version : String := "pipmyride 0.1.0\n"

def help : String :=
"Concatenate a repository's Python sources and infer a pip install command from its imports

Usage: pipmyride [OPTIONS] [SOURCE]

Arguments:
  [SOURCE]  GitHub repository URL or local folder path (prompted for when omitted)

Options:
  -o, --output <FILE>         Output file for the concatenated sources
  -c, --config <FILE>         Path to config file (pipmyride.toml, or .yml/.yaml)
  -x, --extensions <EXTS>     File extensions to aggregate (comma-separated, e.g. '.py,.ipynb')
  -e, --exclude-glob <GLOBS>  Skip paths matching these globs (comma-separated)
      --follow-symlinks       Follow symbolic links when walking a local folder
      --no-clipboard          Do not copy the generated command to the clipboard
      --completions <SHELL>   Print shell completions and exit [possible values: bash, elvish, fish,
                              powershell, zsh]
  -v, --verbose               Enable verbose logging (sets log level to DEBUG)
  -h, --help                  Print help
  -V, --version               Print version
"

/-- the options as they are completed -/
def optionWords : List String :=
  ["-o", "--output", "-c", "--config", "-x", "--extensions", "-e", "--exclude-glob", "--follow-symlinks",
   "--no-clipboard", "--completions", "-v", "--verbose", "-h", "--help", "-V", "--version"]

/-- a script that lets a shell complete the options -/
def completionScript (shell : String) : String :=
  let words := join " " optionWords
  match shell with
  | "fish" => "complete -c pipmyride -a '" ++ words ++ "'\n"
  | "zsh" => "compctl -f -k '(" ++ words ++ ")' pipmyride\n"
  | "elvish" => "set edit:completion:arg-completer[pipmyride] = \x7b|@words| put " ++ words ++ " \x7d\n"
  | "powershell" =>
    "Register-ArgumentCompleter -Native -CommandName pipmyride -ScriptBlock \x7b '" ++ words ++ "'.Split(' ') \x7d\n"
  | _ => "complete -f -W '" ++ words ++ "' pipmyride\n"

end ImportHarvest.CommandLine
