import Relink.CommandLine.Arguments
import Relink.Run

/-! # The command line

The program reads its settings from the configuration file in the working folder, overrules them with
its arguments, and runs. -/

namespace Relink.CommandLine

/-- What the program leaves behind. -/
structure Outcome where
  /-- The exit code. -/
  code : Nat
  /-- What is printed. -/
  output : Text
  /-- What is printed as complaints. -/
  complaints : Text
  /-- The file tree afterwards. -/
  tree : Node

/-- What is printed when the version is asked for. -/
def versionText : Text := "resfix 0.3.0\n".toList

/-- What is printed when help is asked for. -/
def helpText : Text :=
  ("Fix stale res:// references and pack the result into a zip\n" ++
    "\n" ++
    "Usage: resfix [OPTIONS] [PATH]\n" ++
    "\n" ++
    "Arguments:\n" ++
    "  [PATH]  Project root to scan (defaults to the current directory)\n" ++
    "\n" ++
    "Options:\n" ++
    "  -o, --out <OUT>          Output zip filename\n" ++
    "  -v, --verbose            Print every change per file\n" ++
    "      --ignore <IGNORE>    Add ignore pattern (glob)\n" ++
    "      --respect-gitignore  Skip files matched by .gitignore and hidden files\n" ++
    "  -h, --help               Print help\n" ++
    "  -V, --version            Print version\n").toList

/-- Settings overruled by arguments; the patterns of both count. -/
def overrule (settings : Settings) (arguments : Arguments) : Settings :=
  { settings with
    path := (arguments.path.map Utf8.encode).getD settings.path
    output := (arguments.out.map Utf8.encode).getD settings.output
    verbose := settings.verbose || arguments.verbose
    ignorePatterns := settings.ignorePatterns ++ arguments.ignore
    respectGitignore := settings.respectGitignore || arguments.respectGitignore }

/-- The settings in the working folder. -/
def settingsIn (tree : Node) (working : Location) : Settings :=
  (((tree.read working (Utf8.encode Settings.fileName)).toOption).bind Settings.ofContent?).getD .default

/-- Lines, each with its end. -/
def ofLines (lines : List Text) : Text := lines.flatMap (· ++ ['\n'])

/-- The causes of a failure below one another, each with its number if there are several. -/
def causeLines (causes : List Text) : List Text :=
  match causes with
  | [] => []
  | [cause] => [[], "Caused by:".toList, "    ".toList ++ cause]
  | causes =>
    [] :: "Caused by:".toList ::
      causes.zipIdx.map fun (cause, n) => "    ".toList ++ Text.ofNat n ++ ": ".toList ++ cause

/-- What is printed when a run fails. -/
def failureLines (failure : Failure) : List Text :=
  match failure.causes with
  | [] => []
  | message :: causes => ("Error: ".toList ++ message) :: causeLines causes

/-- What a run with arguments leaves behind. -/
def runWith (system : System) (tree : Node) (working : Location) (arguments : Arguments) : Outcome :=
  let report := Run.run system tree working (overrule (settingsIn tree working) arguments)
  match report.outcome with
  | .ok _ => ⟨0, ofLines report.lines, ofLines report.complaints, report.tree⟩
  | .error failure =>
    ⟨1, ofLines report.lines, ofLines (report.complaints ++ failureLines failure), report.tree⟩

/-- What the program leaves behind, given its arguments. -/
def run (system : System) (tree : Node) (working : Location) (arguments : List Text) : Outcome :=
  match read arguments with
  | .ok arguments => runWith system tree working arguments
  | .error .help => ⟨0, helpText, [], tree⟩
  | .error .version => ⟨0, versionText, [], tree⟩
  | .error (.refused error) => ⟨2, [], ofLines [error.message], tree⟩

end Relink.CommandLine
