import Relink.Text.Plain

/-! # Arguments

The arguments of the program are parameters with a value, switches without one, and at most one path.
They are read in turn. A value that is not attached to its parameter, and the path, are settled only
when the next parameter or switch is read or the arguments end, so that an argument that does not
exist is reported first. Arguments are read as texts; one whose bytes are no text is not covered. -/

namespace Relink.CommandLine

/-- What takes a value. -/
inductive Parameter where
  /-- Where the archive is written. -/
  | out
  /-- A glob for what is left out; may be given more than once. -/
  | ignore
  /-- The project's root, which has no name in front. -/
  | path
  deriving DecidableEq, Repr

/-- What takes no value. -/
inductive Switch where
  | verbose
  | respectGitignore
  | help
  | version
  deriving DecidableEq, Repr

namespace Parameter

/-- How messages write a parameter. -/
def written : Parameter → Text
  | out => "--out <OUT>".toList
  | ignore => "--ignore <IGNORE>".toList
  | path => "[PATH]".toList

end Parameter

namespace Switch

/-- How messages write a switch. -/
def written : Switch → Text
  | verbose => "--verbose".toList
  | respectGitignore => "--respect-gitignore".toList
  | help => "--help".toList
  | version => "--version".toList

end Switch

/-- Why arguments are refused. -/
inductive UsageError where
  /-- There is no such argument, or it is a second path. -/
  | unexpected (argument : Text)
  /-- A parameter has no value, or an empty one where a path is wanted. -/
  | missingValue (parameter : Parameter)
  /-- A parameter has two values. -/
  | repeatedParameter (parameter : Parameter)
  /-- A switch is given twice. -/
  | repeatedSwitch (switch : Switch)
  /-- A switch has a value. -/
  | unneededValue (value : Text) (switch : Switch)
  deriving DecidableEq, Repr

namespace UsageError

/-- The words for an error; what the user typed is shown as plain text. -/
def message : UsageError → Text
  | unexpected argument => "error: unexpected argument '".toList ++ Text.plain argument ++ "' found".toList
  | missingValue parameter =>
    "error: a value is required for '".toList ++ parameter.written ++ "' but none was supplied".toList
  | repeatedParameter parameter =>
    "error: the argument '".toList ++ parameter.written ++ "' cannot be used multiple times".toList
  | repeatedSwitch switch =>
    "error: the argument '".toList ++ switch.written ++ "' cannot be used multiple times".toList
  | unneededValue value switch =>
    "error: unexpected value '".toList ++ Text.plain value ++ "' for '".toList ++ switch.written ++
      "' found; no more were expected".toList

end UsageError

/-- Why reading the arguments ends before their end. -/
inductive Stop where
  | refused (error : UsageError)
  /-- Help is asked for. -/
  | help
  /-- The version is asked for. -/
  | version
  deriving DecidableEq, Repr

/-- What the arguments say. -/
structure Arguments where
  path : Option Text
  out : Option Text
  ignore : List Text
  verbose : Bool
  respectGitignore : Bool
  deriving DecidableEq, Repr

namespace Arguments

/-- What no arguments say. -/
def none : Arguments := ⟨.none, .none, [], false, false⟩

/-- Settles the value of a parameter. -/
def settle (arguments : Arguments) (parameter : Parameter) (value : Text) :
    Except UsageError Arguments :=
  match parameter with
  | .out =>
    if arguments.out.isSome then .error (.repeatedParameter .out)
    else if value.isEmpty then .error (.missingValue .out)
    else .ok { arguments with out := some value }
  | .ignore => .ok { arguments with ignore := arguments.ignore ++ [value] }
  | .path =>
    if value.isEmpty then .error (.missingValue .path) else .ok { arguments with path := some value }

end Arguments

/-- What has been read. -/
structure Reading where
  arguments : Arguments
  /-- A parameter that is not settled, with its value if that has been read. -/
  pending : Option (Parameter × Option Text)
  /-- The path has been read. -/
  hasPath : Bool
  /-- All further arguments are taken for paths. -/
  onlyPaths : Bool

namespace Reading

/-- Nothing has been read. -/
def start : Reading := ⟨.none, none, false, false⟩

/-- Settles the pending parameter. -/
def settle (reading : Reading) : Except UsageError Reading :=
  match reading.pending with
  | none => .ok reading
  | some (parameter, none) => .error (.missingValue parameter)
  | some (parameter, some value) =>
    (reading.arguments.settle parameter value).map fun arguments =>
      { reading with arguments := arguments, pending := none }

/-- The reading, or the stop that an error makes. -/
def orStop {α : Type} : Except UsageError α → Except Stop α
  | .ok a => .ok a
  | .error error => .error (.refused error)

/-- Reads a parameter whose value comes next. -/
def awaitValue (reading : Reading) (parameter : Parameter) : Except Stop Reading := do
  let reading ← orStop reading.settle
  return { reading with pending := some (parameter, none) }

/-- Reads a parameter with its value. -/
def attach (reading : Reading) (parameter : Parameter) (value : Text) : Except Stop Reading := do
  let reading ← orStop reading.settle
  let arguments ← orStop (reading.arguments.settle parameter value)
  return { reading with arguments := arguments }

/-- Reads a switch. -/
def turnOn (reading : Reading) (switch : Switch) : Except Stop Reading := do
  let reading ← orStop reading.settle
  let arguments := reading.arguments
  match switch with
  | .verbose =>
    if arguments.verbose then throw (.refused (.repeatedSwitch .verbose))
    else return { reading with arguments := { arguments with verbose := true } }
  | .respectGitignore =>
    if arguments.respectGitignore then throw (.refused (.repeatedSwitch .respectGitignore))
    else return { reading with arguments := { arguments with respectGitignore := true } }
  | .help => throw .help
  | .version => throw .version

/-- Reads an argument with two dashes: what comes after them, up to an equals sign and after it. -/
def long (reading : Reading) (name : Text) (value : Option Text) : Except Stop Reading :=
  let parameter (p : Parameter) := match value with
    | some value => reading.attach p value
    | none => reading.awaitValue p
  let switch (s : Switch) := match value with
    | some value => .error (.refused (.unneededValue value s))
    | none => reading.turnOn s
  if name = "out".toList then parameter .out
  else if name = "ignore".toList then parameter .ignore
  else if name = "verbose".toList then switch .verbose
  else if name = "respect-gitignore".toList then switch .respectGitignore
  else if name = "help".toList then switch .help
  else if name = "version".toList then switch .version
  else .error (.refused (.unexpected (['-', '-'] ++ name)))

/-- Reads the letters of an argument with one dash. The letter of a parameter takes the letters after
    it for its value, with or without an equals sign before them. -/
def short (reading : Reading) : Text → Except Stop Reading
  | [] => .ok reading
  | 'v' :: letters => do short (← reading.turnOn .verbose) letters
  | 'h' :: letters => do short (← reading.turnOn .help) letters
  | 'V' :: letters => do short (← reading.turnOn .version) letters
  | ['o'] => reading.awaitValue .out
  | 'o' :: '=' :: value => reading.attach .out value
  | 'o' :: value => reading.attach .out value
  | letter :: _ => .error (.refused (.unexpected ['-', letter]))

/-- Reads a path. -/
def plain (reading : Reading) (argument : Text) : Except Stop Reading :=
  if reading.hasPath then .error (.refused (.unexpected argument))
  else do
    let reading ← orStop reading.settle
    return { reading with pending := some (.path, some argument), hasPath := true }

/-- Reads an argument that is the value of the pending parameter if that lacks one, and otherwise a
    path. -/
def valueOrPath (reading : Reading) (argument : Text) : Except Stop Reading :=
  match reading.pending with
  | some (parameter, none) => .ok { reading with pending := some (parameter, some argument) }
  | _ => reading.plain argument

/-- Reads one argument. -/
def argument (reading : Reading) (argument : Text) : Except Stop Reading :=
  if reading.onlyPaths then reading.plain argument
  else
    match argument with
    | ['-', '-'] => .ok { reading with onlyPaths := true }
    | '-' :: '-' :: text =>
      reading.long (text.takeWhile (· ≠ '=')) ((text.dropWhile (· ≠ '=')).tail?)
    | '-' :: letter :: letters => reading.short (letter :: letters)
    | argument => reading.valueOrPath argument

end Reading

/-- What a list of arguments says. -/
def read (arguments : List Text) : Except Stop Arguments := do
  let reading ← arguments.foldlM Reading.argument Reading.start
  return (← Reading.orStop reading.settle).arguments

end Relink.CommandLine
