import ArrayOffload.Context

/-!
# Options of the command line

The words of a command line as a command. A value may follow its option or stand after an
equals sign. A word that starts with a dash is never the value of the option before it, apart
from the single dash. After two dashes all words are file names.

* `Command.parse`: the command, a request for help or the version, or a usage error.
-/

namespace ArrayOffload

/-- What the commands that compile a function have in common. -/
structure Target where
  input : String
  function : Option String := none
  device : Option DeviceContext := none
  args : List String := []
  shared : List String := []
  config : Option String := none
deriving DecidableEq, Repr

inductive Command where
  | plan (target : Target)
  | run (target : Target) (stats : Bool)
  | kernels (target : Target) (emit : String) (ir : Bool) (outDir : Option String)
  | hash (input : String) (full : Bool)
deriving DecidableEq, Repr

/-- Why a command line is not a command to carry out. -/
inductive UsageStop where
  | help
  | version
  | misuse (reason : String)
deriving DecidableEq, Repr

namespace Command

/-- An option and what it takes. -/
inductive Kind where
  /-- No value, at most once. -/
  | flag
  /-- One value, at most once. -/
  | single
  /-- A value each time. -/
  | repeated
deriving DecidableEq, Repr

/-- The options of the commands that compile a function. -/
def targetOptions : List (String × Kind) :=
  [("fn", .single), ("device", .single), ("arg", .repeated), ("shared", .repeated),
   ("config", .single)]

def optionsOf? : String → Option (List (String × Kind))
  | "plan" => some targetOptions
  | "run" => some (targetOptions ++ [("stats", .flag)])
  | "kernels" =>
    some (targetOptions ++ [("emit", .single), ("ir", .flag), ("out-dir", .single)])
  | "hash" => some [("full", .flag)]
  | _ => none

/-- Words sorted into options, in order, and file names. -/
structure Words where
  options : List (String × String) := []
  files : List String := []
deriving DecidableEq, Repr

namespace Words

def has (words : Words) (name : String) : Bool := words.options.any fun entry => entry.1 = name

def value? (words : Words) (name : String) : Option String := words.options.lookup name

def values (words : Words) (name : String) : List String :=
  (words.options.filter fun entry => entry.1 = name).map (·.2)

end Words

/-- Paths are not empty, and contexts can be read. -/
def checkValue (name value : String) : Except UsageStop Unit :=
  if name = "device" then
    match DeviceContext.ofText value with
    | .ok _ => .ok ()
    | .error cause =>
      .error (.misuse s!"invalid value '{value}' for '--device <DEVICE>': {cause.message}")
  else if (name = "config" || name = "out-dir") && value = "" then
    .error (.misuse s!"a value is required for '--{name}' but none was supplied")
  else .ok ()

def addOption (words : Words) (name value : String) (kind : Kind) : Except UsageStop Words := do
  if kind ≠ .repeated && words.has name then
    throw (.misuse s!"the argument '--{name}' cannot be used multiple times")
  checkValue name value
  return { words with options := words.options ++ [(name, value)] }

def addFile (words : Words) (path : String) : Except UsageStop Words :=
  if path = "" then .error (.misuse "a value is required for '<INPUT>' but none was supplied")
  else if words.files.isEmpty then .ok { words with files := [path] }
  else .error (.misuse s!"unexpected argument '{path}' found")

/-- Whether a word can only be an option. -/
def isOption (word : String) : Bool := word.startsWith "-" && word ≠ "-"

/-- An option's name, and its value after an equals sign. -/
def splitOption (word : String) : String × Option String :=
  match Text.cutAt? '=' (word.toList.drop 2) with
  | some (name, value) => (String.ofList name, some (String.ofList value))
  | none => (String.ofList (word.toList.drop 2), none)

def unexpected (word : String) : UsageStop := .misuse s!"unexpected argument '{word}' found"

/-- Whether a word starts with a short flag. Flags may follow each other after one dash, and the
first of them counts. -/
def startsFlag (flag : Char) (word : String) : Bool := ['-', flag].isPrefixOf word.toList

/-- Sort the words of a command. -/
def sortWords (options : List (String × Kind)) :
    List String → Words → Except UsageStop Words
  | [], words => .ok words
  | "--" :: rest, words => rest.foldlM addFile words
  | "--help" :: _, _ => .error .help
  | word :: rest, words =>
    if !isOption word then do sortWords options rest (← addFile words word)
    else if startsFlag 'h' word then .error .help
    else if !word.startsWith "--" then .error (unexpected word)
    else
      let (name, value) := splitOption word
      match options.lookup name, value with
      | none, _ => .error (unexpected word)
      | some .flag, some text =>
        .error (.misuse s!"unexpected value '{text}' for '--{name}' found; no more were expected")
      | some .flag, none => do sortWords options rest (← addOption words name "" .flag)
      | some kind, some text => do sortWords options rest (← addOption words name text kind)
      | some kind, none =>
        match rest with
        | text :: after =>
          if isOption text then
            .error (.misuse s!"a value is required for '--{name}' but none was supplied")
          else do sortWords options after (← addOption words name text kind)
        | [] => .error (.misuse s!"a value is required for '--{name}' but none was supplied")

def targetOf (words : Words) (input : String) : Target where
  input
  function := words.value? "fn"
  device := (words.value? "device").bind fun text => (DeviceContext.ofText text).toOption
  args := words.values "arg"
  shared :=
    (words.values "shared").flatMap fun names =>
      (Text.splitAll ',' names.toList).map String.ofList
  config := words.value? "config"

def ofWords (name : String) (words : Words) : Except UsageStop Command :=
  match words.files with
  | [] => .error (.misuse "the following required arguments were not provided: <INPUT>")
  | input :: _ =>
    let target := targetOf words input
    match name with
    | "plan" => .ok (.plan target)
    | "run" => .ok (.run target (words.has "stats"))
    | "kernels" =>
      .ok (.kernels target ((words.value? "emit").getD "wgsl") (words.has "ir")
        (words.value? "out-dir"))
    | _ => .ok (.hash input (words.has "full"))

def unrecognized (name : String) : UsageStop := .misuse s!"unrecognized subcommand '{name}'"

/-- Help in general, or for one command. -/
def helpFor : List String → UsageStop
  | [] | ["help"] => .help
  | [name] => if (optionsOf? name).isSome then .help else unrecognized name
  | name :: next :: _ =>
    if name = "help" || (optionsOf? name).isSome then unrecognized next else unrecognized name

/-- The command of a command line. -/
def parse : List String → Except UsageStop Command
  | [] => .error (.misuse "a command is required: plan, run, kernels or hash")
  | "--help" :: _ => .error .help
  | "--version" :: _ => .error .version
  | "help" :: names => .error (helpFor names)
  | name :: rest =>
    if startsFlag 'h' name then .error .help
    else if startsFlag 'V' name then .error .version
    else match optionsOf? name with
      | none => .error (unrecognized name)
      | some options => do ofWords name (← sortWords options rest {})

end Command

end ArrayOffload
