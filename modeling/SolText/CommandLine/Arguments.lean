import SolText.Text.Numeral
import SolText.Text.Split

/-!
# Command-line arguments

What the program is asked to do. Arguments are read from left to right: the first mistake counts, and
a question for the version or for help is answered as soon as it is met. Options may stand before or
behind the file name; `--` ends them.

* `Command`: what can be asked.
* `parse`: the command that arguments spell.
-/

namespace SolText.CommandLine

open Text

/-- The name of the program. -/
def programName : String := "scrivener"

/-- The two tasks of the program. -/
inductive Task where
  | format
  | map
  deriving DecidableEq, Repr

/-- The name of a task. -/
def Task.name : Task → String
  | format => "format"
  | map => "map"

/-- What the program is asked to do. -/
inductive Command where
  /-- Say how the program is used. -/
  | usage
  /-- Say the version of the program with the given name. -/
  | version (name : String)
  /-- Write a tree, in colour if `raw` is set. -/
  | format (raw : Bool) (config : Option String) (file : String)
  /-- List where the nodes of a tree lie, recorded while writing if `live` is set. -/
  | map (live : Bool) (source : Option Nat) (config : Option String) (file : String)
  deriving DecidableEq, Repr

/-- What is wrong with arguments. -/
inductive UsageError where
  | unexpected (argument : String)
  | repeated (option : String)
  | missingValue (option : String)
  | invalidValue (option value : String)
  | missingFile
  deriving DecidableEq, Repr

/-- The wording of a mistake in the arguments. -/
def UsageError.message : UsageError → String
  | unexpected argument => "unexpected argument '" ++ argument ++ "' found"
  | repeated option => "the argument '" ++ option ++ "' cannot be used multiple times"
  | missingValue option => "a value is required for '" ++ option ++ "' but none was supplied"
  | invalidValue option value => "invalid value '" ++ value ++ "' for '" ++ option ++ "'"
  | missingFile => "the following required arguments were not provided: <filename>"

/-- An argument by its form. -/
inductive Argument where
  /-- The mark that ends the options. -/
  | endOfOptions
  /-- An option by its name, maybe with a value behind an equals sign. -/
  | long (name : String) (value : Option String)
  /-- Options of one letter each. -/
  | short (letters : List Char)
  | word (text : String)
  deriving DecidableEq, Repr

/-- The form of an argument. A hyphen alone is a word. -/
def Argument.ofString (text : String) : Argument :=
  match text.toList with
  | ['-', '-'] => .endOfOptions
  | '-' :: '-' :: rest =>
    let (name, value) := splitFirst '=' rest
    .long (String.ofList name) (value.map String.ofList)
  | '-' :: letter :: rest => .short (letter :: rest)
  | _ => .word text

/-- Options and file names met so far. -/
structure Given where
  raw : Bool := false
  live : Bool := false
  source : Option Nat := none
  config : Option String := none
  file : Option String := none
  deriving DecidableEq, Repr

/-- What follows from an option: the arguments read on, or an answer at once. -/
inductive Effect where
  | proceed (given : Given)
  | answer (command : Command)

namespace Given

/-- One more file name; there is room for one. -/
def addFile (given : Given) (name : String) : Except UsageError Given :=
  match given.file with
  | none => .ok { given with file := some name }
  | some _ => .error (.unexpected name)

/-- The option that asks for colour. -/
def setRaw (given : Given) : Except UsageError Given :=
  if given.raw then .error (.repeated "--raw-control-chars") else .ok { given with raw := true }

/-- The option that asks for ranges recorded while writing. -/
def setLive (given : Given) : Except UsageError Given :=
  if given.live then .error (.repeated "--live") else .ok { given with live := true }

/-- The file that holds the settings. -/
def setConfig (given : Given) (name : String) : Except UsageError Given :=
  match given.config with
  | none => .ok { given with config := some name }
  | some _ => .error (.repeated "--config")

/-- The index of the source. -/
def setSource (given : Given) (value : String) : Except UsageError Given :=
  match readWord value.toList, given.source with
  | none, _ => .error (.invalidValue "--source-index" value)
  | some index, none => .ok { given with source := some index }
  | some _, some _ => .error (.repeated "--source-index")

/-- The command of a task with what was given. -/
def command (given : Given) (task : Task) : Except UsageError Command :=
  match given.file, task with
  | none, _ => .error .missingFile
  | some file, .format => .ok (.format given.raw given.config file)
  | some file, .map => .ok (.map given.live given.source given.config file)

end Given

/-- The options of a task that take a value. -/
def valueOption? (task : Task) (name : String) :
    Option (Given → String → Except UsageError Given) :=
  match task, name with
  | _, "config" => some Given.setConfig
  | .map, "source-index" => some Given.setSource
  | _, _ => none

/-- The name that a program or one of its tasks goes by. -/
def nameOf : Option Task → String
  | none => programName
  | some task => programName ++ "-" ++ task.name

/-- An option without a value, by its long name. -/
def longFlag (task : Option Task) (given : Given) (name : String) : Except UsageError Effect :=
  match task, name with
  | _, "verbose" => .ok (.proceed given)
  | task, "version" => .ok (.answer (.version (nameOf task)))
  | _, "help" => .ok (.answer .usage)
  | some .format, "raw-control-chars" => given.setRaw.map .proceed
  | some .map, "live" => given.setLive.map .proceed
  | _, _ => .error (.unexpected ("--" ++ name))

/-- Options of one letter each. -/
def shortFlags (task : Option Task) (given : Given) : List Char → Except UsageError Effect
  | [] => .ok (.proceed given)
  | 'v' :: rest => shortFlags task given rest
  | 'V' :: _ => .ok (.answer (.version (nameOf task)))
  | 'h' :: _ => .ok (.answer .usage)
  | letter :: rest =>
    if task = some .format ∧ letter = 'R' then
      match given.setRaw with
      | .ok given => shortFlags task given rest
      | .error error => .error error
    else .error (.unexpected ("-" ++ letter.toString))

/-- The command that the arguments of a task spell. -/
def parseTask (task : Task) (given : Given) : List String → Except UsageError Command
  | [] => given.command task
  | argument :: rest =>
    match Argument.ofString argument with
    | .endOfOptions => do (← rest.foldlM Given.addFile given).command task
    | .word text => do parseTask task (← given.addFile text) rest
    | .short letters => do
      match ← shortFlags task given letters with
      | .proceed given => parseTask task given rest
      | .answer command => return command
    | .long name value =>
      match valueOption? task name, value, rest with
      | some set, some value, rest => do parseTask task (← set given value) rest
      | some set, none, value :: rest =>
        match Argument.ofString value with
        | .word value => do parseTask task (← set given value) rest
        | _ => .error (.missingValue argument)
      | some _, none, [] => .error (.missingValue argument)
      | none, none, rest => do
        match ← longFlag task given name with
        | .proceed given => parseTask task given rest
        | .answer command => return command
      | none, some _, _ => .error (.unexpected argument)

/-- The command that arguments spell. -/
def parse : List String → Except UsageError Command
  | [] => .ok .usage
  | argument :: rest =>
    match Argument.ofString argument with
    | .endOfOptions =>
      match rest with
      | [] => .ok .usage
      | surplus :: _ => .error (.unexpected surplus)
    | .word "format" => parseTask .format {} rest
    | .word "map" => parseTask .map {} rest
    | .word text => .error (.unexpected text)
    | .short letters => do
      match ← shortFlags none {} letters with
      | .proceed _ => parse rest
      | .answer command => return command
    | .long name none => do
      match ← longFlag none {} name with
      | .proceed _ => parse rest
      | .answer command => return command
    | .long _ (some _) => .error (.unexpected argument)

end SolText.CommandLine
