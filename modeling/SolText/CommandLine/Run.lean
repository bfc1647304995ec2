import SolText.CommandLine.Arguments
import SolText.CommandLine.Directory
import SolText.Document
import SolText.SourceMap.Absolute
import SolText.SourceMap.Location
import SolText.Write.View

/-!
# Running commands

What the program prints, and its exit code, given the contents of the files that a command names.

* `Command.inputs`: the files that a command reads, in order.
* `Command.execute`: the outcome of a command.
-/

namespace SolText.CommandLine

/-- What a run of the program leaves behind. -/
structure Outcome where
  code : UInt32 := 0
  output : String := ""
  errors : String := ""
  deriving DecidableEq, Repr

/-- The files that a command reads, in order. -/
def Command.inputs : Command → List String
  | .usage | .version _ => []
  | .format _ config file | .map _ _ config file => config.toList ++ [file]

/-- The options of a configuration file; without a file, the defaults. -/
def loadOptions (files : Files) : Option String → Except String Options
  | none => .ok .defaults
  | some name =>
    match files name with
    | .error failure =>
      .error (name ++ ": Failed reading configuration: " ++ failure.description)
    | .ok text =>
      (Options.read text).mapError fun error =>
        name ++ ": Malformed configuration: " ++ error.message

/-- The document of a file. -/
def loadDocument (files : Files) (name : String) : Except String Document :=
  match files name with
  | .error .notFound => .error (name ++ ": File not found: ")
  | .error failure => .error (name ++ ": Failed reading: " ++ failure.description)
  | .ok text => (Document.read text).mapError fun error => name ++ ": " ++ error.message

/-- The text of a document. -/
def formatted (colour : Bool) (options : Options) (document : Document) : Except String String := do
  let style := if colour then Style.terminal else Style.plain
  let text ← ((Writer.standard options).highlight document.forest style document.root).mapError
    WriteError.message
  return text ++ "\n"

/-- The ranges of the nodes of a document. -/
def rangesOf (live : Bool) (options : Options) (document : Document) : Except String RangeMap := do
  let ⟨forest, root⟩ := document
  let writer := Writer.standard options
  if live then
    let (text, recorded) := writer.renderRecorded forest root ∅
    let _ ← text.mapError WriteError.message
    (SourceMap.absoluteInWords forest root recorded).mapError PlacementError.message
  else
    let fragments ← (writer.fragments forest root).mapError WriteError.message
    (SourceMap.reconstruct options.terminator forest root fragments).mapError PlacementError.message

/-- The line of a node that has a range. -/
def mapLine (forest : Forest) (ranges : RangeMap) (source : Option Nat) (handle : Handle) :
    String :=
  match ranges[handle]?, forest.node? handle with
  | some range, some node =>
    (range.location source).text ++ "\t" ++ node.kind.name ++ "\t" ++ handle.text ++ "\n"
  | _, _ => ""

/-- The lines of the nodes of a document that have ranges. -/
def mapped (live : Bool) (source : Option Nat) (options : Options) (document : Document) :
    Except String String := do
  let ranges ← rangesOf live options document
  let lines := (document.forest.walk document.root).map (mapLine document.forest ranges source)
  return String.join lines

/-- What a command prints, or why it fails. Settings are read before the document. -/
def Command.print (terminal : Bool) (files : Files) : Command → Except String String
  | .usage =>
    return "usage: " ++ programName ++ " [COMMAND] ...\nTry '--help' for more information.\n"
  | .version name => return name ++ " v0.1.0\n"
  | .format raw config file => do
    let options ← loadOptions files config
    formatted (raw || terminal) options (← loadDocument files file)
  | .map live source config file => do
    let options ← loadOptions files config
    mapped live source options (← loadDocument files file)

/-- The outcome of a command. -/
def Command.execute (command : Command) (terminal : Bool) (files : Files) : Outcome :=
  match command.print terminal files with
  | .ok output => { output }
  | .error problem =>
    { code := 1,
      errors := escapeSequence "91" ++ "error" ++ escapeSequence "39" ++ ": " ++ problem ++ "\n" }

/-- The outcome of a mistake in the arguments. -/
def UsageError.outcome (error : UsageError) : Outcome :=
  { code := 2, errors := "error: " ++ error.message ++ "\n" }

/-- The outcome of running the program with the given arguments. -/
def run (arguments : List String) (terminal : Bool) (files : Files) : Outcome :=
  match parse arguments with
  | .ok command => command.execute terminal files
  | .error error => error.outcome

end SolText.CommandLine
