import Ferrotype.Command.Arguments
import Ferrotype.Options.File
import Ferrotype.Output.Settings
import Ferrotype.Session

/-!
# Runs of the command

A run is a function of its arguments, the files that it can reach and its standard input.
-/

namespace Ferrotype.Command

inductive RunFault where
  | notFile (input : String)
  | options (fault : OptionsFault)
  | decoding (fault : Text.Utf8Fault)
  | extract (error : ExtractError)
  | unwritable (path : String) (fault : FileFault)
  | unprintable (fault : EncodeFault)
  deriving Repr, DecidableEq

def RunFault.message : RunFault → String
  | notFile input => input ++ " is not a valid file"
  | options fault => fault.message
  | decoding fault => fault.message
  | extract error => error.message
  | unwritable path fault => "cannot write " ++ path ++ ": " ++ fault.message
  | unprintable fault => "failed to write output: " ++ fault.message

/-- What no part of a run handles. -/
inductive Escape where
  | tooManyDigits (count : Nat)
  | encoding (fault : EncodeFault)
  deriving Repr, DecidableEq

def Escape.message : Escape → String
  | tooManyDigits count => "ValueError: " ++ Text.tooManyDigits count
  | encoding fault => "UnicodeEncodeError: " ++ fault.message

/-- Where a run breaks off, the trace that follows on standard error is no part of the outcome. -/
structure Outcome where
  code : Nat
  stdout : String
  stderr : String
  files : Files
  escape : Option Escape := none

/-! ## Options -/

/-- The settings of a file, or the defaults, with what the arguments put in their place. -/
def Arguments.override (a : Arguments) (o : RenderSettings) : RenderSettings where
  namespaceName := a.namespaceName.map .ofString <|> o.namespaceName
  preamble := if a.noPreamble then none else a.preamble.map .ofString <|> o.preamble
  sumTypes := a.sumTypes || o.sumTypes
  sortAlphabetically := a.sort || o.sortAlphabetically

def Arguments.configuration (a : Arguments) (files : Files) :
    Except OptionsFault Configuration := do
  let o ← match a.config with
    | none | some "" => .ok {}
    | some path => Configuration.load files path
  return { o with render := a.override o.render }

/-! ## Input and output -/

/-- The text of the input; `-` is standard input. -/
def readInput (files : Files) (stdin : List UInt8) (input : String) :
    Except RunFault String := do
  let bytes ←
    if input = "-" then pure stdin
    else (files.read (Path.ofString input).toText).mapError fun _ => .notFile input
  let text ← (textOfBytes bytes).mapError .decoding
  return String.ofList text

inductive Sink where
  | stdout
  | file (path : Path)
  deriving Repr, DecidableEq

/-- Where the output goes. An empty output path is none. -/
def Arguments.sink (a : Arguments) (input : String) : Sink :=
  match a.stdout, a.output with
  | true, _ => .stdout
  | false, none | false, some "" =>
    if input = "-" then .stdout else .file ((Path.ofString input).withSuffix ".ts")
  | false, some path => .file (Path.ofString path)

def Arguments.paths (a : Arguments) : List Path :=
  let input := a.input.getD ""
  let output :=
    match a.sink input with
    | .stdout => []
    | .file path => [path]
  Path.ofString input :: a.config.toList.map Path.ofString ++ output

def bytesOf (text : String) : List UInt8 := text.toUTF8.toList

/-! ## Ends of runs -/

def failed (files : Files) (report : String) (fault : RunFault) : Outcome :=
  ⟨1, "", report ++ "Error: " ++ fault.message ++ "\n", files, none⟩

def brokenOff (files : Files) (report : String) (escape : Escape) : Outcome :=
  ⟨1, "", report, files, some escape⟩

/-- Sends a text to its place, behind a report of the notices. -/
def send (files : Files) (report text : String) : Sink → Outcome
  | .stdout => ⟨0, text, report, files, none⟩
  | .file path =>
    match files.write path (bytesOf text) with
    | .error fault => failed files report (.unwritable path.toText fault)
    | .ok files => ⟨0, "Written: " ++ path.toText ++ "\n", report, files, none⟩

/-- Ends a run whose output is no text. A file is emptied before that is found. -/
def refuseOutput (files : Files) (report : String) (fault : EncodeFault) : Sink → Outcome
  | .stdout => failed files report (.unprintable fault)
  | .file path =>
    match files.write path [] with
    | .error fault => failed files report (.unwritable path.toText fault)
    | .ok files => brokenOff files report (.encoding fault)

/-! ## Runs -/

/-- The run behind the reading of its input: output, and a report of the notices before it. -/
def convert (a : Arguments) (o : Configuration) (files : Files) (input source : String) :
    Outcome :=
  let run := (extract o.extract source).run
  match run.value with
  | .error (.tooManyDigits count) => brokenOff files "" (.tooManyDigits count)
  | .error error => failed files "" (.extract error)
  | .ok schema =>
    let report := Report.print a.verbose run.notices
    match (Output.moduleOf o.render schema).encode with
    | .ok text => send files report text (a.sink input)
    | .error fault => refuseOutput files report fault (a.sink input)

def runWith (a : Arguments) (files : Files) (stdin : List UInt8) (input : String) : Outcome :=
  if input ≠ "-" ∧ !files.isFile (Path.ofString input) then failed files "" (.notFile input)
  else match a.configuration files with
    | .error (.tooManyDigits count) => brokenOff files "" (.tooManyDigits count)
    | .error fault => failed files "" (.options fault)
    | .ok o =>
      match readInput files stdin input with
      | .error fault => failed files "" fault
      | .ok source => convert a o files input source

def usage : String :=
  "usage: rs2ts [-h] [-o OUTPUT] [--stdout] [--namespace NS] [--preamble TEXT | --no-preamble] " ++
    "[--sum-types] [--sort] [--config FILE] [-v] input\n"

def run (edition : Edition) (argv : List String) (files : Files) (stdin : List UInt8) : Outcome :=
  match readArguments edition argv with
  | .error fault => ⟨2, "", "rs2ts: error: " ++ fault.message ++ "\n", files, none⟩
  | .ok a =>
    if a.help then ⟨0, usage, "", files, none⟩ else runWith a files stdin (a.input.getD "")

end Ferrotype.Command
