import Codegen.CommandLine.Arguments
import Codegen.Demo
import Codegen.Wasm.Json

namespace Codegen.CommandLine

/-- Why a file cannot be read or written. -/
inductive FileError where
  | notFound
  | notDirectory
  | isDirectory
  | nameTooLong
  | other (message : String)
  deriving DecidableEq, Repr

def FileError.message : FileError → String
  | .notFound => "No such file or directory (os error 2)"
  | .notDirectory => "Not a directory (os error 20)"
  | .isDirectory => "Is a directory (os error 21)"
  | .nameTooLong => "File name too long (os error 36)"
  | .other message => message

/-- Reading and writing whole files, on a disk or in a directory in memory. -/
structure Files (m : Type → Type) where
  read : String → m (Except FileError ByteArray)
  write : String → String → m (Except FileError Unit)

/-- What a run leaves behind, files apart. -/
structure Outcome where
  code : UInt32 := 0
  stdout : String := ""
  stderr : String := ""
  deriving DecidableEq, Repr

/-- Exit code of a request that cannot be carried out. -/
def failureCode : UInt32 := 1

/-- Exit code of arguments that make no request. -/
def usageCode : UInt32 := 2

def versionText : String := "birc 0.1.0\n"

def usageText : String :=
  "Usage: birc demo [--name NAME] [--target TARGET] [--no-header] [--output FILE]\n" ++
  "       birc wat INPUT [--output FILE]\n"

def failed (activity message : String) : Outcome :=
  { code := failureCode, stderr := "Error " ++ activity ++ ": " ++ message ++ "\n" }

/-- Text of a demo compiled for a target. -/
def demoText (name : String) (options : Options) : Except Diagnostic String := do
  let (program, n) ← Demo.build name
  (program.compile options n).1

/-- A failure to load a module description, as a diagnostic. -/
def loadDiagnostic : Wasm.LoadError → Diagnostic
  | .unreadable fault => .invalidInput fault.message
  | .badName e => e.diagnostic none

/-- Text of the module that a file describes. -/
def watText (bytes : ByteArray) : Except String String :=
  match String.fromUTF8? bytes with
  | none => .error "stream did not contain valid UTF-8"
  | some text =>
    match Wasm.load text with
    | .ok m => .ok m.text
    | .error e => .error (loadDiagnostic e).text

variable {m : Type → Type} [Monad m]

/-- Prints a text or writes it to a file. Nothing is written when there is no text. -/
def deliver (files : Files m) (activity : String) (output : Option String)
    (text : Except String String) : m Outcome := do
  match text, output with
  | .error message, _ => return failed activity message
  | .ok text, none => return { stdout := text }
  | .ok text, some path =>
    match ← files.write path text with
    | .ok () => return {}
    | .error e => return failed activity e.message

/-- Carries out a request. -/
def Request.run (files : Files m) : Request → m Outcome
  | .version => return { stdout := versionText }
  | .help => return { stdout := usageText }
  | .demo name options output =>
    deliver files "compiling demo" output ((demoText name options).mapError Diagnostic.text)
  | .wat input output => do
    match ← files.read input with
    | .ok bytes => deliver files "emitting WAT" output (watText bytes)
    | .error e => return failed "emitting WAT" e.message

/-- Runs the command line. -/
def run (files : Files m) (args : List String) : m Outcome :=
  match request args with
  | .ok r => r.run files
  | .error e => return { code := usageCode, stderr := "error: " ++ e.message ++ "\n" ++ usageText }

end Codegen.CommandLine
