import Codegen.Program

namespace Codegen.CommandLine

/-- What is wrong with the arguments. -/
inductive UsageError where
  | noCommand
  | unknownCommand (arg : String)
  | unexpectedArgument (arg : String)
  | missingValue (option : String)
  | unneededValue (option : String)
  | repeated (option : String)
  | unknownTarget (name : String)
  | emptyPath (option : String)
  | missingInput
  deriving DecidableEq, Repr

def UsageError.message : UsageError → String
  | .noCommand => "a command is required"
  | .unknownCommand arg => "unknown command '" ++ arg ++ "'"
  | .unexpectedArgument arg => "unexpected argument '" ++ arg ++ "'"
  | .missingValue option => "a value is required for '--" ++ option ++ "'"
  | .unneededValue option => "no value is allowed for '--" ++ option ++ "'"
  | .repeated option => "'--" ++ option ++ "' is given more than once"
  | .unknownTarget name => (Diagnostic.unknownTarget name).text
  | .emptyPath option => "the path for '" ++ option ++ "' is empty"
  | .missingInput => "an input file is required"

/-- What the user asks for. -/
inductive Request where
  | version
  | help
  /-- Compile a demo; the output goes to a file or is printed. -/
  | demo (name : String) (options : Options) (output : Option String)
  /-- Load a module description from a file and write its text. -/
  | wat (input : String) (output : Option String)
  deriving DecidableEq, Repr

/-- An option of a command: its long name, the letter that may stand for it, and whether a value
belongs to it. -/
structure Switch where
  long : String
  short : Option Char := none
  takesValue : Bool := true
  deriving DecidableEq, Repr

/-- What a command takes: its options, and whether an input file. -/
structure Grammar where
  switches : List Switch
  takesInput : Bool
  deriving DecidableEq, Repr

/-- A part of the arguments after the command. -/
inductive Item where
  | option (long : String) (value : Option String)
  | positional (value : String)
  | failure (e : UsageError)
  deriving DecidableEq, Repr

/-- An argument split at its first equals sign. -/
def splitValue (cs : List Char) : String × Option String :=
  match cs.dropWhile (· != '=') with
  | [] => (String.ofList cs, none)
  | _ :: value => (String.ofList (cs.takeWhile (· != '=')), some (String.ofList value))

/-- An argument that cannot be the value of an option before it. -/
def looksLikeOption (arg : String) : Bool :=
  match arg.toList with
  | '-' :: _ :: _ => true
  | _ => false

/-- An argument that is no option. -/
def Grammar.plain (g : Grammar) (arg : String) : Item :=
  if g.takesInput then .positional arg else .failure (.unexpectedArgument arg)

/-- The parts of the arguments. A long option has its value behind an equals sign or in the next
argument, a short one also right behind its letter. After two dashes everything is positional, and
after a failure nothing is looked at. -/
def items (g : Grammar) : List String → List Item
  | [] => []
  | arg :: rest =>
    match arg.toList with
    | ['-', '-'] => rest.map g.plain
    | '-' :: '-' :: long =>
      let (name, value) := splitValue long
      match g.switches.find? fun s => s.long == name with
      | none => [.failure (.unexpectedArgument arg)]
      | some switch =>
        match switch.takesValue, value with
        | true, some value => .option name (some value) :: items g rest
        | true, none =>
          match rest with
          | [] => [.failure (.missingValue name)]
          | value :: rest =>
            if looksLikeOption value then [.failure (.missingValue name)]
            else .option name (some value) :: items g rest
        | false, some _ => [.failure (.unneededValue name)]
        | false, none => .option name none :: items g rest
    | '-' :: letter :: attached =>
      match g.switches.find? fun s => s.short == some letter with
      | none => [.failure (.unexpectedArgument arg)]
      | some switch =>
        match switch.takesValue, attached with
        | true, [] =>
          match rest with
          | [] => [.failure (.missingValue switch.long)]
          | value :: rest =>
            if looksLikeOption value then [.failure (.missingValue switch.long)]
            else .option switch.long (some value) :: items g rest
        | true, '=' :: value | true, value =>
          .option switch.long (some (String.ofList value)) :: items g rest
        | false, _ => .option switch.long none :: items g rest
    | _ => g.plain arg :: items g rest

/-- Values given so far. -/
structure Settings where
  name : Option String := none
  target : Option Target := none
  noHeader : Bool := false
  output : Option String := none
  input : Option String := none
  deriving DecidableEq, Repr

/-- What ends the interpretation of the arguments. -/
inductive Stop where
  | help
  | usage (e : UsageError)
  deriving DecidableEq, Repr

/-- A path may not be empty. -/
def checkPath (what path : String) : Except Stop Unit :=
  if path.isEmpty then .error (.usage (.emptyPath what)) else .ok ()

/-- An option may be given once. -/
def checkOnce (option : String) (given : Bool) : Except Stop Unit :=
  if given then .error (.usage (.repeated option)) else .ok ()

/-- Takes one part of the arguments into account. -/
def Settings.apply (s : Settings) : Item → Except Stop Settings
  | .option "name" (some name) => do
    checkOnce "name" s.name.isSome
    return { s with name := some name }
  | .option "target" (some name) => do
    checkOnce "target" s.target.isSome
    match Target.ofName? name with
    | some target => return { s with target := some target }
    | none => throw (.usage (.unknownTarget name))
  | .option "output" (some path) => do
    checkOnce "output" s.output.isSome
    checkPath "output" path
    return { s with output := some path }
  | .option "no-header" none => do
    checkOnce "no-header" s.noHeader
    return { s with noHeader := true }
  | .option "help" none => .error .help
  | .option long _ => .error (.usage (.unexpectedArgument long))
  | .positional path => do
    checkPath "input" path
    if s.input.isSome then throw (.usage (.unexpectedArgument path))
    return { s with input := some path }
  | .failure e => .error (.usage e)

/-- Options of every command. -/
def commonSwitches : List Switch :=
  [{ long := "output", short := some 'o' },
    { long := "help", short := some 'h', takesValue := false }]

def demoGrammar : Grammar where
  switches := [{ long := "name", short := some 'n' }, { long := "target", short := some 't' },
    { long := "no-header", takesValue := false }] ++ commonSwitches
  takesInput := false

def watGrammar : Grammar where
  switches := commonSwitches
  takesInput := true

/-- The demo compiled when none is named. -/
def defaultDemo : String := "aggregate"

def demoRequest (args : List String) : Except Stop Request := do
  let s ← (items demoGrammar args).foldlM Settings.apply {}
  let options : Options := { target := s.target.getD default, header := !s.noHeader }
  return .demo (s.name.getD defaultDemo) options s.output

def watRequest (args : List String) : Except Stop Request := do
  let s ← (items watGrammar args).foldlM Settings.apply {}
  match s.input with
  | some input => return .wat input s.output
  | none => throw (.usage .missingInput)

/-- Help is given on the whole or on one command. -/
def helpRequest : List String → Except Stop Request
  | [] | ["demo"] | ["wat"] | ["help"] => .error .help
  | "demo" :: arg :: _ | "wat" :: arg :: _ | "help" :: arg :: _ | arg :: _ =>
    .error (.usage (.unknownCommand arg))

/-- The request that arguments make. -/
def request (args : List String) : Except UsageError Request :=
  let result : Except Stop Request := match args with
    | [] => .error (.usage .noCommand)
    | "demo" :: rest => demoRequest rest
    | "wat" :: rest => watRequest rest
    | "help" :: rest => helpRequest rest
    | "--help" :: _ => .error .help
    | "--version" :: _ => .ok .version
    | arg :: _ =>
      match arg.toList with
      | '-' :: 'V' :: _ => .ok .version
      | '-' :: 'h' :: _ => .error .help
      | _ => .error (.usage (.unknownCommand arg))
  match result with
  | .ok r => .ok r
  | .error .help => .ok .help
  | .error (.usage e) => .error e

end Codegen.CommandLine
