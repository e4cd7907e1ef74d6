import Codegen.CommandLine.Run

namespace Codegen.CommandLine

/-- Whether a code stands for the error of a number. Some operations report the number negated. -/
def isErrorCode (number code : UInt32) : Bool :=
  code == number || code == 0 - number

/-- The cause of a failure that the system reports. -/
def fileError : IO.Error → FileError
  | .noFileOrDirectory .. => .notFound
  | .inappropriateType _ code _ => if isErrorCode 20 code then .notDirectory else .isDirectory
  | .invalidArgument file code details =>
    if isErrorCode 36 code then .nameTooLong
    else .other (toString (IO.Error.invalidArgument file code details))
  | e => .other (toString e)

/-- File operations on the disk. -/
def diskFiles : Files IO where
  read path := do
    try return .ok (← IO.FS.readBinFile path)
    catch e => return .error (fileError e)
  write path text := do
    try
      IO.FS.writeFile path text
      return .ok ()
    catch e => return .error (fileError e)

end Codegen.CommandLine

open Codegen.CommandLine in
def main (args : List String) : IO UInt32 := do
  let outcome ← run diskFiles args
  IO.print outcome.stdout
  IO.eprint outcome.stderr
  return outcome.code
