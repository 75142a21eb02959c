import Interdoc.CommandLine.Execution

/-!
# The program

Reads and writes the files that requests are about, prints what they print, and ends with their
code.
-/

open Interdoc CommandLine

/-- A failure of the operating system as a fault. -/
def faultOf : IO.Error → FileFault
  | .noFileOrDirectory .. => .notFound
  | .permissionDenied .. => .notPermitted
  | .inappropriateType .. => .isDirectory
  | e => .other (toString e)

/-- The files of the operating system. -/
def systemFiles : Files IO where
  read path := do
    try
      return .ok (← IO.FS.readBinFile path).data.toList
    catch e => return .error (faultOf e)
  write path content := do
    try
      IO.FS.writeBinFile path ⟨content.toArray⟩
      return .ok ()
    catch e => return .error (faultOf e)

def main (arguments : List String) : IO UInt32 := do
  let outcome ← (Request.ofArguments arguments).execute systemFiles
  let stdout ← IO.getStdout
  stdout.write ⟨outcome.output.toArray⟩
  stdout.flush
  (← IO.getStderr).putStr outcome.diagnostics
  return outcome.code.toUInt32
