import ComponentAbi.CommandLine.Run

/-!
# The program

The command line over the files of the machine.
-/

namespace ComponentAbi

/-- What a failed file operation is due to. -/
def FileError.ofSystem : IO.Error → FileError
  | .noFileOrDirectory .. => .notFound
  | .permissionDenied .. => .permissionDenied
  | .inappropriateType _ 20 _ => .notDirectory
  | .inappropriateType _ 21 _ => .isDirectory
  | .invalidArgument _ 36 _ => .nameTooLong
  | .userError _ => .notText
  | e => .other (toString e)

/-- Does something with the file or directory of a path. -/
def withFile {α : Type} (path : String) (step : IO α) : IO (Except FileError α) := do
  if path.contains (Char.ofNat 0) then return .error .zeroInPath
  match ← step.toBaseIO with
  | .ok a => return .ok a
  | .error e => return .error (.ofSystem e)

/-- The files of the machine. -/
def machineFiles : FileSystem IO where
  read path := withFile path (IO.FS.readFile path)
  list path := withFile path do
    let entries ← (← IO.FS.realPath path).readDir
    entries.toList.mapM fun entry => do
      let data ← entry.path.metadata
      return { name := entry.fileName, isFile := data.type == .file }
  append path text := withFile path do
    let handle ← IO.FS.Handle.mk path .append
    handle.putStr text

end ComponentAbi

/-- Runs the command line. -/
def main (arguments : List String) : IO UInt32 := do
  let environment ← IO.getEnv "WIT_CANON_CONFIG"
  let outcome ← ComponentAbi.CommandLine.run ComponentAbi.machineFiles environment arguments
  outcome.stdoutLines.forM IO.println
  outcome.stderrLines.forM IO.eprintln
  return UInt32.ofNat outcome.exitCode
