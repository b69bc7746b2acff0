import WordMachine.Inspector.Report

/-!
The inspector as a program: gathers arguments, environment and files, and prints the report.
-/

namespace WordMachine.Inspector

/-- A path and the bytes behind it. -/
def readPath (path : String) : IO (String × Except FileFault (List UInt8)) := do
  match ← (IO.FS.readBinFile path).toBaseIO with
  | .ok bytes => return (path, .ok bytes.toList)
  | .error (.noFileOrDirectory _ _ _) => return (path, .error .missing)
  | .error (.inappropriateType _ 20 _) => return (path, .error .notDirectory)
  | .error (.inappropriateType _ 21 _) => return (path, .error .isDirectory)
  | .error (.invalidArgument _ 36 _) => return (path, .error .longName)
  | .error e => return (path, .error (.other e.toString))

end WordMachine.Inspector

open WordMachine

def main (args : List String) : IO UInt32 := do
  let env : Inspector.Environment := {
    image := ← IO.getEnv "SYN_VM_IMAGE"
    textImage := ← IO.getEnv "SYN_VM_TEXT_IMAGE" }
  match Inspector.read env args with
  | .error usage =>
    if usage.exitCode = 0 then IO.println usage.message else IO.eprintln usage.message
    return UInt32.ofNat usage.exitCode
  | .ok invocation =>
    let read ← invocation.command.paths.mapM Inspector.readPath
    let files : Inspector.Files := fun path => (read.lookup path).getD (.error .missing)
    let answer := Inspector.report files (← (← IO.getStdout).isTty) invocation
    match answer with
    | .ok out => IO.print out
    | .error failure => IO.eprintln failure.message
    return UInt32.ofNat (Inspector.exitCode answer)
