import RaisingEffects.CommandLine.Run

/-!
# The program

Reads the files that the arguments name, runs the command line on them and writes what it says.
-/

namespace RaisingEffects

namespace CommandLine

def usageText : String :=
  "usage: raisecheck [-h] [--config CONFIG] [--set KEY=VALUE] [--policy POLICY]\n" ++
  "                  [--log-config LOG_CONFIG] [-v] command ...\n\n" ++
  "commands:\n" ++
  "  check [--format FORMAT] sources ...  report effect diagnostics for source files\n" ++
  "  effects source                       print the resolved effect of every function\n"

def look (path : Path) : IO Found := do
  try
    return .file (← IO.FS.readBinFile path.text).toList
  catch e =>
    match e with
    | .inappropriateType _ 21 _ => return .directory
    | .invalidArgument _ code _ =>
      return if code = 36 || code = 0 - 36 then .tooLong else .nothing
    | _ => return .nothing

def findIn (followed : List (Path × Found)) (path : Path) : Found :=
  (followed.lookup path).getD .nothing

def Writing.save (w : Writing) : IO Unit := do
  let file ← IO.FS.Handle.mk w.file.path.text (if w.file.isNew then .write else .append)
  file.putStr w.text

def runInFileSystem (args : List String) : IO UInt32 := do
  let paths := match Invocation.read args with
    | .ok i => i.paths
    | .error _ => []
  let followed ← paths.mapM fun path => do return (path, ← look path)
  let (output, ending) := run (findIn followed) args
  IO.print output.out
  IO.eprint output.err
  output.files.forM Writing.save
  match ending with
  | .exit code => return code.toUInt32
  | .help =>
    IO.print usageText
    return 0
  | .refused message =>
    IO.eprint usageText
    IO.eprintln message
    return 2
  | .failed failure =>
    IO.eprintln failure.message
    return 1

end CommandLine

end RaisingEffects

def main (args : List String) : IO UInt32 := RaisingEffects.CommandLine.runInFileSystem args
