import CrossCompiler.CommandLine.Program

/-!
# The executable

One executable holds both programs and is told apart by the name under which it is
called.  It reads the files that the program can come upon, runs the program on them, and carries
out what the program changed.
-/

namespace CrossCompiler
namespace Executable

/-- Bytes as the string that names a file. -/
def toText (s : Bytes) : String := String.ofList (Utf8.toChars s)

/-- The value of an environment variable, empty if it is not set. -/
def lookupEnv (name : String) : IO Bytes := do
  return text ((← IO.getEnv name).getD "")

/-- The files at and below a directory entry. -/
partial def gather (above : Bytes) (entry : IO.FS.DirEntry) : IO (List (Bytes × Bytes)) := do
  let path := above ++ text entry.fileName
  if ← entry.path.isDir then
    let below ← (← entry.path.readDir).toList.mapM (gather (path ++ [Path.slash]))
    return (path ++ [Path.slash], []) :: below.flatten
  else
    return [(path, (← IO.FS.readBinFile entry.path).toList)]

/-- The files of a directory, given from the root.  One that cannot be listed holds none. -/
def listing (directory : Bytes) : IO (List (Bytes × Bytes)) := do
  try
    let entries ← ((← IO.currentDir) / toText directory).readDir
    let found ← entries.toList.mapM fun entry => do
      let path := directory ++ Path.slash :: text entry.fileName
      match (← entry.path.metadata).type with
      | .dir => return [(path ++ [Path.slash], [])]
      | .file => return [(path, (← IO.FS.readBinFile entry.path).toList)]
      | _ => return []
    return (directory ++ [Path.slash], []) :: found.flatten
  catch _ => return []

/-- Carries out the changes from one tree to another. -/
def store (before after : FileTree) : IO Unit := do
  let path (place : FileTree.Place) : String :=
    toText (Path.slash :: Bytes.join [Path.slash] place)
  for (place, entry) in before.entries do
    if (after.lookup? place).isNone then
      match entry with
      | .directory => IO.FS.removeDir (path place)
      | _ => IO.FS.removeFile (path place)
  for (place, entry) in after.entries do
    match entry with
    | .file content =>
      if before.lookup? place ≠ some entry then
        IO.FS.writeBinFile (path place) ⟨content.toArray⟩
    | _ => pure ()

/-- Runs a program in the working directory, on the files below it and on those that stand beside
what the arguments name. -/
def run (program : Program) (args : List String) : IO UInt32 := do
  let directory ← IO.currentDir
  let home := Path.elements (text directory.toString)
  let env : Program.Environment :=
    { logLevel := ← lookupEnv "RCC_LOG"
      toolchain := ← lookupEnv "RCC_TOOLCHAIN"
      sandboxImage := ← lookupEnv "RCC_SANDBOX_IMAGE"
      daemonHost := ← lookupEnv "DOCKER_HOST" }
  -- A path may be an argument of its own or stand behind the name of a flag.
  let named := env.toolchain :: (args.map text).flatMap fun arg =>
    arg :: ((Bytes.cut? (ascii '=') arg).map Prod.snd).toList
  let outside ← named.mapM fun path =>
    listing (Path.absolute (text directory.toString) (Path.directory path))
  let inside ← (← directory.readDir).toList.mapM (gather [])
  let before := FileTree.ofList (outside.flatten ++ inside.flatten) home
  let finished := program.run env (args.map text) before
  store before finished.files
  (← IO.getStdout).write ⟨finished.stdout.toArray⟩
  (← IO.getStderr).write ⟨finished.stderr.toArray⟩
  return UInt32.ofNat finished.code.toNat

end Executable
end CrossCompiler

/-- Runs the front end if called `rcc1`, and the driver otherwise. -/
def main (args : List String) : IO UInt32 := do
  let name := (← IO.appPath).fileName
  CrossCompiler.Executable.run (if name = some "rcc1" then .frontEnd else .driver) args
