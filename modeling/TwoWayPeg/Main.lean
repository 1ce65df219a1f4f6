import TwoWayPeg.Inspection
import TwoWayPeg.Store.File

/-!
# The command-line tool

Reads the environment, a file of settings and the file of the store, and prints what
`TwoWayPeg.Inspection` makes of them. The settings file is the nearest one named `.env`, in the
working directory or in a directory above it.
-/

namespace TwoWayPeg.Inspection

/-- The variables of the environment that are settings or are spoken of in a settings file. -/
def readEnvironment (file : String) : IO SettingsFile.Variables :=
  (Setting.all ++ SettingsFile.words file).filterMapM fun name =>
    do return (← IO.getEnv name).map fun value => (name, value)

/-- The text of the nearest settings file, at most `levels` directories up. -/
def readSettingsFile (levels : Nat) (above : String) : IO String := do
  match ← (IO.FS.readFile (above ++ ".env")).toBaseIO, levels with
  | .ok text, _ => return text
  | .error _, 0 => return ""
  | .error _, levels + 1 => readSettingsFile levels ("../" ++ above)

/-- Makes a file with an empty store, and the directory for it if need be. -/
def createStore (path : String) : IO Unit := do
  let directory := "/".intercalate (path.splitOn "/").dropLast
  if !directory.isEmpty then IO.FS.createDirAll directory
  IO.FS.writeBinFile path (ByteArray.mk StoreFile.empty.toArray)

/-- The store at a path, which is made if there is none. -/
def openStore (path : String) : IO (Except StorageError Store) := do
  match ← (IO.FS.readBinFile path).toBaseIO with
  | .ok file => return StoreFile.read file
  | .error (.noFileOrDirectory _ _ _) =>
    match ← (createStore path).toBaseIO with
    | .ok () => return .ok .empty
    | .error e => return .error (.connection (toString e))
  | .error e => return .error (.connection (toString e))

/-- Runs the tool. -/
def runTool (args : List String) : IO Outcome := do
  let levels := ((← IO.currentDir).toString.splitOn "/").length
  let file ← readSettingsFile levels ""
  let settings := layered (← readEnvironment file) file
  match prepare args settings with
  | .error outcome => return outcome
  | .ok (command, config) => return present command config (← openStore config.storePath)

end TwoWayPeg.Inspection

/-- Writes what the tool has to say, line by line, and leaves with its exit code. -/
def main (args : List String) : IO UInt32 := do
  let outcome ← TwoWayPeg.Inspection.runTool args
  for line in outcome.output do IO.println line
  for line in outcome.errors do IO.eprintln line
  return outcome.exitCode
