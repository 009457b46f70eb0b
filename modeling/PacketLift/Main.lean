import PacketLift.CommandLine.Report

/-!
# The command line

Reads what the answer to a command line depends on, and writes the answer.
-/

namespace PacketLift.Main

/-- The bytes of a file, or why it cannot be read. -/
def readBytes (path : String) : IO (Except String ByteArray) :=
  try
    return .ok (← IO.FS.readBinFile path)
  catch
    | .noFileOrDirectory .. => return .error "No such file or directory (os error 2)"
    | e => return .error (toString e)

/-- The file at a path, if it exists. -/
def settingsFile? (path : String) : IO (Option SettingsFile) := do
  match ← readBytes path with
  | .ok contents => return some { path, contents }
  | .error _ => return none

/-- The directory of the user's settings. -/
def userDirectory? : IO (Option String) := do
  let home := (← IO.getEnv "HOME").map (· ++ "/.config")
  match ← IO.getEnv "XDG_CONFIG_HOME" with
  | some path => return if path.toList.head? = some '/' then some path else home
  | none => return home

/-- The names of all variables that matter. -/
def variableNames : List String := "RUST_LOG" :: Settings.environmentNames.map Prod.fst

/-- Read what the answer depends on. -/
def surroundings (arguments : List String) : IO Surroundings := do
  let directory ← userDirectory?
  let user ← match directory with
    | some directory => settingsFile? (Settings.userPath directory)
    | none => pure none
  let here ← settingsFile? Settings.localPath
  let found ← variableNames.filterMapM fun name => do
    return (← IO.getEnv name).map fun value => (name, value)
  let image ← readBytes ((imagePath? arguments).getD "")
  return {
    directory
    files := user.toList ++ here.toList
    environment := fun name => found.lookup name
    image }

end PacketLift.Main

/-- Answer the command line. -/
def main (arguments : List String) : IO UInt32 := do
  let report := PacketLift.respond (← PacketLift.Main.surroundings arguments) arguments
  IO.print report.out
  IO.eprint report.err
  return UInt32.ofNat report.status
