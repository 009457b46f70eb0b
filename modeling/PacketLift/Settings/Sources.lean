import PacketLift.Settings.Basic
import PacketLift.Text.Quoted
import PacketLift.Word.Literal

/-!
# Where settings come from

Settings come from a file of the user, a file in the working directory, and variables of the
environment; each of these is put on top of those before it. A file that cannot be used is left
out, and so is a variable that is no number. Both are reported.

## Main definitions

* `SettingsFile`: a file with its path
* `Settings.load`: the settings of all sources
-/

namespace PacketLift

/-- A file of settings that exists. -/
structure SettingsFile where
  path : String
  contents : ByteArray

namespace Settings

/-- The name of the file in the working directory. -/
def localPath : String := "hexagon-dbt.toml"

/-- The path of the user's file inside of the directory for such files. -/
def userPath (directory : String) : String := directory ++ "/hexagon-dbt/config.toml"

/-- The settings in a file, if it can be used, and what is reported about it. -/
def ofFile? (file : SettingsFile) : Option Settings × Message :=
  match String.fromUTF8? file.contents with
  | none => (none, ⟨.warn, "cannot read " ++ file.path⟩)
  | some text =>
    match ofToml? text with
    | none => (none, ⟨.warn, "ignoring " ++ file.path⟩)
    | some settings => (some settings, ⟨.info, "using config layer " ++ file.path⟩)

/-- The settings with a file put on top. -/
def withFile (state : Settings × List Message) (file : SettingsFile) :
    Settings × List Message :=
  let (layer, message) := ofFile? file
  (state.1.overlay (layer.getD {}), state.2 ++ [message])

/-- The variables of the environment, and the setting that each stands for. -/
def environmentNames : List (String × (Nat → Settings)) :=
  [("HEXAGON_DBT_MAX_PACKETS", fun n => { maxPackets := some n }),
    ("HEXAGON_DBT_MAX_BLOCKS", fun n => { maxBlocks := some n }),
    ("HEXAGON_DBT_LOAD_BASE", fun n => { loadBase := some n })]

/-- The settings with a variable of the environment put on top. -/
def withVariable (environment : String → Option String) (state : Settings × List Message)
    (source : String × (Nat → Settings)) : Settings × List Message :=
  let (name, setting) := source
  match environment name with
  | none => state
  | some raw =>
    match Word.ofLiteral? raw with
    | some n =>
      (state.1.overlay (setting n.toNat),
        state.2 ++ [⟨.info, "Using " ++ name ++ " from environment: " ++ raw⟩])
    | none =>
      (state.1,
        state.2 ++ [⟨.warn, "Ignoring " ++ name ++ "=" ++ Text.quoted raw ++ ": not a number"⟩])

/-- **The settings of all sources**, files first, in the order in which they are given. -/
def load (files : List SettingsFile) (environment : String → Option String) :
    Settings × List Message :=
  environmentNames.foldl (withVariable environment) (files.foldl withFile ({}, []))

end Settings

end PacketLift
