import PacketLift.Block.Lift
import PacketLift.Toml.Document

/-!
# Settings

How much is lifted, and where flat images go. Each setting may be left open; then its default
holds.

## Main definitions

* `Settings`, `Settings.overlay`: settings, and settings put on top of others
* `Settings.packetBudget`, `Settings.blockLimit`, `Settings.base`: the values that hold
* `Settings.ofToml?`: settings in a TOML file
* `Settings.sample`: a file that shows all of them
-/

namespace PacketLift

/-- **Settings**, each of which may be left open. -/
structure Settings where
  /-- The largest number of packets in a block. -/
  maxPackets : Option Nat := none
  /-- The largest number of blocks in a run. -/
  maxBlocks : Option Nat := none
  /-- The address of flat images. -/
  loadBase : Option Nat := none
  deriving DecidableEq, Repr

namespace Settings

/-- The number of packets in a block that holds: at least one. -/
def packetBudget (s : Settings) : Nat := max (s.maxPackets.getD 512) 1

/-- The number of blocks in a run that holds. -/
def blockLimit (s : Settings) : Nat := s.maxBlocks.getD 64

/-- The address of flat images that holds. -/
def base (s : Settings) : Word := BitVec.ofNat 32 (s.loadBase.getD 0)

/-- The options for lifting. -/
def liftOptions (s : Settings) : LiftOptions := { maxPackets := s.packetBudget }

/-- The settings with all that `upper` sets put on top. -/
def overlay (s upper : Settings) : Settings where
  maxPackets := upper.maxPackets <|> s.maxPackets
  maxBlocks := upper.maxBlocks <|> s.maxBlocks
  loadBase := upper.loadBase <|> s.loadBase

/-- The settings as text. -/
def text (s : Settings) : String :=
  Text.record "Config"
    [("max_packets_per_block", Text.optional (s.maxPackets.map toString)),
      ("max_blocks", Text.optional (s.maxBlocks.map toString)),
      ("load_base", Text.optional (s.loadBase.map toString))]

/-- One setting in a file: left open, or an integer that fits into a word. Anything else is
refused. -/
def entry? (d : Toml.Document) (name : String) : Option (Option Nat) :=
  match d.find? name with
  | none => some none
  | some (.value (.integer n)) => if 0 ≤ n ∧ n < 0x100000000 then some (some n.toNat) else none
  | some _ => none

/-- **The settings in a TOML file.** What the file defines under other names does not matter. -/
def ofToml? (text : String) : Option Settings := do
  let d ← Toml.Document.read? text
  return {
    maxPackets := ← entry? d "max_packets_per_block"
    maxBlocks := ← entry? d "max_blocks"
    loadBase := ← entry? d "load_base" }

/-- A file that shows all settings. -/
def sample : String :=
  "# hexagon-dbt configuration\n"
    ++ "# Place this file at ~/.config/hexagon-dbt/config.toml or ./hexagon-dbt.toml\n"
    ++ "\n"
    ++ "# Stop a translation block after this many packets (default 512)\n"
    ++ "max_packets_per_block = 512\n"
    ++ "\n"
    ++ "# Blocks translated per command-line run (default 64)\n"
    ++ "# max_blocks = 64\n"
    ++ "\n"
    ++ "# Load address of raw images given with --raw (default 0)\n"
    ++ "# load_base = 0x0\n"

end Settings

end PacketLift
