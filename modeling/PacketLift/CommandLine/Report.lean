import PacketLift.Block.Walk
import PacketLift.CommandLine.Arguments
import PacketLift.Elf.Load
import PacketLift.Instruction.Lowering
import PacketLift.Settings.Sources
import PacketLift.Text.Terminal

/-!
# What the command line answers

The answer to a command line is a function of its arguments and of what the program finds around
it: settings, the environment, and the image.

## Main definitions

* `Surroundings`: what the program finds
* `Report`: what it writes, and whether it succeeds
* `respond`: the answer to a command line
-/

namespace PacketLift

/-- **What the program finds around it.** -/
structure Surroundings where
  /-- The directory of the user's settings. -/
  directory : Option String
  /-- The settings files that exist. -/
  files : List SettingsFile
  /-- The variables of the environment. -/
  environment : String → Option String
  /-- The bytes of the image, or why it cannot be read. -/
  image : Except String ByteArray

/-- **What the program writes**, and its exit status. -/
structure Report where
  status : Nat
  out : String
  err : String
  deriving DecidableEq, Repr

namespace Report

/-- Success. -/
def success (out err : String) : Report := { status := 0, out, err }

/-- Failure for a reason, behind what was written before it. -/
def failure (reason out err : String) : Report :=
  { status := 1, out, err := err ++ "Error: " ++ reason ++ "\n" }

end Report

/-! ## Messages -/

/-- The severity up to which messages are written. An unknown level silences all of them. -/
def logLevel (environment : String → Option String) : Option Severity :=
  match (environment "RUST_LOG").map String.toLower with
  | none => some .error
  | some "" => some .error
  | some "error" => some .error
  | some "warn" => some .warn
  | some "info" => some .info
  | some "debug" => some .debug
  | some "trace" => some .trace
  | some _ => none

/-- Lines of text, each with a line break behind it. -/
def asLines (lines : List String) : String := String.join (lines.map (· ++ "\n"))

/-- A message with the lines behind its first indented by four blanks. -/
def indented (message : String) : String := Text.joined "\n    " (message.splitOn "\n")

/-- A message as it is written: without terminal control sequences. One that is not finished goes
on into the line break behind the message, and not beyond. -/
def writtenLine (message : String) : String := Text.withoutControls (indented message ++ "\n")

/-- The messages that are written. -/
def written (level : Option Severity) (messages : List Message) : String :=
  match level with
  | some level => String.join ((Message.renderAll level messages).map writtenLine)
  | none => ""

/-! ## Blocks -/

/-- What is written about a block. -/
def Block.describe (b : Block) (index : Nat) (quiet : Bool) : List String :=
  let summary :=
    "Block #" ++ toString index ++ " " ++ Text.address b.entry.toNat ++ ".."
      ++ Text.address b.after.toNat ++ ": " ++ toString b.packets.length ++ " packets, "
      ++ toString b.words.toNat ++ " words, " ++ toString b.listing.size ++ " ops, exit "
      ++ b.exit.name
  let reordered := (b.packets.filter (·.closing.reordered)).map fun p =>
    "  packet " ++ Text.address p.pc.toNat ++ " reordered " ++ Text.numberList p.closing.order
  summary :: reordered ++ (if quiet then [] else b.listing.lines) ++ [""]

/-- What is written about a block that was executed. -/
def Executed.describe (e : Executed) (index : Nat) (quiet : Bool) : List String :=
  e.block.describe index quiet
    ++ e.outcome.traps.map fun number => "  trap0(#" ++ toString number.toNat ++ ")"

/-- The messages about a block that was executed. -/
def Executed.messages (e : Executed) : List Message :=
  e.outcome.messages
    ++ [⟨.debug,
        "block " ++ Text.address e.block.entry.toNat ++ ": " ++ toString e.outcome.executed
          ++ " ops executed, next " ++ Text.address e.cpu.pc.toNat⟩]

/-- The lines of all items, each with its place. -/
def describeAll {α : Type} (describe : α → Nat → List String) (items : List α) : List String :=
  (items.zipIdx.map fun (item, index) => describe item index).flatten

/-- What is written about instructions that are not known. -/
def unknownLines (count : Nat) : List String :=
  if count = 0 then []
  else [toString count ++ " unsupported instructions were translated as no-ops"]

/-! ## Images -/

/-- What is written about an image before its blocks. -/
def Image.describe (m : Image) (path : String) (entry : Word) : List String :=
  ("Loading: " ++ path) :: m.segments.map (fun s => "  " ++ s.text)
    ++ ["Entry: " ++ Text.address entry.toNat, ""]

/-- **Lift the blocks of an image**, and execute them if that is asked for. -/
def reportBlocks (level : Option Severity) (i : Invocation) (s : Settings) (path : String)
    (m : Image) (journal : List Message) : Report :=
  let entry := i.entry.getD m.entry
  let lift := liftReporting scalarCore s.liftOptions m.word?
  let session : Session Nat := { state := 0, journal := journal.toArray }
  let opening := m.describe path entry
  if i.run then
    let cpu := (Cpu.zeroed .packed).setPc entry
    let r := run lift Executed.messages s.blockLimit entry cpu session
    let stop := match r.fault with
      | some (pc, fault) => ["Stopped at " ++ Text.address pc.toNat ++ ": " ++ fault.message]
      | none => []
    .success
      (asLines
        (opening ++ describeAll (fun e index => e.describe index i.quiet) r.blocks ++ stop
          ++ ["Final state: " ++ r.cpu.text] ++ unknownLines r.session.state))
      (written level r.session.journal.toList)
  else
    let w := walk lift s.blockLimit entry session
    let blocks := opening ++ describeAll (fun b index => b.describe index i.quiet) w.blocks
    let err := written level w.session.journal.toList
    match w.fault with
    | some (pc, fault) =>
      .failure
        ("translating block at " ++ Text.address pc.toNat ++ "\n\nCaused by:\n    "
          ++ fault.message)
        (asLines blocks) err
    | none => .success (asLines (blocks ++ unknownLines w.session.state)) err

/-- **Load the image and lift its blocks.** -/
def reportImage (around : Surroundings) (i : Invocation) (path : String) : Report :=
  let level := logLevel around.environment
  let (found, messages) := Settings.load around.files around.environment
  let messages := messages ++ [⟨.debug, "effective configuration: " ++ found.text⟩]
  let s := found.overlay i.settings
  let format := if i.raw then ImageFormat.raw s.base else .auto
  match around.image with
  | .error reason =>
    .failure (LoadError.unreadable path reason).message "" (written level messages)
  | .ok data =>
    let loading : Message :=
      ⟨.info,
        "loading " ++ path ++ " (" ++ toString data.size ++ " bytes, " ++ format.text ++ ")"⟩
    let messages := messages ++ loading :: loadMessages data format
    match loadImage data format with
    | .error e => .failure e.message "" (written level messages)
    | .ok m => reportBlocks level i s path m messages

/-- What is written when a sample of a settings file is asked for. -/
def sampleText (directory : Option String) : String :=
  match directory with
  | some directory => "# " ++ Settings.userPath directory ++ "\n" ++ Settings.sample
  | none => Settings.sample

/-- **The answer to a command line.** -/
def respond (around : Surroundings) (arguments : List String) : Report :=
  match Invocation.parse {} arguments with
  | .error e => .failure e.message "" ""
  | .ok none => .success usage ""
  | .ok (some i) =>
    if i.sample then .success (sampleText around.directory) ""
    else
      match i.path with
      | none => .failure "no image given" "" usage
      | some path => reportImage around i path

end PacketLift
