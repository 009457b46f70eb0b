import PacketLift.Settings.Basic
import PacketLift.Text.Quoted
import PacketLift.Word.Literal

/-!
# Arguments

What a command line asks for. Options may stand in any order around the path of the image; of an
option given twice the last counts, and numbers given here go before all other settings.

## Main definitions

* `Invocation`: the options and the path
* `ArgumentError`: why arguments cannot be taken
* `Invocation.parse`: the options in a list of arguments
-/

namespace PacketLift

/-- How the program is used. -/
def usage : String :=
  "Usage: hexagon-dbt <image> [options]\n"
    ++ "       hexagon-dbt --sample-config\n"
    ++ "\n"
    ++ "Options:\n"
    ++ "  --raw              treat <image> as a flat binary instead of an ELF\n"
    ++ "  --base ADDR        load address of a raw image\n"
    ++ "  --entry ADDR       start translating at ADDR instead of the image entry\n"
    ++ "  --blocks N         translate at most N blocks\n"
    ++ "  --max-packets N    packet budget of one block\n"
    ++ "  --run              execute each block and follow the runtime PC\n"
    ++ "  --quiet            do not print op logs\n"

/-- **What a command line asks for.** -/
structure Invocation where
  /-- The path of the image. -/
  path : Option String := none
  /-- Whether the image is a flat file. -/
  raw : Bool := false
  /-- Whether blocks are executed. -/
  run : Bool := false
  /-- Whether listings are left out. -/
  quiet : Bool := false
  /-- Whether a sample of a settings file is wanted. -/
  sample : Bool := false
  /-- The address of the first block. -/
  entry : Option Word := none
  /-- The settings that are given by options. -/
  settings : Settings := {}

/-- **Why arguments cannot be taken.** -/
inductive ArgumentError where
  | missingValue (option : String)
  | invalidNumber (option value : String)
  | unknownOption (argument : String)
  | secondImage
  deriving DecidableEq, Repr

/-- The text shown for bad arguments. -/
def ArgumentError.message : ArgumentError → String
  | missingValue option => option ++ " needs a value"
  | invalidNumber option value => option ++ ": invalid number " ++ Text.quoted value
  | unknownOption argument => "unknown option " ++ argument ++ "\n\n" ++ usage
  | secondImage => "more than one image given\n\n" ++ usage

namespace Invocation

/-- The invocation with an option that stands alone. -/
def withFlag? (i : Invocation) : String → Option Invocation
  | "--raw" => some { i with raw := true }
  | "--run" => some { i with run := true }
  | "--quiet" => some { i with quiet := true }
  | "-q" => some { i with quiet := true }
  | "--sample-config" => some { i with sample := true }
  | _ => none

/-- How an option that takes a number changes the invocation. -/
def withNumber? (i : Invocation) : String → Option (Word → Invocation)
  | "--base" => some fun n => { i with settings.loadBase := some n.toNat }
  | "--entry" => some fun n => { i with entry := some n }
  | "--blocks" => some fun n => { i with settings.maxBlocks := some n.toNat }
  | "--max-packets" => some fun n => { i with settings.maxPackets := some n.toNat }
  | _ => none

/-- The invocation with an argument that is no known option. -/
def withPath (i : Invocation) (argument : String) : Except ArgumentError Invocation :=
  if argument.toList.head? = some '-' then .error (.unknownOption argument)
  else if i.path.isSome then .error .secondImage
  else .ok { i with path := some argument }

/-- **The options in a list of arguments**, or `none` where help is asked for. -/
def parse (i : Invocation) : List String → Except ArgumentError (Option Invocation)
  | [] => .ok (some i)
  | argument :: rest =>
    if argument = "--help" ∨ argument = "-h" then .ok none
    else if let some j := i.withFlag? argument then parse j rest
    else if let some set := i.withNumber? argument then
      match rest with
      | [] => .error (.missingValue argument)
      | value :: rest =>
        match Word.ofLiteral? value with
        | some n => parse (set n) rest
        | none => .error (.invalidNumber argument value)
    else
      match i.withPath argument with
      | .ok j => parse j rest
      | .error e => .error e

end Invocation

/-- The path of the image among the arguments, if there is work to be done on it. -/
def imagePath? (arguments : List String) : Option String :=
  match Invocation.parse {} arguments with
  | .ok (some i) => if i.sample then none else i.path
  | _ => none

end PacketLift
