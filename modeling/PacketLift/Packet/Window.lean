import PacketLift.Fault
import PacketLift.Word.Role

/-!
# The words of a packet

A packet is the words from its address up to the first one that closes it. Four instructions fit
in a packet and each may have an extender, so a packet that can be lifted has at most eight words;
after ten words without an end at least one rule has been broken.

## Main definitions

* `Fetch`: memory as far as instructions are concerned
* `Window`, `window`: the words of a packet, as far as they can be read
* `addressBehind`: where the next packet starts
-/

namespace PacketLift

/-- Memory as far as instructions are concerned: the word at an address, if there is one. -/
abbrev Fetch := Word → Option Word

/-- How the words of a packet end. -/
inductive WindowEnd where
  /-- The last word closes the packet. -/
  | closed
  /-- There is no word at the address. -/
  | unmapped (address : Word)
  /-- The limit was reached. -/
  | unfinished
  deriving DecidableEq, Repr

/-- The words of a packet, as far as they can be read. -/
structure Window where
  words : List Word
  ending : WindowEnd
  deriving DecidableEq, Repr

/-- **The words from `pc` on**, up to and including the first that closes a packet, and at most as
many as the limit says. -/
def window (fetch : Fetch) (pc : Word) : Nat → Window
  | 0 => ⟨[], .unfinished⟩
  | limit + 1 =>
    match fetch pc with
    | none => ⟨[], .unmapped pc⟩
    | some w =>
      if w.role.endsPacket then ⟨[w], .closed⟩
      else
        let rest := window fetch (pc + 4) limit
        ⟨w :: rest.words, rest.ending⟩

/-- How many words the search for the next packet reads. -/
def searchLimit : Nat := 8

/-- How many words are read before a packet must have been given up. -/
def readLimit : Nat := 10

/-- **The address behind the packet at `pc`.** A packet that does not end in time is taken to end
at the limit. -/
def addressBehind (fetch : Fetch) (pc : Word) : Except Fault Word :=
  let ahead := window fetch pc searchLimit
  match ahead.ending with
  | .unmapped address => .error (.unmapped address)
  | _ => .ok (pc + 4 * BitVec.ofNat 32 ahead.words.length)

end PacketLift
