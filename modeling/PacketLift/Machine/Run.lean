import PacketLift.Journal
import PacketLift.Machine.Cpu
import PacketLift.MicroOp.Listing

/-!
# Running a listing

The operations of a listing run one after the other until the end or until the block is left.
Globals are read from and written to the CPU's state at once; locals start at zero and last for
one run. A temporary that does not exist reads as zero, and what is written to it is lost.

## Main definitions

* `Machine`: the CPU's state, the locals and what has been observed so far
* `Machine.step`: one operation
* `Machine.run`: a list of operations
* `Listing.run`: a whole listing on a CPU's state
-/

namespace PacketLift

/-- What a run has observed. -/
structure Outcome where
  /-- The numbers given to the trap handler, in order. -/
  traps : List Word := []
  /-- Whether the block was left. -/
  exited : Bool := false
  /-- How many operations ran. -/
  executed : Nat := 0
  deriving DecidableEq, Repr

/-- The messages of a run: one for each call of the trap handler. -/
def Outcome.messages (o : Outcome) : List Message :=
  o.traps.map fun number => ⟨.debug, "handle_trap(0x" ++ Text.hex number.toNat ++ ")"⟩

/-- **A run in progress.** -/
structure Machine where
  cpu : Cpu
  locals : Array Word
  outcome : Outcome := {}
  deriving DecidableEq, Repr

namespace Machine

/-- The value of a temporary. -/
def read (temps : Array Temp) (m : Machine) (t : TempId) : Word :=
  match temps[t]? with
  | some (.global _ offset) => m.cpu.load offset
  | _ => m.locals.getD t 0

/-- The machine with the value of a temporary replaced. -/
def write (temps : Array Temp) (m : Machine) (t : TempId) (value : Word) : Machine :=
  match temps[t]? with
  | some (.global _ offset) => { m with cpu := m.cpu.store offset value }
  | _ => { m with locals := m.locals.setIfInBounds t value }

/-- The machine with one more call of the trap handler. -/
def trap (m : Machine) (number : Word) : Machine :=
  { m with outcome := { m.outcome with traps := m.outcome.traps ++ [number] } }

/-- What an operation does to values and traps. -/
def effect (temps : Array Temp) (m : Machine) : MicroOp → Machine
  | .packetStart _ => m
  | .set dst value => m.write temps dst value
  | .copy dst src => m.write temps dst (m.read temps src)
  | .binary op dst lhs rhs => m.write temps dst (op.apply (m.read temps lhs) (m.read temps rhs))
  | .binaryImm op dst lhs value => m.write temps dst (op.apply (m.read temps lhs) value)
  | .compare cond dst lhs rhs =>
    m.write temps dst (if cond.holds (m.read temps lhs) (m.read temps rhs) then 1 else 0)
  | .select cond dst lhs rhs ifTrue ifFalse =>
    m.write temps dst
      (if cond.holds (m.read temps lhs) (m.read temps rhs) then m.read temps ifTrue
        else m.read temps ifFalse)
  | .callTrap arguments => m.trap ((arguments.head?.map (m.read temps)).getD 0)
  | .exitBlock => { m with outcome := { m.outcome with exited := true } }

/-- **One operation**, counted. -/
def step (temps : Array Temp) (m : Machine) (op : MicroOp) : Machine :=
  let after := m.effect temps op
  { after with outcome := { after.outcome with executed := after.outcome.executed + 1 } }

/-- **Operations in order**, until the block is left. -/
def run (temps : Array Temp) (m : Machine) : List MicroOp → Machine
  | [] => m
  | .exitBlock :: _ => m.step temps .exitBlock
  | op :: rest => run temps (m.step temps op) rest

/-- The machine at the start of a run. -/
def start (temps : Array Temp) (cpu : Cpu) : Machine :=
  { cpu, locals := Array.replicate temps.size 0 }

end Machine

/-- **A whole listing on a CPU's state**: what was observed, and the state afterwards. -/
def Listing.run (l : Listing) (cpu : Cpu) : Outcome × Cpu :=
  let final := (Machine.start l.temps cpu).run l.temps l.ops
  (final.outcome, final.cpu)

end PacketLift
