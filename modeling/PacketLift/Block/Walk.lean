import PacketLift.Block.Lift
import PacketLift.Machine.Run

/-!
# Block after block

Two ways through a program. A walk lifts each block behind the one before it and stops after a
branch, since it cannot know where that leads. A run executes each block and goes on where the
program counter then points. Both stop at the first fault.

## Main definitions

* `Walk`, `walk`: blocks one behind the other
* `Run`, `run`: blocks in the order in which they execute
-/

namespace PacketLift

variable {State : Type}

/-- **The blocks of a walk**, and the fault that ended it, with the address where it arose. -/
structure Walk (State : Type) where
  blocks : List Block
  fault : Option (Word × Fault)
  session : Session State

/-- **Walk from `pc` on** through at most the given number of blocks. -/
def walk (lift : Word → Lift State Block) : Nat → Word → Session State → Walk State
  | 0, _, session => { blocks := [], fault := none, session }
  | limit + 1, pc, session =>
    match (lift pc).run session with
    | (.error fault, session) => { blocks := [], fault := some (pc, fault), session }
    | (.ok block, session) =>
      if block.exit = .branch then { blocks := [block], fault := none, session }
      else
        let rest := walk lift limit block.after session
        { rest with blocks := block :: rest.blocks }

/-- A block that was executed. -/
structure Executed where
  block : Block
  outcome : Outcome
  /-- The CPU's state afterwards. -/
  cpu : Cpu

/-- **The blocks of a run**, the CPU's state behind the last of them, and the fault that ended the
run, with the address where it arose. -/
structure Run (State : Type) where
  blocks : List Executed
  fault : Option (Word × Fault)
  cpu : Cpu
  session : Session State

/-- **Run from `pc` on** through at most the given number of blocks. Behind the first block the
program counter leads. What `report` says about each block goes into the journal. -/
def run (lift : Word → Lift State Block) (report : Executed → List Message) :
    Nat → Word → Cpu → Session State → Run State
  | 0, _, cpu, session => { blocks := [], fault := none, cpu, session }
  | limit + 1, pc, cpu, session =>
    match (lift pc).run session with
    | (.error fault, session) => { blocks := [], fault := some (pc, fault), cpu, session }
    | (.ok block, session) =>
      let (outcome, after) := block.listing.run cpu
      let done : Executed := { block, outcome, cpu := after }
      let session := { session with journal := session.journal ++ (report done).toArray }
      let rest := run lift report limit after.pc after session
      { rest with blocks := done :: rest.blocks }

end PacketLift
