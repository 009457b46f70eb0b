import PacketLift.MicroOp.Listing

/-!
# Emitting micro-operations

Code that lifts guest instructions appends to a listing and asks for fresh temporaries. `Emit` is
the type of such code: a listing is passed from step to step.

## Main definitions

* `Emit`: computations that extend a listing
* `emit`, `freshTemp`, `constant`: the three primitive steps
-/

namespace PacketLift

/-- Computations that extend a listing. -/
abbrev Emit := StateM Listing

/-- Append one operation. -/
def emit (op : MicroOp) : Emit Unit := modify (·.append op)

/-- A new local. -/
def freshTemp : Emit TempId := fun l => (l.tempCount, l.addTemp .scratch)

/-- A new local that holds `value`. -/
def constant (value : Word) : Emit TempId := do
  let t ← freshTemp
  emit (.set t value)
  return t

end PacketLift
