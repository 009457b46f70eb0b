/-!
# Journals

What the library reports while it works: messages with a severity, in the order in which they
arose. A reader keeps the messages at least as severe as a chosen level.

## Main definitions

* `Severity`, `Message`
* `Message.render`: one message as a line
* `Severity.admits`: which messages a level keeps
-/

namespace PacketLift

/-- How much a message matters. -/
inductive Severity where
  | error
  | warn
  | info
  | debug
  | trace
  deriving DecidableEq, Repr

namespace Severity

/-- The place of a severity, the most severe first. -/
def rank : Severity → Nat
  | error => 0
  | warn => 1
  | info => 2
  | debug => 3
  | trace => 4

/-- The name of a severity in front of a message. -/
def label : Severity → String
  | error => "ERROR"
  | warn => "WARN"
  | info => "INFO"
  | debug => "DEBUG"
  | trace => "TRACE"

/-- Whether a reader at this level keeps messages of severity `s`. -/
def admits (level s : Severity) : Bool := s.rank ≤ level.rank

end Severity

/-- One message. -/
structure Message where
  severity : Severity
  text : String
  deriving DecidableEq, Repr

namespace Message

/-- A message as one line. -/
def render (m : Message) : String := m.severity.label ++ " " ++ m.text

/-- The lines that a reader at `level` sees. -/
def renderAll (level : Severity) (messages : List Message) : List String :=
  (messages.filter fun m => level.admits m.severity).map render

end Message

end PacketLift
