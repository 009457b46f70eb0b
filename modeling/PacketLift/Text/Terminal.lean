/-!
# Text without terminal control sequences

A terminal takes some characters as controls: an escape character opens a sequence that is not
shown, and other control characters are not shown either. A reader that is no terminal gets the
text without all of these. Tabs, line breaks, form feeds and carriage returns stay.

A sequence that is not finished goes on into what follows it, line breaks included where it is a
string. White space inside a sequence that is not a string is shown, and with it all that follows
up to the next control character; there the sequence goes on, unless a character outside of ASCII
has ended it.

## Main definitions

* `TerminalState`, `TerminalState.next`: where in a sequence a terminal is
* `TerminalState.shows`: which characters it shows there
* `withoutControls`: a text with only what is shown
-/

namespace PacketLift.Text

/-- **Where in a control sequence a terminal is.** -/
inductive TerminalState where
  /-- In text, outside of all sequences. -/
  | text
  /-- Behind an escape character. -/
  | escape
  /-- Behind an escape character and marks in front of the last character of the sequence. -/
  | escapeMarks
  /-- Behind `ESC [`, up to a letter. -/
  | control
  /-- Behind `ESC P`. -/
  | device
  /-- Behind `ESC P` and numbers. -/
  | deviceNumbers
  /-- Behind `ESC P` and marks. -/
  | deviceMarks
  /-- In a string that the byte 9C ends. -/
  | string
  /-- In a string that the bell character ends. -/
  | title
  deriving DecidableEq, Repr

namespace TerminalState

/-- Whether a character is in a range. -/
def isBetween (lo hi c : Char) : Bool := lo ≤ c && c ≤ hi

/-- Whether a character is white space that a terminal acts on. -/
def isSpacing (c : Char) : Bool := c = '\t' || c = '\n' || c = '\x0c' || c = '\r'

/-- Whether a character is outside of ASCII. -/
def isWide (c : Char) : Bool := '\x80' ≤ c

/-- Whether the byte 9C, which ends strings, is among the bytes of a character. -/
def hasStringEnd (c : Char) : Bool := (String.utf8EncodeChar c).contains 0x9C

/-- **Where a terminal is behind a character.** Three characters act everywhere: two of them cancel
a sequence, and the escape character opens a new one. -/
def next (s : TerminalState) (c : Char) : TerminalState :=
  if c = '\x18' || c = '\x1a' then text
  else if c = '\x1b' then escape
  else
    match s with
    | text => text
    | escape =>
      if isBetween ' ' '/' c then escapeMarks
      else if c = '[' then control
      else if c = ']' then title
      else if c = 'P' then device
      else if c = 'X' || c = '^' || c = '_' then string
      else if isBetween '0' '~' c then text
      else escape
    | escapeMarks => if isBetween '0' '~' c then text else escapeMarks
    | control => if isBetween '@' '~' c then text else control
    | device =>
      if isBetween ' ' '/' c then deviceMarks
      else if isBetween '0' '?' c then deviceNumbers
      else if isBetween '@' '~' c then string
      else device
    | deviceNumbers =>
      if isBetween ' ' '/' c then deviceMarks
      else if isBetween '<' '~' c then string
      else deviceNumbers
    | deviceMarks => if isBetween '0' '~' c then string else deviceMarks
    | string => if hasStringEnd c then text else string
    | title => if c = '\x07' then text else title

/-- **Whether a terminal shows a character.** -/
def shows (s : TerminalState) (c : Char) : Bool :=
  match s with
  | text => isBetween ' ' '~' c || isWide c || isSpacing c
  | escape => isSpacing c
  | escapeMarks => isSpacing c
  | control => isSpacing c
  | _ => false

/-- What is shown of a text. The flag says whether the character in front was shown; then the
terminal shows characters as it does outside of sequences. -/
def shown : Bool → TerminalState → List Char → List Char
  | _, _, [] => []
  | showing, s, c :: cs =>
    if (if showing then text else s).shows c then
      c :: shown true (if isWide c then text else s) cs
    else shown false (s.next c) cs

end TerminalState

/-- **A text with only what a terminal shows of it.** -/
def withoutControls (s : String) : String :=
  String.ofList (TerminalState.shown false .text s.toList)

end PacketLift.Text
