import PacketLift.Toml.Lexeme
import PacketLift.Toml.Number
import PacketLift.Toml.Registry

/-!
# TOML files

A TOML file is read line by line: keys with values, and headers that say which table the keys
behind them belong to. A file that breaks a rule anywhere is refused as a whole. Values may be
nested up to a limit, and keys may have no more parts than that.

## Main definitions

* `key?`: keys with dots
* `value?`, `items?`, `pairs?`: values, arrays and inline tables
* `Document.read?`: a whole file
-/

namespace PacketLift.Toml

/-! ## Keys -/

/-- Whether a character may stand in a key without quotes. -/
def isKeyChar (c : Char) : Bool := c.isAlphanum || c = '_' || c = '-'

/-- One part of a key. -/
def keyPart? : List Char → Option (String × List Char)
  | '"' :: cs => (basicBody? cs).map fun (text, rest) => (String.ofList text, rest)
  | '\'' :: cs => (literalBody? cs).map fun (text, rest) => (String.ofList text, rest)
  | cs =>
    let text := cs.takeWhile isKeyChar
    if text.isEmpty then none else some (String.ofList text, cs.dropWhile isKeyChar)

/-- The parts of a key, with blanks around each. -/
def keyParts? (cs : List Char) : Option (Key × List Char) := do
  let (part, rest) ← keyPart? (skipBlank cs)
  match skipBlank rest with
  | '.' :: more =>
    if more.length < cs.length then do
      let (key, rest) ← keyParts? more
      return (⟨part :: key.outer, key.last⟩, rest)
    else none
  | rest => return (⟨[], part⟩, rest)
termination_by cs.length

/-- The least depth that is refused. -/
def depthLimit : Nat := 80

/-- **A key**, with blanks around it. -/
def key? (cs : List Char) : Option (Key × List Char) := do
  let (key, rest) ← keyParts? cs
  guard (key.outer.length + 1 < depthLimit)
  return (key, rest)

/-! ## Values -/

/-- A value made of plain characters. -/
def plainValue? (cs : List Char) : Option Value :=
  if cs = ['t', 'r', 'u', 'e'] then some (.boolean true)
  else if cs = ['f', 'a', 'l', 's', 'e'] then some (.boolean false)
  else if isDateTime cs then some .dateTime
  else if isFloat cs then some .float
  else (integer? cs).map .integer

mutual

/-- **A value**, which may hold others down to the given depth. -/
def value? (depth : Nat) (cs : List Char) : Option (Value × List Char) :=
  match cs with
  | '"' :: _ => (string? cs).map fun (text, rest) => (.string (String.ofList text), rest)
  | '\'' :: _ => (string? cs).map fun (text, rest) => (.string (String.ofList text), rest)
  | '[' :: rest =>
    match depth with
    | 0 => none
    | inner + 1 => (items? inner rest).map fun rest => (.array, rest)
  | '\x7b' :: rest =>
    match depth with
    | 0 => none
    | inner + 1 => (pairs? inner {} true rest).map fun rest => (.table, rest)
  | _ => (plainValue? (plain cs).1).map fun v => (v, (plain cs).2)
termination_by (2 * depth, 0)

/-- The rest of an array, in front of an item or of the closing bracket. -/
def items? (depth : Nat) (cs : List Char) : Option (List Char) :=
  match skipFiller cs with
  | ']' :: rest => some rest
  | start => do
    let (_, rest) ← value? depth start
    match skipFiller rest with
    | ']' :: rest => some rest
    | ',' :: more => if more.length < cs.length then items? depth more else none
    | _ => none
termination_by (2 * depth + 1, cs.length)

/-- The rest of an inline table, in front of a key or, at its start, of the closing brace. -/
def pairs? (depth : Nat) (r : Registry) (first : Bool) (cs : List Char) : Option (List Char) :=
  match skipBlank cs with
  | '\x7d' :: rest => if first then some rest else none
  | start => do
    match ← key? start with
    | (key, '=' :: rest) =>
      let (v, rest) ← value? depth (skipBlank rest)
      let r ← r.define? [] key v
      match skipBlank rest with
      | '\x7d' :: rest => some rest
      | ',' :: more => if more.length < cs.length then pairs? depth r false more else none
      | _ => none
    | _ => none
termination_by (2 * depth + 1, cs.length)

end

/-! ## Lines -/

/-- **A file as far as it has been read**: its definitions, and the table that is open. -/
structure Document where
  registry : Registry := {}
  path : List Step := []
  deriving DecidableEq, Repr

namespace Document

/-- A key with its value. -/
def pair? (d : Document) (cs : List Char) : Option (Document × List Char) := do
  match ← key? cs with
  | (key, '=' :: rest) =>
    let (v, rest) ← value? (depthLimit - 1) (skipBlank rest)
    let registry ← d.registry.define? d.path key v
    return ({ d with registry }, ← lineEnd? rest)
  | _ => none

/-- **One line**, of which a value may make several. -/
def line? (d : Document) (cs : List Char) : Option (Document × List Char) :=
  match skipBlank cs with
  | '[' :: '[' :: rest => do
    match ← key? rest with
    | (key, ']' :: ']' :: rest) =>
      let (registry, path) ← d.registry.openItem? key
      return (⟨registry, path⟩, ← lineEnd? rest)
    | _ => none
  | '[' :: rest => do
    match ← key? rest with
    | (key, ']' :: rest) =>
      let (registry, path) ← d.registry.openTable? key
      return (⟨registry, path⟩, ← lineEnd? rest)
    | _ => none
  | start =>
    match start with
    | [] => some (d, [])
    | c :: _ =>
      if c = '#' || c = '\n' || c = '\r' then (lineEnd? start).map fun rest => (d, rest)
      else d.pair? start

/-- All lines. -/
def lines? (d : Document) (cs : List Char) : Option Document :=
  if cs.isEmpty then some d
  else do
    let (d, rest) ← d.line? cs
    if rest.length < cs.length then d.lines? rest else none
termination_by cs.length

/-- **Read a whole file.** A byte order mark may stand in front. -/
def read? (text : String) : Option Document :=
  match text.toList with
  | '\ufeff' :: cs => lines? {} cs
  | cs => lines? {} cs

/-- What the file defines under a name outside of all tables. -/
def find? (d : Document) (name : String) : Option Definition := d.registry.find? [.name name]

end Document

end PacketLift.Toml
