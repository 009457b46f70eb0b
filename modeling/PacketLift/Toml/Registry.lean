/-!
# Definitions in a TOML file

What a TOML file has defined so far, by the path that leads to it. A table may be opened by a
header, arise on the way to a longer header, or arise from dots in a key; which of these it was
decides whether more may be added to it later.

## Main definitions

* `Value`, `Key`: what stands on either side of an equals sign
* `Registry`: definitions by path
* `Registry.define?`: a key with a value
* `Registry.openTable?`, `Registry.openItem?`: the headers of a table and of an array of tables
-/

namespace PacketLift.Toml

/-- A value. Of floats, dates, arrays and inline tables only their kind is kept. -/
inductive Value where
  | string (text : String)
  | integer (n : Int)
  | float
  | boolean (b : Bool)
  | dateTime
  | array
  | table
  deriving DecidableEq, Repr

/-- A key, whose parts are divided by dots: the last part and those in front of it. -/
structure Key where
  outer : List String
  last : String
  deriving DecidableEq, Repr

/-- One step on the way to a definition. -/
inductive Step where
  /-- To what a table has under a name. -/
  | name (text : String)
  /-- To one of an array's tables. -/
  | item (index : Nat)
  deriving DecidableEq, Repr

/-- What is defined at a path. -/
inductive Definition where
  | value (v : Value)
  /-- A table. It is implicit until a header opens it; `dotted` if it arose from dots in a key. -/
  | table (implicit dotted : Bool)
  /-- An array of tables. -/
  | tables (count : Nat)
  deriving DecidableEq, Repr

/-- **All definitions so far.** -/
structure Registry where
  entries : List (List Step × Definition) := []
  deriving DecidableEq, Repr

namespace Registry

/-- What is defined at a path. -/
def find? (r : Registry) (path : List Step) : Option Definition := r.entries.lookup path

/-- The registry with a path defined anew. -/
def set (r : Registry) (path : List Step) (d : Definition) : Registry :=
  ⟨(path, d) :: r.entries.filter fun (other, _) => other ≠ path⟩

/-- **Go down from a table by names**, creating what is not there. The last item stands for an
array of tables. Dots in a key do not lead into a table that a header has opened. -/
def descend? (dotted : Bool) (r : Registry) (path : List Step) :
    List String → Option (Registry × List Step)
  | [] => some (r, path)
  | name :: names =>
    let here := path ++ [.name name]
    match r.find? here with
    | none => descend? dotted (r.set here (.table true dotted)) here names
    | some (.value _) => none
    | some (.table implicit _) =>
      if dotted && !implicit then none else descend? dotted r here names
    | some (.tables count) => descend? dotted r (here ++ [.item (count - 1)]) names

/-- Whether the table at a path arose from dots in a key. -/
def isDotted (r : Registry) (path : List Step) : Bool :=
  match r.find? path with
  | some (.table _ dotted) => dotted
  | _ => false

/-- **Define a key in the table at a path.** -/
def define? (r : Registry) (path : List Step) (key : Key) (v : Value) : Option Registry := do
  let (r, table) ← r.descend? true path key.outer
  guard (r.isDotted table != key.outer.isEmpty)
  let here := table ++ [.name key.last]
  guard (r.find? here).isNone
  return r.set here (.value v)

/-- **Open a table by its header.** Each table is opened once. -/
def openTable? (r : Registry) (key : Key) : Option (Registry × List Step) := do
  let (r, parent) ← r.descend? false [] key.outer
  let here := parent ++ [.name key.last]
  match r.find? here with
  | none => some (r.set here (.table false false), here)
  | some (.table true false) => some (r.set here (.table false false), here)
  | _ => none

/-- **Open the next table of an array by its header.** -/
def openItem? (r : Registry) (key : Key) : Option (Registry × List Step) := do
  let (r, parent) ← r.descend? false [] key.outer
  let here := parent ++ [.name key.last]
  match r.find? here with
  | none => some (r.set here (.tables 1), here ++ [.item 0])
  | some (.tables count) => some (r.set here (.tables (count + 1)), here ++ [.item count])
  | _ => none

end Registry

end PacketLift.Toml
