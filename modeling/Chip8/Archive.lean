import Chip8.Instruction.Fields
import Chip8.Json.Read
import Chip8.Json.Select
import Chip8.Json.Write
import Chip8.Machine.Basic
import Chip8.Screen

/-!
# Values stored as JSON

Instructions, the status, memory regions, memory, screens and call stacks are
stored as JSON text. What is written can be read back; what is read may be laid
out in any way that JSON allows. Reading checks that every number fits its place
and that a call stack has sixteen slots, and nothing else: a stored call stack
may be deeper than its slots, and stored memory or a stored screen may be of any
size.
-/

namespace Chip8

/-- Values that have a stored form. -/
class Archive (α : Type) where
  toJson : α → Json
  ofJson? : Json → Option α

namespace Archive

/-- The stored text of a value. -/
def write {α : Type} [Archive α] (a : α) : String :=
  (toJson a).write

/-- The value of a stored text. -/
def read {α : Type} [Archive α] (text : String) : Option α :=
  (Json.read text).bind ofJson?

end Archive

namespace Instruction

def toJson (i : Instruction) : Json :=
  .choice i.tag (i.fields.map fun field => (field.1.name, .natural field.2))

/-- The instruction of that form with these fields. -/
def ofContent? (form : Form) (content : Json) : Option Instruction :=
  if form.fields.isEmpty then if content.isNull then form.make [] else none
  else do
    let values ← content.fields? (form.fields.map Field.name)
    form.make (← (form.fields.zip values).mapM fun (field, value) => value.natural? field.limit)

def ofJson? (json : Json) : Option Instruction := do
  let (tag, content) ← json.tagged?
  ofContent? (← Form.ofTag? tag) content

instance : Archive Instruction := ⟨toJson, ofJson?⟩

end Instruction

namespace Status

def toJson : Status → Json
  | running => .choice "Running" []
  | waiting register => .choice "WaitingForKey" [("register", .natural register.toNat)]

def ofJson? (json : Json) : Option Status := do
  let (tag, content) ← json.tagged?
  if tag = "Running" then if content.isNull then some running else none
  else if tag = "WaitingForKey" then
    match ← content.fields? ["register"] with
    | [register] => (register.natural? UInt64.size).map fun r => waiting (.ofNat r)
    | _ => none
  else none

instance : Archive Status := ⟨toJson, ofJson?⟩

end Status

namespace Memory.Region

def label : Region → String
  | charset => "Charset"
  | program => "Program"

def ofLabel? (text : String) : Option Region :=
  [charset, program].find? fun region => region.label == text

def toJson (region : Region) : Json :=
  .choice region.label []

def ofJson? (json : Json) : Option Region := do
  let (tag, content) ← json.tagged?
  if content.isNull then ofLabel? tag else none

instance : Archive Region := ⟨toJson, ofJson?⟩

end Memory.Region

def Json.ofBytes (bytes : Array UInt8) : Json :=
  .list (bytes.toList.map fun byte => .natural byte.toNat)

def Json.bytes? (json : Json) : Option (Array UInt8) :=
  (json.naturals? UInt8.size).map fun numbers => (numbers.map UInt8.ofNat).toArray

namespace Memory

def toJson (m : Memory) : Json :=
  .structured [("memory", .ofBytes m.bytes)]

/-- Reads memory of any size. -/
def ofJson? (json : Json) : Option Memory := do
  match ← json.fields? ["memory"] with
  | [bytes] => bytes.bytes?.map Memory.mk
  | _ => none

instance : Archive Memory := ⟨toJson, ofJson?⟩

end Memory

namespace Screen

def toJson (s : Screen) : Json :=
  .structured [("bytes", .ofBytes s.bytes)]

/-- Reads a screen of any size. -/
def ofJson? (json : Json) : Option Screen := do
  match ← json.fields? ["bytes"] with
  | [bytes] => bytes.bytes?.map Screen.mk
  | _ => none

instance : Archive Screen := ⟨toJson, ofJson?⟩

end Screen

namespace CallStack

/-- The stored form of a call stack, dead slots included. -/
def toJson (s : CallStack) : Json :=
  .structured
    [("entries", .list (s.slots.toList.map fun address => .natural address.toNat)),
     ("sp", .natural s.depth)]

/-- The sixteen slots, if there are sixteen. -/
def slots? (numbers : List Nat) : Option (Vector UInt16 16) :=
  if h : (numbers.map UInt16.ofNat).toArray.size = 16 then
    some ⟨(numbers.map UInt16.ofNat).toArray, h⟩
  else none

/-- Reads a call stack of any depth. -/
def ofJson? (json : Json) : Option CallStack := do
  match ← json.fields? ["entries", "sp"] with
  | [entries, depth] =>
    let slots ← slots? (← entries.naturals? UInt16.size)
    return ⟨slots, ← depth.natural? UInt64.size⟩
  | _ => none

instance : Archive CallStack := ⟨toJson, ofJson?⟩

end CallStack

end Chip8
