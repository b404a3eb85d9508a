import Chip8.Json.Basic

/-!
# What a typed value takes from a tree

A structure is written as a record of its fields, in any order and with any other
fields between them, or as the list of exactly its fields in their declared
order. A choice is written as its tag, with what belongs to it, or as the tag
alone if nothing does.
-/

namespace Chip8.Json

/-- The natural number, if it is below the limit. -/
def natural? (limit : Nat) : Json → Option Nat
  | natural n => if n < limit then some n else none
  | _ => none

/-- The natural numbers of a list, if all are below the limit. -/
def naturals? (limit : Nat) : Json → Option (List Nat)
  | list items => items.mapM (natural? limit)
  | _ => none

/-- The value of the only field of that name. -/
def only? (fields : List (Text × Json)) (name : String) : Option Json :=
  match fields.filter fun field => field.1 == some name with
  | [field] => some field.2
  | _ => none

/-- The values of the named fields, each of which must be there once. -/
def fields? (names : List String) : Json → Option (List Json)
  | list items => if items.length = names.length then some items else none
  | record fields =>
    if fields.all fun field => field.1.isSome then names.mapM (only? fields) else none
  | _ => none

/-- The tag of a choice and what belongs to it; a tag alone has `null`. -/
def tagged? : Json → Option (String × Json)
  | text (some tag) => some (tag, null)
  | record [(some tag, content)] => some (tag, content)
  | _ => none

def isNull : Json → Bool
  | null => true
  | _ => false

/-- A choice with nothing but a tag, or with fields. -/
def choice (tag : String) (fields : List (String × Json)) : Json :=
  if fields.isEmpty then text (some tag)
  else record [(some tag, record (fields.map fun field => (some field.1, field.2)))]

/-- A structure with its fields. -/
def structured (fields : List (String × Json)) : Json :=
  record (fields.map fun field => (some field.1, field.2))

end Chip8.Json
