/-!
# Trees of JSON

A record keeps its fields in the order of the text, repetitions included, so a
reader of records can tell a repeated field from a single one. A number that is
written with digits alone is a natural number; any other number is kept as it is
written, since nothing here has a use for its value.

An escape can name half of a surrogate pair. A text with such a half alone is
still JSON but no string of characters, and is kept as `none`.
-/

namespace Chip8

/-- The characters of a JSON text, if they are characters. -/
abbrev Json.Text := Option String

inductive Json
  | null
  | bool (b : Bool)
  | natural (n : Nat)
  | number (lexeme : String)
  | text (content : Json.Text)
  | list (items : List Json)
  | record (fields : List (Json.Text × Json))

end Chip8
