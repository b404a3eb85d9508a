import Chip8.Json.Basic
import Chip8.Numeral

/-!
# JSON is written without blanks

Fields keep their order. In a quoted text the quote, the backslash and the
control characters are escaped and every other character stands for itself.
-/

namespace Chip8.Json

/-- One character of a quoted text. -/
def writeChar (c : Char) : List Char :=
  if c = '"' then ['\\', '"']
  else if c = '\\' then ['\\', '\\']
  else if c = '\x08' then ['\\', 'b']
  else if c = '\x0c' then ['\\', 'f']
  else if c = '\n' then ['\\', 'n']
  else if c = '\r' then ['\\', 'r']
  else if c = '\t' then ['\\', 't']
  else if c < ' ' then '\\' :: 'u' :: (Nat.toDigits 16 c.toNat).leftpad 4 '0'
  else [c]

/-- A quoted text; a text that is no string is written as half a surrogate pair. -/
def writeText : Text → List Char
  | some content => '"' :: (content.toList.flatMap writeChar ++ ['"'])
  | none => ['"', '\\', 'u', 'd', '8', '0', '0', '"']

mutual

/-- The text of a value. -/
def writeValue : Json → List Char
  | null => ['n', 'u', 'l', 'l']
  | bool true => ['t', 'r', 'u', 'e']
  | bool false => ['f', 'a', 'l', 's', 'e']
  | natural n => Nat.toDigits 10 n
  | number lexeme => lexeme.toList
  | text content => writeText content
  | list items => '[' :: (writeItems items ++ [']'])
  | record fields => '\x7b' :: (writeFields fields ++ ['\x7d'])

def writeItems : List Json → List Char
  | [] => []
  | [item] => writeValue item
  | item :: rest => writeValue item ++ ',' :: writeItems rest

def writeFields : List (Text × Json) → List Char
  | [] => []
  | [(key, value)] => writeText key ++ ':' :: writeValue value
  | (key, value) :: rest => writeText key ++ ':' :: (writeValue value ++ ',' :: writeFields rest)

end

def write (value : Json) : String :=
  String.ofList value.writeValue

end Chip8.Json
