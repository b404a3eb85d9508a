import Chip8.Numeral
import Chip8.Text.Hidden

/-!
# The labelled form of a value

A value is shown as the name of its kind, followed in braces by its fields with
their names, or in parentheses by the one value that it wraps. Texts inside are
quoted: a quote, a backslash and the common controls are written with a
backslash, and every other character without a picture by its code point.
-/

namespace Chip8.Text

def quotedChar (c : Char) : String :=
  if c = '\x00' then "\\0"
  else if c = '\t' then "\\t"
  else if c = '\r' then "\\r"
  else if c = '\n' then "\\n"
  else if c = '"' then "\\\""
  else if c = '\\' then "\\\\"
  else if isHidden c then "\\u\x7b" ++ Numeral.hex c.toNat ++ "\x7d"
  else String.singleton c

def quoted (text : String) : String :=
  "\"" ++ String.join (text.toList.map quotedChar) ++ "\""

def bracketed (numbers : List Nat) : String :=
  "[" ++ String.intercalate ", " (numbers.map Numeral.decimal) ++ "]"

/-- A name, and its fields in braces if there are any. -/
def labelled (name : String) (fields : List (String × String)) : String :=
  if fields.isEmpty then name
  else
    name ++ " \x7b "
      ++ String.intercalate ", " (fields.map fun field => field.1 ++ ": " ++ field.2)
      ++ " \x7d"

/-- A name and the one value that it wraps. -/
def wrapped (name value : String) : String :=
  name ++ "(" ++ value ++ ")"

end Chip8.Text
