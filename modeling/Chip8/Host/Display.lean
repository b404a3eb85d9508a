import Chip8.Host.Keypad
import Chip8.Screen.Drawing

/-!
# The terminal shows the screen

Whenever the machine asks for a redraw, the dot picture is written line by line,
each line from the first column of its row. The whole terminal is cleared once,
before the first picture; a later picture overwrites the one before it, since all
are of one size.

The display also holds down the keys that the user asked for. In each frame they
are let go and pressed again, so a machine that waits for a key gets one.
-/

namespace Chip8.Host

/-- An order to the terminal. Rows and columns count from zero. -/
inductive Order
  | clearAll
  | moveTo (row column : Nat)
  | print (characters : List Char)
  | showCursor
  | hideCursor
  | enterAlternate
  | leaveAlternate
  deriving DecidableEq, Repr

/-- The bytes that give an order, in which rows and columns count from one. -/
def Order.text : Order → String
  | clearAll => "\x1b[2J"
  | moveTo row column =>
      "\x1b[" ++ Numeral.decimal (row + 1) ++ ";" ++ Numeral.decimal (column + 1) ++ "H"
  | print characters => String.ofList characters
  | showCursor => "\x1b[?25h"
  | hideCursor => "\x1b[?25l"
  | enterAlternate => "\x1b[?1049h"
  | leaveAlternate => "\x1b[?1049l"

/-- The keys to hold down, the typed keys, the number of pictures drawn and all orders given. -/
structure Display where
  held : List Nat
  keypad : Keypad
  drawn : Nat
  orders : List Order
  deriving DecidableEq

namespace Display

def fresh (held : List Nat) (sticky : Nat) : Display :=
  ⟨held, .fresh sticky, 0, []⟩

def output (d : Display) : String :=
  String.join (d.orders.map Order.text)

/-- What there is to be written, and the display once it has been written. -/
def flush (d : Display) : String × Display :=
  (d.output, { d with orders := [] })

/-- The orders that write lines one below another, from a row on. -/
def lineOrders : Nat → List (List Char) → List Order
  | _, [] => []
  | row, line :: rest => .moveTo row 0 :: .print line :: lineOrders (row + 1) rest

/-- The orders that write the lines of the dot picture. -/
def pictureOrders (d : Display) (s : Screen) : List Order :=
  (if d.drawn = 0 then [.clearAll] else []) ++ lineOrders 0 (Text.readLines s.dotPicture)

/-- Draws the screen if a redraw is due, and tells whether it has. -/
def frame (d : Display) (m : Machine Screen) : Display × Machine Screen × Bool :=
  if m.redraw then
    ({ d with drawn := d.drawn + 1, orders := d.orders ++ d.pictureOrders m.surface },
      { m with redraw := false }, true)
  else (d, m, false)

/-- Has the terminal put aside what it shows. -/
def enter (d : Display) : Display :=
  { d with orders := d.orders ++ [.enterAlternate, .hideCursor] }

/-- Takes the terminal back to what it showed before. -/
def leave (d : Display) : Display :=
  { d with orders := d.orders ++ [.showCursor, .leaveAlternate] }

variable {σ : Type} [Surface σ]

/-- Passes an event on to the machine. The answer is whether to go on. -/
def input (d : Display) (m : Machine σ) : Event → Display × Outcome σ Bool
  | .key event =>
    let (keypad, outcome) := d.keypad.take m event
    ({ d with keypad := keypad }, outcome)
  | .mouse _ | .resize _ _ | .focus _ | .paste _ => (d, .done m true)

/-- The commands that press every held key anew. -/
def holdCommands (d : Display) : List Command :=
  d.held.flatMap fun key => [.release key, .press key]

/-- Lets go of the keys whose time is over, and presses every held key anew. -/
def keys (d : Display) (m : Machine σ) : Display × Outcome σ Unit :=
  let (keypad, outcome) := d.keypad.tick m
  ({ d with keypad := keypad }, outcome.andThen fun m _ => m.script d.holdCommands)

end Display

end Chip8.Host
