/-!
# Keys of the terminal

The left side of a keyboard stands for the machine's sixteen keys, four rows of
four. Escape, and a small `c` with the control key, ask to quit; that letter is
also one of the machine's keys, and with the control key it never is.
-/

namespace Chip8.Host

/-- A key of the terminal. -/
inductive KeyCode
  | char (c : Char)
  | escape
  | enter
  | tab
  | up
  | backspace
  | null
  | function (n : Nat)
  /-- Any other key, by its name. -/
  | other (name : String)
  deriving DecidableEq, Repr

inductive KeyAction
  | press
  | repeated
  | release
  deriving DecidableEq, Repr

/-- The keys that are held with another key. -/
structure Modifiers where
  shift : Bool := false
  control : Bool := false
  alt : Bool := false
  superKey : Bool := false
  hyperKey : Bool := false
  metaKey : Bool := false
  deriving DecidableEq, Repr

/-- Where a key lies, and the locks that were on. -/
structure KeyState where
  keypad : Bool := false
  capsLock : Bool := false
  numLock : Bool := false
  deriving DecidableEq, Repr

/-- A key and what was done with it. -/
structure KeyEvent where
  code : KeyCode
  action : KeyAction
  modifiers : Modifiers
  state : KeyState
  deriving DecidableEq, Repr

/-- What was done with the mouse, by its name, and where. -/
structure MouseEvent where
  kind : String
  column : Nat
  row : Nat
  modifiers : Modifiers
  deriving DecidableEq, Repr

/-- Something that the terminal reports. -/
inductive Event
  | key (event : KeyEvent)
  | mouse (event : MouseEvent)
  | resize (width height : Nat)
  | focus (gained : Bool)
  | paste (text : String)
  deriving DecidableEq, Repr

/-- The machine's key for each character, row by row. -/
def keyboard : List (Char × Nat) :=
  [('1', 0x1), ('2', 0x2), ('3', 0x3), ('4', 0xc),
   ('q', 0x4), ('w', 0x5), ('e', 0x6), ('r', 0xd),
   ('a', 0x7), ('s', 0x8), ('d', 0x9), ('f', 0xe),
   ('z', 0xa), ('x', 0x0), ('c', 0xb), ('v', 0xf)]

/-- The machine's key, small and capital letters being the same. -/
def KeyCode.key? : KeyCode → Option Nat
  | char c => keyboard.lookup c.toLower
  | _ => none

namespace KeyEvent

/-- The key is one that asks to quit. -/
def isQuit (event : KeyEvent) : Bool :=
  match event.code with
  | .escape => true
  | .char 'c' => event.modifiers.control
  | _ => false

/-- The machine's key that the event is about; a key that asks to quit is about none. -/
def key? (event : KeyEvent) : Option Nat :=
  if event.isQuit then none else event.code.key?

end KeyEvent

end Chip8.Host
