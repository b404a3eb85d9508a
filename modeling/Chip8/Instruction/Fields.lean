import Chip8.Instruction.Basic
import Chip8.Text.Labelled

/-!
# Instructions as tagged fields

Outside the machine an instruction is a tag and a list of named numbers. A
field's name settles its width: `A` is an address, `B` a byte, `n` a digit kept
in a byte, and `x` and `y` name registers and are a machine word wide.
-/

namespace Chip8

/-- The name of a field of an instruction. -/
inductive Field
  | A
  | B
  | n
  | x
  | y
  deriving DecidableEq, Repr

namespace Field

def name : Field → String
  | A => "A"
  | B => "B"
  | n => "n"
  | x => "x"
  | y => "y"

/-- The numbers that fit the field are those below its limit. -/
def limit : Field → Nat
  | A => UInt16.size
  | B | n => UInt8.size
  | x | y => UInt64.size

end Field

namespace Instruction

/-- The tag that tells the kind of instruction. -/
def tag : Instruction → String
  | clear => "cls"
  | ret => "ret"
  | jump _ => "jmp"
  | call _ => "call"
  | skipIfByte _ _ => "seb"
  | skipUnlessByte _ _ => "sneb"
  | skipIfSame _ _ _ => "se"
  | setByte _ _ => "movb"
  | addByte _ _ => "addb"
  | alu operation _ _ => operation.mnemonic
  | skipUnlessSame _ _ _ => "sne"
  | setIndex _ => "movI"
  | jumpOffset _ => "jmpr"
  | random _ _ => "rand"
  | draw _ _ _ => "draw"
  | skipIfHeld _ => "sek"
  | skipIfLoose _ => "snek"
  | getDelay _ => "getdt"
  | awaitKey _ => "waitk"
  | setDelay _ => "setdt"
  | setSound _ => "movst"
  | addIndex _ => "addI"
  | pointGlyph _ => "font"
  | storeDigits _ => "bcd"
  | storeRegisters _ => "dmao"
  | loadRegisters _ => "dmai"

/-- The fields in their declared order, with their values. -/
def fields : Instruction → List (Field × Nat)
  | clear | ret => []
  | jump a | call a | setIndex a | jumpOffset a => [(.A, a.toNat)]
  | skipIfByte x b | skipUnlessByte x b | setByte x b | addByte x b | random x b =>
      [(.B, b.toNat), (.x, x.toNat)]
  | skipIfSame x y n | skipUnlessSame x y n | draw x y n =>
      [(.y, y.toNat), (.x, x.toNat), (.n, n.toNat)]
  | alu _ x y => [(.y, y.toNat), (.x, x.toNat)]
  | skipIfHeld x | skipIfLoose x | getDelay x | awaitKey x | setDelay x | setSound x
  | addIndex x | pointGlyph x | storeDigits x | storeRegisters x | loadRegisters x =>
      [(.x, x.toNat)]

def labelled (i : Instruction) : String :=
  Text.labelled i.tag (i.fields.map fun field => (field.1.name, Numeral.decimal field.2))

end Instruction

/-- A kind of instruction: its fields in order, and how their values make one. -/
structure Instruction.Form where
  tag : String
  fields : List Field
  make : List Nat → Option Instruction

namespace Instruction.Form

def plain (tag : String) (i : Instruction) : Form :=
  ⟨tag, [], fun _ => some i⟩

def address (tag : String) (i : UInt16 → Instruction) : Form where
  tag := tag
  fields := [.A]
  make
    | [a] => some (i (.ofNat a))
    | _ => none

def byte (tag : String) (i : UInt64 → UInt8 → Instruction) : Form where
  tag := tag
  fields := [.B, .x]
  make
    | [b, x] => some (i (.ofNat x) (.ofNat b))
    | _ => none

def pair (tag : String) (i : UInt64 → UInt64 → Instruction) : Form where
  tag := tag
  fields := [.y, .x]
  make
    | [y, x] => some (i (.ofNat x) (.ofNat y))
    | _ => none

def triple (tag : String) (i : UInt64 → UInt64 → UInt8 → Instruction) : Form where
  tag := tag
  fields := [.y, .x, .n]
  make
    | [y, x, n] => some (i (.ofNat x) (.ofNat y) (.ofNat n))
    | _ => none

def single (tag : String) (i : UInt64 → Instruction) : Form where
  tag := tag
  fields := [.x]
  make
    | [x] => some (i (.ofNat x))
    | _ => none

/-- The thirty-four kinds of instruction. -/
def all : List Form :=
  [plain "cls" .clear, plain "ret" .ret, address "jmp" .jump, address "call" .call,
   byte "seb" .skipIfByte, byte "sneb" .skipUnlessByte, triple "se" .skipIfSame,
   byte "movb" .setByte, byte "addb" .addByte,
   pair "mov" (.alu .copy), pair "or" (.alu .or), pair "and" (.alu .and),
   pair "xor" (.alu .xor), pair "add" (.alu .add), pair "sub" (.alu .subtract),
   pair "shr" (.alu .shiftRight), pair "bsub" (.alu .subtractFrom),
   pair "shl" (.alu .shiftLeft),
   triple "sne" .skipUnlessSame, address "movI" .setIndex, address "jmpr" .jumpOffset,
   byte "rand" .random, triple "draw" .draw, single "sek" .skipIfHeld,
   single "snek" .skipIfLoose, single "getdt" .getDelay, single "waitk" .awaitKey,
   single "setdt" .setDelay, single "movst" .setSound, single "addI" .addIndex,
   single "font" .pointGlyph, single "bcd" .storeDigits, single "dmao" .storeRegisters,
   single "dmai" .loadRegisters]

def ofTag? (tag : String) : Option Form :=
  all.find? (·.tag == tag)

end Instruction.Form

end Chip8
