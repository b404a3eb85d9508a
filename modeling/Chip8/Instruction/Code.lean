import Chip8.Instruction.Basic

/-!
# Words and instructions

An instruction is written as one word of four hexadecimal digits. The first
digit tells the family; the others are operands, except where a family spends
its last one or two digits to tell its members apart. `decode` reads a word and
is undefined on words of no family; `encode` puts the operands back in place.
-/

namespace Chip8

/-- The operation with that last digit in a word of the family `8xy_`. -/
def Alu.ofDigit? : Nat → Option Alu
  | 0x0 => some .copy
  | 0x1 => some .or
  | 0x2 => some .and
  | 0x3 => some .xor
  | 0x4 => some .add
  | 0x5 => some .subtract
  | 0x6 => some .shiftRight
  | 0x7 => some .subtractFrom
  | 0xe => some .shiftLeft
  | _ => none

/-- The last digit of an operation's word. -/
def Alu.digit : Alu → Nat
  | .copy => 0x0
  | .or => 0x1
  | .and => 0x2
  | .xor => 0x3
  | .add => 0x4
  | .subtract => 0x5
  | .shiftRight => 0x6
  | .subtractFrom => 0x7
  | .shiftLeft => 0xe

namespace Instruction

/-- The instruction without operands whose word has these last two digits. -/
def ofPlainCode? : Nat → Option Instruction
  | 0xe0 => some .clear
  | 0xee => some .ret
  | _ => none

/-- The key test on `vx` whose word has these last two digits. -/
def ofKeyCode? (x : UInt64) : Nat → Option Instruction
  | 0x9e => some (.skipIfHeld x)
  | 0xa1 => some (.skipIfLoose x)
  | _ => none

/-- The instruction on `vx` of the last family whose word has these last two digits. -/
def ofDeviceCode? (x : UInt64) : Nat → Option Instruction
  | 0x07 => some (.getDelay x)
  | 0x0a => some (.awaitKey x)
  | 0x15 => some (.setDelay x)
  | 0x18 => some (.setSound x)
  | 0x1e => some (.addIndex x)
  | 0x29 => some (.pointGlyph x)
  | 0x33 => some (.storeDigits x)
  | 0x55 => some (.storeRegisters x)
  | 0x65 => some (.loadRegisters x)
  | _ => none

/-- The instruction that a word stands for, if it stands for one. -/
def decode (word : UInt16) : Option Instruction :=
  let code := word.toNat
  let a := UInt16.ofNat (code % 0x1000)
  let x := UInt64.ofNat (code / 0x100 % 0x10)
  let y := UInt64.ofNat (code / 0x10 % 0x10)
  let n := UInt8.ofNat (code % 0x10)
  let b := UInt8.ofNat (code % 0x100)
  match code / 0x1000 with
  | 0x0 => if code / 0x100 = 0 then ofPlainCode? (code % 0x100) else none
  | 0x1 => some (.jump a)
  | 0x2 => some (.call a)
  | 0x3 => some (.skipIfByte x b)
  | 0x4 => some (.skipUnlessByte x b)
  | 0x5 => some (.skipIfSame x y n)
  | 0x6 => some (.setByte x b)
  | 0x7 => some (.addByte x b)
  | 0x8 => (Alu.ofDigit? (code % 0x10)).map (.alu · x y)
  | 0x9 => some (.skipUnlessSame x y n)
  | 0xa => some (.setIndex a)
  | 0xb => some (.jumpOffset a)
  | 0xc => some (.random x b)
  | 0xd => some (.draw x y n)
  | 0xe => ofKeyCode? x (code % 0x100)
  | 0xf => ofDeviceCode? x (code % 0x100)
  | _ => none

/-- A word of the pattern `_xbb`. -/
def codeByte (family : Nat) (x : UInt64) (b : UInt8) : Nat :=
  0x1000 * family + 0x100 * x.toNat + b.toNat

/-- A word of the pattern `_xyn`. -/
def codeDigits (family : Nat) (x y : UInt64) (n : Nat) : Nat :=
  0x1000 * family + 0x100 * x.toNat + 0x10 * y.toNat + n

/-- A word of the pattern `_aaa`. -/
def codeAddress (family : Nat) (a : UInt16) : Nat :=
  0x1000 * family + a.toNat

/-- The number that an instruction is written as. -/
def code : Instruction → Nat
  | clear => 0x00e0
  | ret => 0x00ee
  | jump a => codeAddress 0x1 a
  | call a => codeAddress 0x2 a
  | skipIfByte x b => codeByte 0x3 x b
  | skipUnlessByte x b => codeByte 0x4 x b
  | skipIfSame x y n => codeDigits 0x5 x y n.toNat
  | setByte x b => codeByte 0x6 x b
  | addByte x b => codeByte 0x7 x b
  | alu operation x y => codeDigits 0x8 x y operation.digit
  | skipUnlessSame x y n => codeDigits 0x9 x y n.toNat
  | setIndex a => codeAddress 0xa a
  | jumpOffset a => codeAddress 0xb a
  | random x b => codeByte 0xc x b
  | draw x y n => codeDigits 0xd x y n.toNat
  | skipIfHeld x => codeByte 0xe x 0x9e
  | skipIfLoose x => codeByte 0xe x 0xa1
  | getDelay x => codeByte 0xf x 0x07
  | awaitKey x => codeByte 0xf x 0x0a
  | setDelay x => codeByte 0xf x 0x15
  | setSound x => codeByte 0xf x 0x18
  | addIndex x => codeByte 0xf x 0x1e
  | pointGlyph x => codeByte 0xf x 0x29
  | storeDigits x => codeByte 0xf x 0x33
  | storeRegisters x => codeByte 0xf x 0x55
  | loadRegisters x => codeByte 0xf x 0x65

/-- The word that an instruction is written as. -/
def encode (i : Instruction) : UInt16 :=
  UInt16.ofNat i.code

end Instruction

end Chip8
