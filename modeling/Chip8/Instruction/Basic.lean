/-!
# The instructions

There are thirty-four kinds of instruction. Nine of them combine two registers
and share one constructor, with the operation as a value of its own. Operands
are named as in the machine's manual: `x` and `y` name registers, `a` is an
address, `b` a byte and `n` a digit. An instruction may carry operands wider than
the digits of a word can hold; `InRange` singles out those that a word can.
-/

namespace Chip8

/-- What is done with two registers. -/
inductive Alu
  | copy
  | or
  | and
  | xor
  | add
  | subtract
  | shiftRight
  | subtractFrom
  | shiftLeft
  deriving DecidableEq, Repr

def Alu.mnemonic : Alu → String
  | copy => "mov"
  | or => "or"
  | and => "and"
  | xor => "xor"
  | add => "add"
  | subtract => "sub"
  | shiftRight => "shr"
  | subtractFrom => "bsub"
  | shiftLeft => "shl"

/-- An instruction with its operands. -/
inductive Instruction
  /-- Darkens the surface. -/
  | clear
  /-- Returns to the youngest address of the call stack. -/
  | ret
  /-- Continues at `a`. -/
  | jump (a : UInt16)
  /-- Continues at `a` and keeps the address behind this instruction. -/
  | call (a : UInt16)
  /-- Skips the next instruction if `vx` is `b`. -/
  | skipIfByte (x : UInt64) (b : UInt8)
  /-- Skips the next instruction unless `vx` is `b`. -/
  | skipUnlessByte (x : UInt64) (b : UInt8)
  /-- Skips the next instruction if `vx` is `vy`; the digit `n` has no effect. -/
  | skipIfSame (x y : UInt64) (n : UInt8)
  /-- Sets `vx` to `b`. -/
  | setByte (x : UInt64) (b : UInt8)
  /-- Adds `b` to `vx` and leaves the flag alone. -/
  | addByte (x : UInt64) (b : UInt8)
  /-- Sets `vx` to the result of the operation on `vx` and `vy`. -/
  | alu (operation : Alu) (x y : UInt64)
  /-- Skips the next instruction unless `vx` is `vy`; the digit `n` has no effect. -/
  | skipUnlessSame (x y : UInt64) (n : UInt8)
  /-- Sets `I` to `a`. -/
  | setIndex (a : UInt16)
  /-- Continues at `a` plus `v0`. -/
  | jumpOffset (a : UInt16)
  /-- Sets `vx` to those bits of a random byte that are set in `b`. -/
  | random (x : UInt64) (b : UInt8)
  /-- Draws the `n` bytes at `I` at column `vx` and row `vy`. -/
  | draw (x y : UInt64) (n : UInt8)
  /-- Skips the next instruction if key `vx` is held. -/
  | skipIfHeld (x : UInt64)
  /-- Skips the next instruction if key `vx` exists and is not held. -/
  | skipIfLoose (x : UInt64)
  /-- Sets `vx` to the delay timer. -/
  | getDelay (x : UInt64)
  /-- Waits for a key and sets `vx` to it. -/
  | awaitKey (x : UInt64)
  /-- Sets the delay timer to `vx`. -/
  | setDelay (x : UInt64)
  /-- Sets the sound timer to `vx`. -/
  | setSound (x : UInt64)
  /-- Adds `vx` to `I`. -/
  | addIndex (x : UInt64)
  /-- Sets `I` to the glyph of the digit in `vx`. -/
  | pointGlyph (x : UInt64)
  /-- Stores the three decimal digits of `vx` at `I`. -/
  | storeDigits (x : UInt64)
  /-- Stores `v0` up to `vx` at `I`. -/
  | storeRegisters (x : UInt64)
  /-- Loads `v0` up to `vx` from `I`. -/
  | loadRegisters (x : UInt64)
  deriving DecidableEq, Repr

/-- Every operand fits the digits that a word has for it. -/
def Instruction.InRange : Instruction → Prop
  | clear | ret => True
  | jump a | call a | setIndex a | jumpOffset a => a < 0x1000
  | skipIfByte x _ | skipUnlessByte x _ | setByte x _ | addByte x _ | random x _ => x < 16
  | skipIfSame x y n | skipUnlessSame x y n | draw x y n => x < 16 ∧ y < 16 ∧ n < 16
  | alu _ x y => x < 16 ∧ y < 16
  | skipIfHeld x | skipIfLoose x | getDelay x | awaitKey x | setDelay x | setSound x
  | addIndex x | pointGlyph x | storeDigits x | storeRegisters x | loadRegisters x => x < 16

end Chip8
