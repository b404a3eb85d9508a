import Chip8.Instruction.Basic
import Chip8.Numeral

/-!
# Assembly text

A line of assembly is a mnemonic in a column of seven characters and the
operands behind it. Several instructions share a mnemonic; what stands before an
operand (nothing, `$`, `#`, `v`, `&`) tells them apart. The two comparisons of
registers leave out the digit that they ignore.
-/

namespace Chip8

/-- An operand as it is written in assembly. -/
inductive Operand
  /-- An address to go to. -/
  | target (a : UInt16)
  /-- An address to go to from `v0`. -/
  | offset (a : UInt16)
  /-- An address to keep. -/
  | address (a : UInt16)
  | byte (b : UInt8)
  | digit (n : UInt8)
  | register (x : UInt64)
  /-- The register `I`. -/
  | index
  /-- The memory that `I` points to. -/
  | memory
  | delay
  | sound
  deriving DecidableEq, Repr

def Operand.text : Operand → String
  | target a => Numeral.hexPadded 3 a.toNat
  | offset a => "$" ++ Numeral.hexPadded 3 a.toNat ++ "+v0"
  | address a => "$" ++ Numeral.hexPadded 3 a.toNat
  | byte b => "#" ++ Numeral.hexPadded 2 b.toNat
  | digit n => "#" ++ Numeral.hex n.toNat
  | register x => "v" ++ Numeral.hexCapital x.toNat
  | index => "I"
  | memory => "&I"
  | delay => "DT"
  | sound => "ST"

namespace Instruction

/-- The mnemonic and the operands, in the order in which they are written. -/
def assembly : Instruction → String × List Operand
  | clear => ("cls", [])
  | ret => ("ret", [])
  | jump a => ("jmp", [.target a])
  | call a => ("call", [.target a])
  | skipIfByte x b => ("se", [.byte b, .register x])
  | skipUnlessByte x b => ("sne", [.byte b, .register x])
  | skipIfSame x y _ => ("se", [.register y, .register x])
  | setByte x b => ("mov", [.byte b, .register x])
  | addByte x b => ("add", [.byte b, .register x])
  | alu operation x y => (operation.mnemonic, [.register y, .register x])
  | skipUnlessSame x y _ => ("sne", [.register y, .register x])
  | setIndex a => ("mov", [.address a, .index])
  | jumpOffset a => ("jmp", [.offset a])
  | random x b => ("rand", [.byte b, .register x])
  | draw x y n => ("draw", [.digit n, .register x, .register y])
  | skipIfHeld x => ("sek", [.register x])
  | skipIfLoose x => ("snek", [.register x])
  | getDelay x => ("mov", [.delay, .register x])
  | awaitKey x => ("waitk", [.register x])
  | setDelay x => ("mov", [.register x, .delay])
  | setSound x => ("mov", [.register x, .sound])
  | addIndex x => ("add", [.register x, .index])
  | pointGlyph x => ("font", [.register x, .index])
  | storeDigits x => ("bcd", [.register x, .memory])
  | storeRegisters x => ("dmao", [.register x])
  | loadRegisters x => ("dmai", [.register x])

/-- The line of assembly for an instruction. -/
def text (i : Instruction) : String :=
  let (mnemonic, operands) := i.assembly
  String.ofList (mnemonic.toList.rightpad 7 ' ')
    ++ String.intercalate ", " (operands.map Operand.text)

end Instruction

end Chip8
