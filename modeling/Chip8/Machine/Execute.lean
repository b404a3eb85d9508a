import Chip8.Instruction.Basic
import Chip8.Machine.Basic
import Chip8.Octet

/-!
# What each instruction does

`execute` is run with the program counter already behind the instruction. Only a
call and a return can be refused, and then the machine is left as it was. An
operation on two registers reads both operands, writes the flag, and then writes
the result, so the result survives where the target is the flag register itself.

Drawing goes over the pixels of the sprite row by row. Each lit sprite bit turns
its pixel over, and the flag is raised if any pixel of the box was lit before it
was its turn.
-/

namespace Chip8

/-- One if a flag is up, else zero. -/
def flagByte (b : Bool) : UInt8 :=
  if b then 1 else 0

/-- The flag, for those operations that write one, computed from `vx` and `vy`. -/
def Alu.flag? : Alu → UInt8 → UInt8 → Option UInt8
  | copy, _, _ | or, _, _ | and, _, _ | xor, _, _ => none
  | add, a, b => some (flagByte (256 ≤ a.toNat + b.toNat))
  | subtract, a, b => some (flagByte (b < a))
  | shiftRight, a, _ => some (a &&& 0x01)
  | subtractFrom, a, b => some (flagByte (a < b))
  | shiftLeft, a, _ => some (a &&& 0x80)

/-- The new `vx`, computed from `vx` and `vy`. -/
def Alu.result : Alu → UInt8 → UInt8 → UInt8
  | copy, _, b => b
  | or, a, b => a ||| b
  | and, a, b => a &&& b
  | xor, a, b => a ^^^ b
  | add, a, b => a + b
  | subtract, a, b => a - b
  | shiftRight, a, _ => a >>> 1
  | subtractFrom, a, b => b - a
  | shiftLeft, a, _ => a <<< 1

namespace Registers

/-- Sets the flag register, if there is a flag to set. -/
def setFlag (v : Registers) : Option UInt8 → Registers
  | none => v
  | some byte => v.write flag byte

/-- Combines two registers: the flag is written before the result. -/
def combine (v : Registers) (operation : Alu) (x y : Nat) : Registers :=
  (v.setFlag (operation.flag? (v.read x) (v.read y))).write x
    (operation.result (v.read x) (v.read y))

def writeFrom (v : Registers) : Nat → List UInt8 → Registers
  | _, [] => v
  | x, byte :: rest => (v.write x byte).writeFrom (x + 1) rest

end Registers

namespace Sprite

variable {σ : Type} [Surface σ]

/-- Draws one pixel, and remembers whether any pixel so far was lit. -/
def drawPixel (x y : Nat) (row : UInt8) (state : σ × Bool) (column : Nat) : σ × Bool :=
  let (surface, hit) := state
  let lit := Surface.pixel surface (x + column) y
  if lit != Octet.pixel row column then (Surface.light surface (x + column) y, hit || lit)
  else (Surface.darken surface (x + column) y, hit || lit)

def drawRow (x y : Nat) (state : σ × Bool) (row : UInt8) : σ × Bool :=
  (List.range 8).foldl (drawPixel x y row) state

/-- Draws rows one below another. -/
def draw (x : Nat) : Nat → List UInt8 → σ × Bool → σ × Bool
  | _, [], state => state
  | y, row :: rest, state => draw x (y + 1) rest (drawRow x y state row)

end Sprite

namespace Machine

variable {σ : Type}

/-- Passes over the next instruction if the condition holds. -/
def skipIf (m : Machine σ) (condition : Bool) : Machine σ :=
  if condition then { m with pc := m.pc + 2 } else m

def setV (m : Machine σ) (x : Nat) (byte : UInt8) : Machine σ :=
  { m with v := m.v.write x byte }

def clearSurface [Surface σ] (m : Machine σ) : Machine σ :=
  { m with surface := Surface.clear m.surface, redraw := true }

/-- Draws the `n` bytes at `I` with their top left corner at column `vx` and row `vy`. -/
def drawSprite [Surface σ] (m : Machine σ) (x y n : Nat) : Machine σ :=
  let (surface, hit) :=
    Sprite.draw (m.v.read x).toNat (m.v.read y).toNat (m.memory.fetch m.index.toNat n)
      (m.surface, false)
  { m with surface := surface, v := m.v.write Registers.flag (flagByte hit), redraw := true }

/-- The hundreds, tens and ones of a byte. -/
def decimalDigits (byte : UInt8) : List UInt8 :=
  [byte / 100, byte / 10 % 10, byte % 10]

def storeAtIndex (m : Machine σ) (bytes : List UInt8) : Machine σ :=
  { m with memory := m.memory.store m.index.toNat bytes }

/-- Executes an instruction; `noise` is the random byte that it may use. -/
def execute [Surface σ] (m : Machine σ) (noise : UInt8) : Instruction → Outcome σ Unit
  | .clear => .done m.clearSurface ()
  | .ret =>
    match m.stack.pop with
    | (stack, .ok address) => .done { m with pc := address, stack := stack } ()
    | (stack, .error fault) => .refused { m with stack := stack } fault
  | .jump a => .done { m with pc := a } ()
  | .call a =>
    match m.stack.push m.pc with
    | (stack, .ok ()) => .done { m with pc := a, stack := stack } ()
    | (stack, .error fault) => .refused { m with stack := stack } fault
  | .skipIfByte x b => .done (m.skipIf (m.v.read x.toNat == b)) ()
  | .skipUnlessByte x b => .done (m.skipIf (m.v.read x.toNat != b)) ()
  | .skipIfSame x y _ => .done (m.skipIf (m.v.read x.toNat == m.v.read y.toNat)) ()
  | .setByte x b => .done (m.setV x.toNat b) ()
  | .addByte x b => .done (m.setV x.toNat (m.v.read x.toNat + b)) ()
  | .alu operation x y => .done { m with v := m.v.combine operation x.toNat y.toNat } ()
  | .skipUnlessSame x y _ => .done (m.skipIf (m.v.read x.toNat != m.v.read y.toNat)) ()
  | .setIndex a => .done { m with index := a } ()
  | .jumpOffset a => .done { m with pc := a + (m.v.read 0).toUInt16 } ()
  | .random x b => .done (m.setV x.toNat (noise &&& b)) ()
  | .draw x y n => .done (m.drawSprite x.toNat y.toNat n.toNat) ()
  | .skipIfHeld x => .done (m.skipIf (m.keys.held? (m.v.read x.toNat).toNat = some true)) ()
  | .skipIfLoose x => .done (m.skipIf (m.keys.held? (m.v.read x.toNat).toNat = some false)) ()
  | .getDelay x => .done (m.setV x.toNat m.delay) ()
  | .awaitKey x => .done { m with status := .waiting x } ()
  | .setDelay x => .done { m with delay := m.v.read x.toNat } ()
  | .setSound x => .done { m with sound := m.v.read x.toNat } ()
  | .addIndex x => .done { m with index := m.index + (m.v.read x.toNat).toUInt16 } ()
  | .pointGlyph x =>
    .done { m with index := (m.v.read x.toNat).toUInt16 * UInt16.ofNat Memory.glyphSize } ()
  | .storeDigits x => .done (m.storeAtIndex (decimalDigits (m.v.read x.toNat))) ()
  | .storeRegisters x =>
    .done (m.storeAtIndex ((List.range (x.toNat + 1)).map m.v.read)) ()
  | .loadRegisters x =>
    .done { m with v := m.v.writeFrom 0 (m.memory.fetch m.index.toNat (x.toNat + 1)) } ()

end Machine

end Chip8
