import Chip8.Instruction.Assembly
import Chip8.Instruction.Code
import Chip8.Machine.Basic
import Chip8.Numeral
import Chip8.Text.Labelled

/-!
# A machine in words

The report shows the registers, the timers and the instruction that comes next.
The cycle count is set in a dark colour, which the terminal is told by escape
sequences around it.
-/

namespace Chip8

/-- Whether the machine runs, in words. -/
def Status.text : Status → String
  | running => "running"
  | waiting register => "waiting for key -> v" ++ Numeral.hexCapital register.toNat

def Status.labelled : Status → String
  | running => "Running"
  | waiting register =>
      Text.labelled "WaitingForKey" [("register", Numeral.decimal register.toNat)]

/-- The labelled form, dead slots included. -/
def CallStack.labelled (s : CallStack) : String :=
  Text.labelled "Stack"
    [("entries", Text.bracketed (s.slots.toList.map UInt16.toNat)),
     ("sp", Numeral.decimal s.depth)]

namespace Machine

variable {σ : Type}

/-- One register in the table of registers; every fourth ends a line. -/
def reportRegister (m : Machine σ) (x : Nat) : String :=
  "v" ++ Numeral.hexCapital x ++ ": " ++ Numeral.hexPadded 2 (m.v.read x).toNat ++ " "
    ++ (if x % 4 = 3 then "\n" else "")

/-- The registers, the timers and the instruction that comes next. -/
def report (m : Machine σ) : String :=
  "PC: " ++ Numeral.hexPadded 4 m.pc.toNat
    ++ ", SP: " ++ Numeral.hexPadded 4 m.stack.depth
    ++ ", I: " ++ Numeral.hexPadded 4 m.index.toNat
    ++ " (" ++ m.status.text ++ ")\n"
    ++ String.join ((List.range 16).map m.reportRegister)
    ++ "DLY: " ++ Numeral.decimal m.delay.toNat
    ++ ", SND: " ++ Numeral.decimal m.sound.toNat
    ++ ", CYC: \x1b[90m" ++ Numeral.decimalPadded 6 m.cycle ++ "\x1b[39m\n"
    ++ "NXT: " ++ Numeral.hexPadded 4 m.nextWord.toNat ++ " "
    ++ (match Instruction.decode m.nextWord with
        | some instruction => instruction.text
        | none => "inval")
    ++ "\n"

end Machine

end Chip8
