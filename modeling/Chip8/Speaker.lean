/-!
# What beeps sound like

The machine only counts its beeps. A host may ring the terminal bell for each of
them, or leave them silent.
-/

namespace Chip8

/-- What a host does about beeps. -/
inductive Speaker
  | silent
  | counter
  | bell
  deriving DecidableEq, Repr

namespace Speaker

/-- What is written to the terminal for a number of beeps. -/
def output : Speaker → Nat → String
  | bell, beeps => String.ofList (List.replicate beeps '\x07')
  | silent, _ | counter, _ => ""

/-- The number of beeps that the speaker remembers, if it counts them. -/
def count? : Speaker → Nat → Option Nat
  | counter, beeps => some beeps
  | silent, _ | bell, _ => none

end Speaker

end Chip8
