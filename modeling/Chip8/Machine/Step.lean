import Chip8.Instruction.Code
import Chip8.Machine.Execute

/-!
# A step fetches, executes and ticks

While the machine waits for a key a step does nothing. Otherwise the program
counter moves past the word it points to, and the word is decoded and executed.
Only if that went through does the cycle count grow and do the timers tick; the
beep comes with the tick that brings the sound timer from one to zero.

A run of several steps is given one random byte for each step and ends at the
first fault. Nothing can wake a machine within the run, so it also ends as soon
as the machine waits.
-/

namespace Chip8.Machine

variable {σ : Type}

/-- Brings both timers one closer to zero, with a beep when the sound timer gets there. -/
def tick (m : Machine σ) : Machine σ :=
  { m with
    delay := if m.delay = 0 then 0 else m.delay - 1
    beeps := if m.sound = 1 then m.beeps + 1 else m.beeps
    sound := if m.sound = 0 then 0 else m.sound - 1 }

/-- Counts an instruction that went through. -/
def finish (m : Machine σ) : Machine σ :=
  tick { m with cycle := m.cycle + 1 }

/-- Runs one instruction, if the machine is not waiting. -/
def step [Surface σ] (m : Machine σ) (noise : UInt8) : Outcome σ Unit :=
  if m.isRunning then
    let word := m.nextWord
    let m := { m with pc := m.pc + 2 }
    match Instruction.decode word with
    | none => .refused m (.unknownOpcode word)
    | some instruction =>
      (m.execute noise instruction).andThen fun m _ => .done m.finish ()
  else .done m ()

/-- Runs up to `count` instructions, the first of them with byte `first` of the noise. -/
def stepsFrom [Surface σ] (noise : Nat → UInt8) (first : Nat) : Nat → Machine σ → Outcome σ Unit
  | 0, m => .done m ()
  | count + 1, m =>
    match m.step (noise first) with
    | ⟨m, .ok ()⟩ =>
      if m.isRunning then stepsFrom noise (first + 1) count m else .done m ()
    | ⟨m, .error fault⟩ => .refused m fault

def multistep [Surface σ] (m : Machine σ) (noise : Nat → UInt8) (count : Nat) : Outcome σ Unit :=
  stepsFrom noise 0 count m

end Chip8.Machine
