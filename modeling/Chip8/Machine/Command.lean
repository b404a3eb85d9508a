import Chip8.Machine.Step

/-!
# What a host can ask of a machine

A command is a request that may change the machine. A history is a list of
commands carried out one after another, each with its own answer: a refused
command does not stop the ones behind it. A script stops at the first refusal.
-/

namespace Chip8

/-- A request that may change the machine. -/
inductive Command
  /-- Run one instruction with this random byte. -/
  | step (noise : UInt8)
  /-- Run instructions, each with its own random byte. -/
  | multistep (noise : Nat → UInt8) (count : Nat)
  | press (key : Nat)
  | release (key : Nat)
  | setRegister (register : Nat) (byte : UInt8)
  | reset
  /-- The picture has been drawn. -/
  | clearRedraw
  | load (program : List UInt8)
  /-- Change memory behind the program's back. -/
  | edit (edit : Memory.Edit)
  /-- Change pixels without asking for a redraw. -/
  | paint (edit : Surface.Edit)
  | beep
  /-- Start counting beeps again. -/
  | forgetBeeps

/-- The answer to a command that went through. -/
inductive Reply
  | done
  | changed (b : Bool)
  deriving DecidableEq, Repr

namespace Outcome

variable {σ : Type}

/-- The reply to a command without a result. -/
def plain (o : Outcome σ Unit) : Outcome σ Reply :=
  o.andThen fun m _ => .done m .done

/-- The reply to a command that tells whether it changed anything. -/
def telling (o : Outcome σ Bool) : Outcome σ Reply :=
  o.andThen fun m b => .done m (.changed b)

end Outcome

namespace Machine

variable {σ : Type} [Surface σ]

def perform (m : Machine σ) : Command → Outcome σ Reply
  | .step noise => (m.step noise).plain
  | .multistep noise count => (m.multistep noise count).plain
  | .press key => (m.press key).telling
  | .release key => (m.release key).telling
  | .setRegister register byte => (m.setRegister register byte).plain
  | .reset => .done m.reset .done
  | .clearRedraw => .done { m with redraw := false } .done
  | .load program => (m.load program).plain
  | .edit edit =>
    match m.memory.apply edit with
    | (memory, .ok ()) => .done { m with memory := memory } .done
    | (memory, .error fault) => .refused { m with memory := memory } fault
  | .paint edit => .done { m with surface := Surface.apply m.surface edit } .done
  | .beep => .done { m with beeps := m.beeps + 1 } .done
  | .forgetBeeps => .done { m with beeps := 0 } .done

theorem machine_perform_edit (m : Machine σ) (edit : Memory.Edit) :
    (m.perform (.edit edit)).machine = { m with memory := (m.memory.apply edit).1 } := by
  rw [perform]
  rcases m.memory.apply edit with ⟨memory, fault | _⟩ <;> rfl

/-- The machine behind a history of commands, whether they went through or not. -/
def after (m : Machine σ) (history : List Command) : Machine σ :=
  history.foldl (fun m command => (m.perform command).machine) m

/-- The answers to a history of commands. -/
def answers (m : Machine σ) : List Command → List (Except Fault Reply)
  | [] => []
  | command :: rest =>
    let o := m.perform command
    o.result :: o.machine.answers rest

/-- Carries out commands up to the first that is refused. -/
def script (m : Machine σ) : List Command → Outcome σ Unit
  | [] => .done m ()
  | command :: rest => (m.perform command).andThen fun m _ => m.script rest

end Machine

end Chip8
