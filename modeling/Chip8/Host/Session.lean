import Chip8.Host.Display
import Chip8.Host.Options

/-!
# The host runs frame after frame

In each frame the host passes on the events that are pending, lets the keypad
tick, runs the machine for a number of steps and shows the screen. It ends when
its frames are used up or an event asks to quit; the events behind that one are
left alone, and nothing more is run.
-/

namespace Chip8.Host

/-- A running host. `remaining` is the number of frames left, if there is a limit. -/
structure Session where
  steps : Nat
  rate : Nat
  remaining : Option Nat
  machine : Machine Screen
  display : Display
  pending : List Event
  deriving DecidableEq

namespace Session

/-- The first of the keys that the machine does not have. -/
def badKey? (keys : List Nat) : Option Nat :=
  keys.find? fun key => 16 ≤ key

/-- Sets up the host with what was read from the program's file. -/
def start (settings : Settings) (file : Except FileFault (List UInt8)) : Except Fault Session :=
  match (Machine.initial Screen.blank).loadFile file with
  | ⟨_, .error fault⟩ => .error fault
  | ⟨machine, .ok ()⟩ =>
    match badKey? settings.keys with
    | some key => .error (.invalidKey key)
    | none => .ok
        { steps := settings.steps
          rate := max settings.frameRate 1
          remaining := settings.frames
          machine := machine
          display := .fresh settings.keys settings.sticky
          pending := [] }

def enqueue (s : Session) (events : List Event) : Session :=
  { s with pending := s.pending ++ events }

/-- Passes on pending events up to the first that asks to quit or is refused. -/
def poll (display : Display) (machine : Machine Screen) :
    List Event → Display × List Event × Outcome Screen Bool
  | [] => (display, [], .done machine true)
  | event :: rest =>
    match display.input machine event with
    | (display, ⟨machine, .ok true⟩) => poll display machine rest
    | (display, outcome) => (display, rest, outcome)

/-- Passes on the pending events. The answer is whether to go on. -/
def takeInput (s : Session) : Session × Except Fault Bool :=
  let (display, pending, outcome) := poll s.display s.machine s.pending
  ({ s with display := display, pending := pending, machine := outcome.machine }, outcome.result)

/-- Lets the keypad tick, and presses the keys that are held for the whole run. -/
def holdKeys (s : Session) : Session × Except Fault Unit :=
  let (display, outcome) := s.display.keys s.machine
  ({ s with display := display, machine := outcome.machine }, outcome.result)

/-- Runs the machine for the steps of a frame. -/
def runSteps (s : Session) (noise : Nat → UInt8) : Session × Except Fault Unit :=
  let outcome := s.machine.multistep noise s.steps
  ({ s with machine := outcome.machine }, outcome.result)

def draw (s : Session) : Session :=
  let (display, machine, _) := s.display.frame s.machine
  { s with display := display, machine := machine }

def isOver (s : Session) : Bool :=
  s.remaining == some 0

def countFrame (s : Session) : Session :=
  { s with remaining := s.remaining.map (· - 1) }

/-- Runs one frame. There is no answer if no frame was left or the user has quit. -/
def next (s : Session) (noise : Nat → UInt8) : Session × Option (Except Fault Unit) :=
  if s.isOver then (s, none)
  else
    match s.countFrame.takeInput with
    | (s, .error fault) => (s, some (.error fault))
    | (s, .ok false) => ({ s with remaining := some 0 }, none)
    | (s, .ok true) =>
      match s.holdKeys with
      | (s, .error fault) => (s, some (.error fault))
      | (s, .ok ()) =>
        match s.runSteps noise with
        | (s, .error fault) => (s, some (.error fault))
        | (s, .ok ()) => (s.draw, some (.ok ()))

end Session

end Chip8.Host
