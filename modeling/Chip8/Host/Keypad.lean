import Chip8.Host.Key
import Chip8.Machine.Command

/-!
# The keypad lets go of keys by itself

Most terminals never report that a key has been let go. The keypad therefore
counts down for every key that was typed, and releases it when the count reaches
zero. Typing the key again starts the count again.
-/

namespace Chip8.Host

/-- The frames left for each key, and the frames that a typed key stays down. -/
structure Keypad where
  timeouts : Vector Nat 16
  sticky : Nat
  deriving DecidableEq

namespace Keypad

/-- No key is down, and a typed key will stay down for at least one frame. -/
def fresh (sticky : Nat) : Keypad :=
  ⟨Vector.replicate 16 0, max sticky 1⟩

/-- The frames left for a key; no key has none. -/
def timeout (pad : Keypad) (key : Nat) : Nat :=
  pad.timeouts[key]?.getD 0

def isPressed (pad : Keypad) (key : Nat) : Bool :=
  0 < pad.timeout key

def setTimeout (pad : Keypad) (key frames : Nat) : Keypad :=
  { pad with timeouts := pad.timeouts.setIfInBounds key frames }

/-- The keys that will be let go at the next tick. -/
def expiring (pad : Keypad) : List Nat :=
  (List.range 16).filter fun key => pad.timeout key = 1

/-- Every count goes down by one and stops at zero. -/
def countDown (pad : Keypad) : Keypad :=
  { pad with timeouts := pad.timeouts.map (· - 1) }

theorem timeout_setTimeout (pad : Keypad) {key : Nat} (hk : key < 16) (frames other : Nat) :
    (pad.setTimeout key frames).timeout other =
      if key = other then frames else pad.timeout other := by
  simp only [timeout, setTimeout, Vector.getElem?_setIfInBounds]
  by_cases h : key = other
  · simp [h, show other < 16 by omega]
  · simp [h]

theorem timeout_countDown (pad : Keypad) (key : Nat) :
    pad.countDown.timeout key = pad.timeout key - 1 := by
  simp only [timeout, countDown, Vector.getElem?_map]
  cases pad.timeouts[key]? <;> simp

theorem timeout_fresh (sticky key : Nat) : (fresh sticky).timeout key = 0 := by
  simp only [timeout, fresh, Vector.getElem?_replicate]
  split <;> rfl

variable {σ : Type} [Surface σ]

/-- Types or lets go of a key of the machine. -/
def apply (pad : Keypad) (m : Machine σ) (key : Nat) : KeyAction → Keypad × Outcome σ Unit
  | .press | .repeated =>
    match m.press key with
    | ⟨m, .ok _⟩ => (pad.setTimeout key pad.sticky, .done m ())
    | ⟨m, .error fault⟩ => (pad, .refused m fault)
  | .release =>
    match m.release key with
    | ⟨m, .ok _⟩ => (pad.setTimeout key 0, .done m ())
    | ⟨m, .error fault⟩ => (pad, .refused m fault)

/-- Passes a key event on to the machine. The answer is whether to go on. -/
def take (pad : Keypad) (m : Machine σ) (event : KeyEvent) : Keypad × Outcome σ Bool :=
  if event.isQuit then (pad, .done m (event.action == .release))
  else
    match event.code.key? with
    | none => (pad, .done m true)
    | some key =>
      let (pad, outcome) := pad.apply m key event.action
      (pad, outcome.andThen fun m _ => .done m true)

/-- Counts down, and lets go of the keys whose time is over. -/
def tick (pad : Keypad) (m : Machine σ) : Keypad × Outcome σ Unit :=
  (pad.countDown, m.script (pad.expiring.map .release))

end Keypad

end Chip8.Host
