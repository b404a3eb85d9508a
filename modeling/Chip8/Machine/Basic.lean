import Chip8.CallStack
import Chip8.Memory
import Chip8.Surface

/-!
# The machine

A machine is memory, call stack, registers, two timers, sixteen keys, a surface
to draw on and a count of the beeps it has made. It runs, or it waits for a key
that goes to a register. `redraw` is raised by whatever may change the surface
and lowered only when the host has drawn it.

An operation on a machine yields the machine that it leaves behind together with
its result, so a refused operation shows what it has changed.
-/

namespace Chip8

/-- Whether the machine runs or waits for a key. -/
inductive Status
  | running
  | waiting (register : UInt64)
  deriving DecidableEq, Repr

namespace Status

/-- The machine will execute at its next step. -/
def isRunning : Status → Bool
  | running => true
  | waiting _ => false

/-- Running comes first; machines that wait are ordered by the register. -/
def compare : Status → Status → Ordering
  | running, running => .eq
  | running, waiting _ => .lt
  | waiting _, running => .gt
  | waiting r, waiting s => Ord.compare r.toNat s.toNat

end Status

/-- The sixteen registers. -/
abbrev Registers := Vector UInt8 16

namespace Registers

def zero : Registers := Vector.replicate 16 0

/-- The register of that number; a number past the last reads as zero. -/
def read (v : Registers) (x : Nat) : UInt8 :=
  v[x]?.getD 0

/-- Sets the register of that number, if there is one. -/
def write (v : Registers) (x : Nat) (byte : UInt8) : Registers :=
  v.setIfInBounds x byte

/-- The number of the register that takes flags. -/
def flag : Nat := 15

theorem read_write (v : Registers) {x : Nat} (hx : x < 16) (y : Nat) (byte : UInt8) :
    (v.write x byte).read y = if x = y then byte else v.read y := by
  simp only [read, write, Vector.getElem?_setIfInBounds]
  by_cases h : x = y
  · simp [h, show y < 16 by omega]
  · simp [h]

/-- Registers are known by what is read from the sixteen of them. -/
theorem eq_of_read_eq {v w : Registers} (h : ∀ x < 16, v.read x = w.read x) : v = w := by
  apply Vector.ext
  intro x hx
  simpa [read, hx] using h x hx

end Registers

/-- For each key, whether it is held. -/
abbrev Keys := Vector Bool 16

namespace Keys

/-- No key is held. -/
def loose : Keys := Vector.replicate 16 false

/-- Whether the key is held, if there is such a key. -/
def held? (keys : Keys) (key : Nat) : Option Bool :=
  keys[key]?

/-- The held keys in ascending order. -/
def held (keys : Keys) : List Nat :=
  (List.range 16).filter fun key => keys.held? key = some true

/-- Holds a key or lets it go; a key that does not exist changes nothing. -/
def set (keys : Keys) (key : Nat) (down : Bool) : Keys :=
  keys.setIfInBounds key down

theorem held?_set (keys : Keys) {key : Nat} (hk : key < 16) (other : Nat) (down : Bool) :
    (keys.set key down).held? other = if key = other then some down else keys.held? other := by
  simp only [held?, set, Vector.getElem?_setIfInBounds]
  by_cases h : key = other
  · simp [h, show other < 16 by omega]
  · simp [h]

theorem set_of_le (keys : Keys) {key : Nat} (hk : 16 ≤ key) (down : Bool) :
    keys.set key down = keys := by
  apply Vector.ext
  intro i hi
  rw [set, Vector.getElem_setIfInBounds hi, if_neg (by omega)]

theorem held?_eq_none_iff (keys : Keys) (key : Nat) : keys.held? key = none ↔ 16 ≤ key := by
  simp [held?]

theorem lt_of_held?_eq_some {keys : Keys} {key : Nat} {held : Bool}
    (h : keys.held? key = some held) : key < 16 := by
  apply Nat.lt_of_not_le
  intro hle
  rw [(held?_eq_none_iff keys key).mpr hle] at h
  cases h

end Keys

/-- The machine with a surface of type `σ`. -/
structure Machine (σ : Type) where
  memory : Memory
  stack : CallStack
  pc : UInt16
  index : UInt16
  v : Registers
  delay : UInt8
  sound : UInt8
  keys : Keys
  surface : σ
  beeps : Nat
  status : Status
  redraw : Bool
  cycle : Nat
  deriving DecidableEq

/-- What an operation leaves behind and what it answers. -/
structure Outcome (σ α : Type) where
  machine : Machine σ
  result : Except Fault α

namespace Outcome

/-- The operation went through and answers `a`. -/
def done {σ α : Type} (m : Machine σ) (a : α) : Outcome σ α :=
  ⟨m, .ok a⟩

def refused {σ α : Type} (m : Machine σ) (fault : Fault) : Outcome σ α :=
  ⟨m, .error fault⟩

/-- Goes on from what an operation left behind, unless it was refused. -/
def andThen {σ α β : Type} (o : Outcome σ α) (next : Machine σ → α → Outcome σ β) : Outcome σ β :=
  match o with
  | ⟨m, .ok a⟩ => next m a
  | ⟨m, .error fault⟩ => ⟨m, .error fault⟩

@[simp]
theorem andThen_done {σ α β : Type} (m : Machine σ) (a : α)
    (next : Machine σ → α → Outcome σ β) : (done m a).andThen next = next m a := rfl

@[simp]
theorem andThen_refused {σ α β : Type} (m : Machine σ) (fault : Fault)
    (next : Machine σ → α → Outcome σ β) :
    (refused m fault).andThen next = refused m fault := rfl

end Outcome

namespace Machine

variable {σ : Type}

/-- A machine at power-on. -/
def initial (surface : σ) : Machine σ where
  memory := .initial
  stack := .empty
  pc := Memory.programStart
  index := 0
  v := .zero
  delay := 0
  sound := 0
  keys := .loose
  surface := surface
  beeps := 0
  status := .running
  redraw := false
  cycle := 0

/-- The machine will execute at its next step. -/
def isRunning (m : Machine σ) : Bool :=
  m.status.isRunning

theorem isRunning_iff {m : Machine σ} : m.isRunning = true ↔ m.status = .running := by
  rw [isRunning]
  cases m.status <;> simp [Status.isRunning]

theorem isRunning_of_waiting {m : Machine σ} {r : UInt64} (h : m.status = .waiting r) :
    m.isRunning = false := by
  rw [isRunning, h]
  rfl

def nextWord (m : Machine σ) : UInt16 :=
  m.memory.readWord m.pc.toNat

/-- Back to power-on with the program still in memory, the picture gone and a redraw due. -/
def reset [Surface σ] (m : Machine σ) : Machine σ :=
  { m with
    stack := m.stack.clear
    pc := Memory.programStart
    index := 0
    v := .zero
    delay := 0
    sound := 0
    keys := .loose
    surface := Surface.clear m.surface
    status := .running
    redraw := true
    cycle := 0 }

/-- Stores a program where programs start. -/
def load (m : Machine σ) (program : List UInt8) : Outcome σ Unit :=
  match m.memory.load .program program with
  | (memory, .ok ()) => .done { m with memory := memory } ()
  | (memory, .error fault) => .refused { m with memory := memory } fault

theorem machine_load (m : Machine σ) (program : List UInt8) :
    (m.load program).machine = { m with memory := (m.memory.load .program program).1 } := by
  rw [load]
  rcases m.memory.load .program program with ⟨memory, fault | _⟩ <;> rfl

/-- Stores the program of a file where programs start. -/
def loadFile (m : Machine σ) (file : Except FileFault (List UInt8)) : Outcome σ Unit :=
  match file with
  | .ok program => m.load program
  | .error cause => .refused m (.unreadable cause)

def setRegister (m : Machine σ) (register : Nat) (byte : UInt8) : Outcome σ Unit :=
  if register < 16 then .done { m with v := m.v.write register byte } ()
  else .refused m (.invalidRegister register)

/-- Holds a key down and tells whether that is news. A machine that waits takes the key and runs. -/
def press (m : Machine σ) (key : Nat) : Outcome σ Bool :=
  match m.keys.held? key with
  | none => .refused m (.invalidKey key)
  | some held =>
    let keys := m.keys.set key true
    match m.status with
    | .running => .done { m with keys := keys } !held
    | .waiting register =>
      .done
        { m with
          keys := keys
          v := m.v.write register.toNat (UInt8.ofNat key)
          status := .running }
        !held

/-- Lets a key go and tells whether that is news. -/
def release (m : Machine σ) (key : Nat) : Outcome σ Bool :=
  match m.keys.held? key with
  | none => .refused m (.invalidKey key)
  | some held => .done { m with keys := m.keys.set key false } held

end Machine

end Chip8
