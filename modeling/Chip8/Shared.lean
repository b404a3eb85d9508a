import Chip8.Machine.Command
import Chip8.Mutex

/-!
# One machine behind many handles

Handles are numbered in the order in which they are made. Every one of them leads
to the same lock, and a request through any of them is carried out as a whole
before the next one. If a holder fails while it has the machine to itself, the lock
is poisoned, and whoever comes next recovers the machine from the error. The machine
can be taken back only through the last handle.
-/

namespace Chip8

/-- A machine in its lock, the handles that lead to it, and how many were ever made. -/
structure Shared (σ : Type) where
  mutex : Mutex (Machine σ)
  handles : List Nat
  made : Nat
  deriving DecidableEq

namespace Shared

variable {σ : Type}

/-- A machine with one handle, number zero. -/
def ofMachine (m : Machine σ) : Shared σ :=
  ⟨.ofContent m, [0], 1⟩

/-- The handle leads to the machine. -/
def isLive (s : Shared σ) (handle : Nat) : Bool :=
  s.handles.contains handle

/-- Takes the machine out of the lock. That a holder has failed does not make it invalid. -/
def lock (s : Shared σ) : Machine σ :=
  Poison.recover s.mutex.lock

/-- Puts the machine back into the lock. -/
def release (s : Shared σ) (m : Machine σ) (failed : Bool) : Shared σ :=
  { s with mutex := s.mutex.release m failed }

/-- Carries out a command through a handle; a handle that is gone gives no answer. -/
def perform [Surface σ] (s : Shared σ) (handle : Nat) (command : Command) :
    Shared σ × Option (Except Fault Reply) :=
  if s.isLive handle then
    let outcome := s.lock.perform command
    (s.release outcome.machine false, some outcome.result)
  else (s, none)

/-- A holder fails before it has changed anything. -/
def fail (s : Shared σ) : Shared σ :=
  s.release s.lock true

/-- Makes another handle from a handle, and tells its number. -/
def clone (s : Shared σ) (handle : Nat) : Shared σ × Option Nat :=
  if s.isLive handle then
    ({ s with handles := s.handles ++ [s.made], made := s.made + 1 }, some s.made)
  else (s, none)

def drop (s : Shared σ) (handle : Nat) : Shared σ :=
  { s with handles := s.handles.filter (· != handle) }

/-- Takes the machine back and gives up the handle, if it is the only one. -/
def unwrap (s : Shared σ) (handle : Nat) : Shared σ × Option (Machine σ) :=
  if s.handles = [handle] then (s.drop handle, some (Poison.recover s.mutex.intoInner))
  else (s, none)

theorem lock_eq (s : Shared σ) : s.lock = s.mutex.content :=
  s.mutex.recover_handOut

/-- Nothing happens to the machine if it is put back as it was. -/
theorem release_lock (s : Shared σ) : s.release s.lock false = s := by
  rw [lock_eq, release, Mutex.release, Bool.or_false]

end Shared

end Chip8
