/-!
# A lock remembers that a holder has failed

A lock hands out what it keeps to one holder at a time, and takes it back when that
holder is done with it. If a holder fails in the meantime, the lock is poisoned from
then on, and whoever asks for the content gets an error instead. The error carries
the content all the same, so it can be recovered.
-/

namespace Chip8

/-- What a lock keeps, and whether a holder has ever failed. -/
structure Mutex (α : Type) where
  content : α
  poisoned : Bool
  deriving DecidableEq

/-- The error of a poisoned lock. -/
structure Poison (α : Type) where
  content : α
  deriving DecidableEq

/-- What was handed out, be it in an error. -/
def Poison.recover {α : Type} : Except (Poison α) α → α
  | .ok content => content
  | .error poison => poison.content

namespace Mutex

variable {α : Type}

def ofContent (content : α) : Mutex α :=
  ⟨content, false⟩

/-- The content, in an error if the lock is poisoned. -/
def handOut (m : Mutex α) : Except (Poison α) α :=
  if m.poisoned then .error ⟨m.content⟩ else .ok m.content

/-- Hands out the content to a holder. -/
def lock (m : Mutex α) : Except (Poison α) α :=
  m.handOut

/-- Hands out the content for good. -/
def intoInner (m : Mutex α) : Except (Poison α) α :=
  m.handOut

/-- Takes the content back from a holder. A lock that is poisoned stays so. -/
def release (m : Mutex α) (content : α) (failed : Bool) : Mutex α :=
  ⟨content, m.poisoned || failed⟩

/-- Poison or not, the content can be recovered. -/
theorem recover_handOut (m : Mutex α) : Poison.recover m.handOut = m.content := by
  rw [handOut]
  cases m.poisoned <;> rfl

end Mutex

end Chip8
