import Chip8.Proofs.Execution

/-!
# A run of several steps is its steps

A history may ask for many steps at once. Unrolling puts the steps that are really
taken in their place: all of them, or those up to the first that is refused. What is
left are single commands, with a machine before and after each of them, and the last
of these machines is the one that the history itself leads to.
-/

namespace Chip8

/-- The command is not a run of several steps. -/
def Command.IsSingle : Command → Prop
  | .multistep _ _ => False
  | _ => True

namespace Machine

variable {σ : Type} [Surface σ]

/-- The steps that `count` steps come to: none follows one that is refused. -/
def strides (noise : Nat → UInt8) : (first count : Nat) → Machine σ → List Command
  | _, 0, _ => []
  | first, count + 1, m =>
    .step (noise first) ::
      match m.step (noise first) with
      | ⟨next, .ok ()⟩ => strides noise (first + 1) count next
      | ⟨_, .error _⟩ => []

/-- The single commands that a command comes to. -/
def moves (m : Machine σ) : Command → List Command
  | .multistep noise count => strides noise 0 count m
  | command => [command]

/-- The single commands that a history comes to. -/
def unroll (m : Machine σ) : List Command → List Command
  | [] => []
  | command :: rest => m.moves command ++ (m.perform command).machine.unroll rest

theorem after_strides (m : Machine σ) (noise : Nat → UInt8) (first count : Nat) :
    m.after (strides noise first count m) = (stepsFrom noise first count m).machine := by
  induction count generalizing first m with
  | zero => rfl
  | succ count ih =>
    rw [strides, stepsFrom_succ, after_cons, perform, Outcome.machine_plain]
    obtain ⟨n, a, h⟩ | ⟨n, fault, h⟩ := (m.step (noise first)).done_or_refused
    · rw [h]
      exact ih n (first + 1)
    · rw [h]
      rfl

theorem after_moves (m : Machine σ) (command : Command) :
    m.after (m.moves command) = (m.perform command).machine := by
  cases command with
  | multistep noise count =>
    rw [moves, after_strides, perform, Outcome.machine_plain]
    rfl
  | _ => rfl

/-- Unrolling a history does not change where it leads. -/
theorem after_unroll (m : Machine σ) (history : List Command) :
    m.after (m.unroll history) = m.after history := by
  induction history generalizing m with
  | nil => rfl
  | cons command rest ih => rw [unroll, after_append, after_moves, ih, after_cons]

theorem mem_strides {m : Machine σ} {noise : Nat → UInt8} {first count : Nat} {command : Command}
    (h : command ∈ strides noise first count m) : ∃ byte, command = .step byte := by
  induction count generalizing first m with
  | zero => cases h
  | succ count ih =>
    rw [strides, List.mem_cons] at h
    obtain rfl | h := h
    · exact ⟨_, rfl⟩
    · split at h
      · exact ih h
      · cases h

/-- Unrolling leaves single commands only, and brings in none but steps. -/
theorem mem_unroll {m : Machine σ} {history : List Command} {command : Command}
    (h : command ∈ m.unroll history) :
    command.IsSingle ∧ ((∃ byte, command = .step byte) ∨ command ∈ history) := by
  induction history generalizing m with
  | nil => cases h
  | cons first rest ih =>
    rw [unroll, List.mem_append] at h
    obtain h | h := h
    · cases first with
      | multistep noise count =>
        obtain ⟨byte, rfl⟩ := mem_strides h
        exact ⟨trivial, Or.inl ⟨byte, rfl⟩⟩
      | _ =>
        obtain rfl := List.mem_singleton.mp h
        exact ⟨trivial, Or.inr List.mem_cons_self⟩
    · obtain ⟨hs, hb | hm⟩ := ih h
      · exact ⟨hs, Or.inl hb⟩
      · exact ⟨hs, Or.inr (List.mem_cons_of_mem first hm)⟩

end Machine

end Chip8
