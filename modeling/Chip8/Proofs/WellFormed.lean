import Chip8.Proofs.Calls
import Chip8.Proofs.Decoding

/-!
# Every machine that can be reached is well formed

A machine is well formed if its memory and its screen have all their bytes, the live
part of its stack fits its slots, and the register that it may wait for exists. Each
of the four is looked after by a different part of the machine: stores keep the size
of memory, lighting and darkening that of the screen, a push is refused by a full
stack, and the decoder names no register past the last. The invariant therefore
holds at power-on and behind every history, whatever was refused on the way.
-/

namespace Chip8

namespace Machine

/-- Memory, stack, screen and status are such that no operation reaches past them. -/
structure WellFormed (m : Machine Screen) : Prop where
  memory : m.memory.Complete
  stack : m.stack.Sound
  surface : m.surface.Complete
  waiting : ∀ register, m.status = .waiting register → register < 16

theorem wellFormed_initial {screen : Screen} (h : screen.Complete) :
    (initial screen).WellFormed where
  memory := Memory.complete_initial
  stack := Nat.zero_le _
  surface := h
  waiting := fun register hr => by cases hr

namespace WellFormed

variable {m : Machine Screen}

theorem execute (h : m.WellFormed) {i : Instruction} (hi : i.InRange) {o : Outcome Screen Unit}
    (he : Effect m i o) : o.machine.WellFormed := by
  cases he with
  | plain => exact { h with }
  | store bytes => exact { h with memory := h.memory.store _ _ }
  | clear => exact { h with surface := h.surface.clear }
  | draw x y n =>
    refine { h with surface := ?_ }
    exact Sprite.draw_induction (P := Screen.Complete) (fun _ x y hs => hs.light x y)
      (fun _ x y hs => hs.darken x y) _ _ _ h.surface
  | await x =>
    refine { h with waiting := ?_ }
    intro register hr
    cases hr
    exact hi
  | call a hp => exact { h with stack := CallStack.Sound.push hp }
  | ret hp => exact { h with stack := h.stack.pop hp }
  | overflow => exact h
  | underflow => exact h

theorem step (h : m.WellFormed) (noise : UInt8) : (m.step noise).machine.WellFormed := by
  obtain ⟨_, hs⟩ | ⟨_, _, hs⟩ | ⟨i, o, _, hd, he, hs⟩ := m.step_cases noise
  · rw [hs]
    exact h
  · rw [hs]
    exact { h with }
  · have ho := execute (m := m.advance) { h with } (Instruction.inRange_of_decode hd) he
    rw [hs]
    obtain ⟨n, a, rfl⟩ | ⟨n, fault, rfl⟩ := o.done_or_refused
    · exact { ho with }
    · exact ho

theorem press (h : m.WellFormed) (key : Nat) : (m.press key).machine.WellFormed := by
  simp only [Machine.press]
  split
  · exact h
  · split
    · exact { h with }
    · exact { h with waiting := fun register hr => by cases hr }

/-- No command leaves an ill-formed machine behind, whether it goes through or not. -/
theorem perform (h : m.WellFormed) (command : Command) :
    (m.perform command).machine.WellFormed := by
  cases command with
  | step noise =>
    rw [Machine.perform, Outcome.machine_plain]
    exact h.step noise
  | multistep noise count =>
    rw [Machine.perform, Outcome.machine_plain]
    exact multistep_induction (fun _ noise h => h.step noise) h noise count
  | press key =>
    rw [Machine.perform, Outcome.machine_telling]
    exact h.press key
  | release key =>
    rw [Machine.perform, Outcome.machine_telling, release]
    split
    · exact h
    · exact { h with }
  | setRegister register byte =>
    rw [Machine.perform, Outcome.machine_plain, setRegister]
    split
    · exact { h with }
    · exact h
  | reset =>
    exact
      { memory := h.memory
        stack := Nat.zero_le _
        surface := h.surface.clear
        waiting := fun register hr => by cases hr }
  | load program =>
    rw [Machine.perform, Outcome.machine_plain, machine_load]
    exact { h with memory := h.memory.load .program program }
  | edit edit =>
    rw [machine_perform_edit]
    exact { h with memory := h.memory.apply edit }
  | paint edit =>
    refine { h with surface := ?_ }
    cases edit with
    | light x y => exact h.surface.light x y
    | darken x y => exact h.surface.darken x y
    | clear => exact h.surface.clear
  | clearRedraw => exact { h with }
  | beep => exact { h with }
  | forgetBeeps => exact { h with }

theorem after (h : m.WellFormed) (history : List Command) : (m.after history).WellFormed :=
  after_induction (fun _ command h => h.perform command) h history

end WellFormed

end Machine

end Chip8
