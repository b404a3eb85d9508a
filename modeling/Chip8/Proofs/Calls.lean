import Chip8.Proofs.Unrolling
import Chip8.Screen

/-!
# A return comes back to its own call

The stack changes only by the push of a call and the pop of a return, so an address
stays in place until a return brings the depth back below it. From that follows what
a subroutine may rely on: however its code nests calls, faults, waits or rewrites
itself, as long as it is not left the addresses below it and its own return address
are untouched, and it is left by a return to the instruction behind its call.
-/

namespace Chip8

/-- A stack that rests on more than `base` is deeper. -/
theorem CallStack.depth_ne_of_isPrefix {s : CallStack} (hs : s.Sound) {base : List UInt16}
    {address : UInt16} (h : base ++ [address] <+: s.live) : s.depth ≠ base.length := by
  have hl := h.length_le
  rw [length_live hs, List.length_append, List.length_singleton] at hl
  omega

namespace Machine

variable {σ : Type} [Surface σ]

/-- The command is a step that executes a return and goes through. -/
def Returns (m : Machine σ) (command : Command) : Prop :=
  ∃ noise, command = .step noise ∧ m.isRunning = true ∧
    Instruction.decode m.nextWord = some .ret ∧ (m.step noise).result = .ok ()

/-- A step leaves the stack alone, pushes the address behind a call, or pops the address
at which a return goes on. -/
theorem stack_step (m : Machine σ) (noise : UInt8) :
    (m.step noise).machine.stack = m.stack ∨
    m.stack.push (m.pc + 2) = ((m.step noise).machine.stack, .ok ()) ∨
    m.Returns (.step noise) ∧
      m.stack.pop = ((m.step noise).machine.stack, .ok (m.step noise).machine.pc) := by
  obtain ⟨_, hs⟩ | ⟨_, _, hs⟩ | ⟨i, o, hr, hd, he, hs⟩ := m.step_cases noise
  · rw [hs]
    exact Or.inl rfl
  · rw [hs]
    exact Or.inl rfl
  · cases he with
    | call a hp =>
      rw [hs]
      exact Or.inr (Or.inl hp)
    | ret hp =>
      have hok : (m.step noise).result = .ok () := by rw [hs]; rfl
      refine Or.inr (Or.inr ⟨⟨noise, rfl, hr, hd, hok⟩, ?_⟩)
      rw [hs]
      exact hp
    | _ =>
      rw [hs]
      exact Or.inl rfl

/-- Single commands other than a reset do no more to the stack than a step does. -/
theorem stack_perform (m : Machine σ) {command : Command} (hs : command.IsSingle)
    (hr : command ≠ .reset) :
    (m.perform command).machine.stack = m.stack ∨
    m.stack.push (m.pc + 2) = ((m.perform command).machine.stack, .ok ()) ∨
    m.Returns command ∧
      m.stack.pop = ((m.perform command).machine.stack, .ok (m.perform command).machine.pc) := by
  cases command with
  | step noise =>
    rw [perform, Outcome.machine_plain]
    exact m.stack_step noise
  | multistep noise count => exact hs.elim
  | reset => exact absurd rfl hr
  | _ => exact Or.inl (KeptBy.stack (m.keptBy_of_isRequest trivial))

theorem sound_step {m : Machine σ} (h : m.stack.Sound) (noise : UInt8) :
    (m.step noise).machine.stack.Sound := by
  obtain he | hp | ⟨_, hp⟩ := m.stack_step noise
  · rw [he]
    exact h
  · exact CallStack.Sound.push hp
  · exact h.pop hp

/-- No command makes the stack deeper than its slots. -/
theorem sound_perform {m : Machine σ} (h : m.stack.Sound) (command : Command) :
    (m.perform command).machine.stack.Sound := by
  by_cases hs : command.IsSingle
  · by_cases hr : command = .reset
    · subst hr
      exact Nat.zero_le _
    · obtain he | hp | ⟨_, hp⟩ := m.stack_perform hs hr
      · rw [he]
        exact h
      · exact CallStack.Sound.push hp
      · exact h.pop hp
  · cases command with
    | multistep noise count =>
      simp only [perform, Outcome.machine_plain]
      exact multistep_induction (P := fun m => m.stack.Sound) (fun _ noise h => sound_step h noise)
        h noise count
    | _ => exact absurd trivial hs

theorem sound_after {m : Machine σ} (h : m.stack.Sound) (history : List Command) :
    (m.after history).stack.Sound :=
  after_induction (P := fun m => m.stack.Sound) (fun _ command h => sound_perform h command) h
    history

/-- Addresses at the bottom of the stack stay there, unless a return takes the topmost of
them and goes on at it. -/
theorem isPrefix_perform {m : Machine σ} (hsound : m.stack.Sound) {base : List UInt16}
    {address : UInt16} (h : base ++ [address] <+: m.stack.live) {command : Command}
    (hs : command.IsSingle) (hr : command ≠ .reset) :
    base ++ [address] <+: (m.perform command).machine.stack.live ∨
    m.Returns command ∧ (m.perform command).machine.pc = address ∧
      (m.perform command).machine.stack.live = base := by
  obtain he | hp | ⟨hret, hp⟩ := m.stack_perform hs hr
  · rw [he]
    exact Or.inl h
  · rw [CallStack.live_push hp]
    exact Or.inl (h.trans (List.prefix_append _ _))
  · rw [CallStack.live_pop hsound hp] at h
    obtain heq | hpre := List.prefix_concat_iff.mp h
    · obtain ⟨hb, ha⟩ := List.append_inj' heq rfl
      exact Or.inr ⟨hret, (List.singleton_inj.mp ha).symm, hb.symm⟩
    · exact Or.inl hpre

section Run

variable {m : Machine σ} {base : List UInt16} {address : UInt16} {moves : List Command}

/-- Until the depth falls back to that of `base`, the stack rests on `base` and `address`. -/
theorem isPrefix_take (hsound : m.stack.Sound) (h : base ++ [address] <+: m.stack.live)
    (hmoves : ∀ command ∈ moves, command.IsSingle ∧ command ≠ .reset) {k : Nat}
    (hk : k ≤ moves.length)
    (hdepth : ∀ j ≤ k, (m.after (moves.take j)).stack.depth ≠ base.length) :
    base ++ [address] <+: (m.after (moves.take k)).stack.live := by
  induction k with
  | zero => exact h
  | succ k ih =>
    have hpre := ih (by omega) fun j hj => hdepth j (by omega)
    have hget : moves[k]? = some moves[k] := List.getElem?_eq_getElem (by omega)
    obtain ⟨hs, hr⟩ := hmoves moves[k] (List.getElem_mem _)
    have hsk := sound_after hsound (moves.take k)
    have hd := hdepth (k + 1) (Nat.le_refl _)
    rw [after_take_succ m hget] at hd ⊢
    obtain hp | ⟨_, _, hl⟩ := isPrefix_perform hsk hpre hs hr
    · exact hp
    · have hlen := CallStack.length_live (sound_perform hsk moves[k])
      rw [hl] at hlen
      exact absurd hlen.symm hd

/-- What first brings the depth back to that of `base` is a return to `address`. -/
theorem returns_of_first_depth_eq (hsound : m.stack.Sound)
    (h : base ++ [address] <+: m.stack.live)
    (hmoves : ∀ command ∈ moves, command.IsSingle ∧ command ≠ .reset) {k : Nat}
    (hk : k ≤ moves.length)
    (hbefore : ∀ j < k, (m.after (moves.take j)).stack.depth ≠ base.length)
    (hdepth : (m.after (moves.take k)).stack.depth = base.length) :
    ∃ j command, k = j + 1 ∧ moves[j]? = some command ∧
      (m.after (moves.take j)).Returns command ∧ (m.after (moves.take k)).pc = address ∧
      (m.after (moves.take k)).stack.live = base := by
  cases k with
  | zero => exact absurd hdepth (CallStack.depth_ne_of_isPrefix hsound h)
  | succ j =>
    have hpre := isPrefix_take hsound h hmoves (k := j) (by omega)
      fun i hi => hbefore i (by omega)
    have hget : moves[j]? = some moves[j] := List.getElem?_eq_getElem (by omega)
    obtain ⟨hs, hr⟩ := hmoves moves[j] (List.getElem_mem _)
    have hsj := sound_after hsound (moves.take j)
    refine ⟨j, moves[j], rfl, hget, ?_⟩
    rw [after_take_succ m hget] at hdepth ⊢
    obtain hp | ⟨hret, hpc, hl⟩ := isPrefix_perform hsj hpre hs hr
    · exact absurd hdepth (CallStack.depth_ne_of_isPrefix (sound_perform hsj moves[j]) hp)
    · exact ⟨hret, hpc, hl⟩

end Run

/-- A call with room on the stack goes through and puts the address behind it on top. -/
theorem step_of_call {m : Machine σ} {a : UInt16} (hr : m.isRunning = true)
    (hd : Instruction.decode m.nextWord = some (.call a))
    (hroom : m.stack.depth < CallStack.capacity) (noise : UInt8) :
    (m.step noise).result = .ok () ∧
    m.stack.push (m.pc + 2) = ((m.step noise).machine.stack, .ok ()) := by
  have hp : m.advance.stack.push m.advance.pc = _ := CallStack.push_of_lt hroom (m.pc + 2)
  rw [step_of_decode_eq_some hr hd, execute, hp]
  exact ⟨rfl, CallStack.push_of_lt hroom (m.pc + 2)⟩

/-- **A return comes back to its own call.** After a call and until the depth is back to what it
was before, the live addresses are those from before the call, the address behind the call, and
whatever lies above. What first brings the depth back is a return that goes on behind the call
and leaves the stack as it was before it. Runs of several steps are taken step by step. -/
theorem call_returns {m : Machine σ} {a : UInt16} (hr : m.isRunning = true)
    (hd : Instruction.decode m.nextWord = some (.call a))
    (hroom : m.stack.depth < CallStack.capacity) (noise : UInt8) {history : List Command}
    (hreset : .reset ∉ history) :
    let called := (m.step noise).machine
    let moves := called.unroll history
    let state (k : Nat) := called.after (moves.take k)
    (m.step noise).result = .ok () ∧ (∀ command ∈ moves, command.IsSingle) ∧
    state moves.length = called.after history ∧
    ∀ k ≤ moves.length,
      ((∀ j ≤ k, (state j).stack.depth ≠ m.stack.depth) →
        (state k).stack.live.take m.stack.depth = m.stack.live ∧
        (state k).stack.live[m.stack.depth]? = some (m.pc + 2)) ∧
      ((∀ j < k, (state j).stack.depth ≠ m.stack.depth) →
        (state k).stack.depth = m.stack.depth →
        ∃ j command, k = j + 1 ∧ moves[j]? = some command ∧ (state j).Returns command ∧
          (state k).pc = m.pc + 2 ∧ (state k).stack.live = m.stack.live) := by
  intro called moves state
  obtain ⟨hok, hpush⟩ := step_of_call hr hd hroom noise
  have hsound : called.stack.Sound := CallStack.Sound.push hpush
  have hlive : called.stack.live = m.stack.live ++ [m.pc + 2] := CallStack.live_push hpush
  have hlen : m.stack.live.length = m.stack.depth :=
    CallStack.length_live (Nat.le_of_lt hroom)
  have hmoves : ∀ command ∈ moves, command.IsSingle ∧ command ≠ .reset := by
    intro command hc
    obtain ⟨hs, ⟨byte, rfl⟩ | hh⟩ := mem_unroll hc
    · exact ⟨hs, nofun⟩
    · exact ⟨hs, fun he => hreset (he ▸ hh)⟩
  have hpre : m.stack.live ++ [m.pc + 2] <+: called.stack.live := hlive ▸ List.prefix_rfl
  refine ⟨hok, fun command hc => (hmoves command hc).1, ?_, fun k hk => ⟨?_, ?_⟩⟩
  · simp only [state, List.take_length]
    exact after_unroll called history
  · intro hne
    obtain ⟨above, habove⟩ := isPrefix_take hsound hpre hmoves hk (hlen ▸ hne)
    simp only [state, ← habove, ← hlen, List.append_assoc]
    exact ⟨List.take_left, by simp⟩
  · intro hne heq
    exact returns_of_first_depth_eq hsound hpre hmoves hk (hlen ▸ hne) (hlen ▸ heq)

/-- A subroutine that calls the return behind its own call, while a key is pressed and memory
is edited. The run goes on until a return finds nothing to come back to. -/
theorem call_returns_of_nested_call :
    let m : Machine Screen :=
      { Machine.initial Screen.blank with
        memory := Memory.initial.store 0x200 [0x22, 0x04, 0x00, 0xee, 0x22, 0x02, 0x00, 0xee] }
    let history : List Command :=
      [.press 3, .step 0, .edit (.write 0x300 0x12), .multistep (fun _ => 0) 9]
    let called := (m.step 0).machine
    let moves := called.unroll history
    let state (k : Nat) := called.after (moves.take k)
    m.isRunning = true ∧ Instruction.decode m.nextWord = some (.call 0x204) ∧
    m.stack.depth < CallStack.capacity ∧ .reset ∉ history ∧
    (m.step 0).result = .ok () ∧ (∀ command ∈ moves, command.IsSingle) ∧
    state moves.length = called.after history ∧
    ∀ k ≤ moves.length,
      ((∀ j ≤ k, (state j).stack.depth ≠ m.stack.depth) →
        (state k).stack.live.take m.stack.depth = m.stack.live ∧
        (state k).stack.live[m.stack.depth]? = some (m.pc + 2)) ∧
      ((∀ j < k, (state j).stack.depth ≠ m.stack.depth) →
        (state k).stack.depth = m.stack.depth →
        ∃ j command, k = j + 1 ∧ moves[j]? = some command ∧ (state j).Returns command ∧
          (state k).pc = m.pc + 2 ∧ (state k).stack.live = m.stack.live) := by
  intro m history
  have hd : Instruction.decode m.nextWord = some (.call 0x204) := by
    show Instruction.decode (Memory.readWord _ 0x200) = _
    rw [Memory.readWord_store Memory.complete_initial 0x200 0x22 0x04 _ (by decide)]
    decide
  have hreset : .reset ∉ history := by simp [history]
  exact ⟨rfl, hd, by decide, hreset, call_returns rfl hd (by decide) 0 hreset⟩

end Machine

end Chip8
