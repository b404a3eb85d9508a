import Chip8.Proofs.Simulation
import Chip8.Proofs.WellFormed

/-!
# Starting over is as good as a new machine

Starting over leaves three traces of the past. The redraw flag is raised, the beeps stay
counted, and the slots of the stack keep their old addresses, though none of them is live.
No step and no request ever looks at the flag, at the count or at a dead slot. So a machine
that has started over and a new machine with the same memory answer every history alike and
look alike behind each of its commands, and they beep equally often, although their dead
slots need never become equal.
-/

namespace Chip8

/-- On a complete screen, clearing gives a new screen. -/
theorem Screen.clear_of_complete {s : Screen} (hs : s.Complete) : s.clear = blank := by
  have hsize : s.bytes.size = byteCount := hs
  simp only [clear, blank, Array.map_const', hsize]

namespace Machine

variable {σ : Type}

/-! ## Beeps and the redraw flag do not matter -/

/-- The machines differ at most in whether a redraw is due and in the beeps, of which the second
has made `offset` more. -/
def Ahead (offset : Nat) (m n : Machine σ) : Prop :=
  ∃ redraw, n = { m with redraw := redraw, beeps := offset + m.beeps }

namespace Ahead

variable {offset : Nat} {m n : Machine σ}

theorem skipIf (h : Ahead offset m n) (condition : Bool) :
    Ahead offset (m.skipIf condition) (n.skipIf condition) := by
  obtain ⟨redraw, rfl⟩ := h
  cases condition
  · exact ⟨redraw, rfl⟩
  · exact ⟨redraw, rfl⟩

theorem finish (h : Ahead offset m n) : Ahead offset m.finish n.finish := by
  obtain ⟨redraw, rfl⟩ := h
  have hbeeps : (if m.sound = 1 then offset + m.beeps + 1 else offset + m.beeps)
      = offset + if m.sound = 1 then m.beeps + 1 else m.beeps := by
    split <;> rfl
  refine ⟨redraw, ?_⟩
  simp only [Machine.finish, tick, hbeeps]

theorem press (h : Ahead offset m n) (key : Nat) :
    (m.press key).Agree (Ahead offset) (n.press key) := by
  obtain ⟨redraw, rfl⟩ := h
  simp only [Machine.press]
  split
  · exact .refused ⟨redraw, rfl⟩ _
  · split
    · exact .done ⟨redraw, rfl⟩ _
    · exact .done ⟨redraw, rfl⟩ _

variable [Surface σ]

theorem execute (h : Ahead offset m n) (noise : UInt8) (i : Instruction) :
    (m.execute noise i).Agree (Ahead offset) (n.execute noise i) := by
  obtain ⟨redraw, rfl⟩ := h
  cases i with
  | clear => exact .done ⟨true, rfl⟩ ()
  | draw x y k => exact .done ⟨true, rfl⟩ ()
  | ret =>
    simp only [Machine.execute]
    rcases m.stack.pop with ⟨stack, fault | address⟩
    · exact .refused ⟨redraw, rfl⟩ fault
    · exact .done ⟨redraw, rfl⟩ ()
  | call a =>
    simp only [Machine.execute]
    rcases m.stack.push m.pc with ⟨stack, fault | _⟩
    · exact .refused ⟨redraw, rfl⟩ fault
    · exact .done ⟨redraw, rfl⟩ ()
  | skipIfByte | skipUnlessByte | skipIfSame | skipUnlessSame | skipIfHeld | skipIfLoose =>
    exact .done (skipIf ⟨redraw, rfl⟩ _) ()
  | _ => exact .done ⟨redraw, rfl⟩ ()

theorem step (h : Ahead offset m n) (noise : UInt8) :
    (m.step noise).Agree (Ahead offset) (n.step noise) := by
  have hn : n.isRunning = m.isRunning ∧ n.nextWord = m.nextWord := by
    obtain ⟨redraw, rfl⟩ := h
    exact ⟨rfl, rfl⟩
  have hadvance : Ahead offset m.advance n.advance := by
    obtain ⟨redraw, rfl⟩ := h
    exact ⟨redraw, rfl⟩
  cases hr : m.isRunning with
  | false =>
    rw [step_of_not_running hr, step_of_not_running (hn.1.trans hr)]
    exact .done h ()
  | true =>
    have hr' : n.isRunning = true := hn.1.trans hr
    cases hd : Instruction.decode m.nextWord with
    | none =>
      rw [step_of_decode_eq_none hr hd, step_of_decode_eq_none hr' (hn.2 ▸ hd), hn.2]
      exact .refused hadvance _
    | some i =>
      rw [step_of_decode_eq_some hr hd, step_of_decode_eq_some hr' (hn.2 ▸ hd)]
      exact (hadvance.execute noise i).andThen fun _ hmn => .done hmn.finish ()

theorem stepsFrom (h : Ahead offset m n) (noise : Nat → UInt8) (first count : Nat) :
    (stepsFrom noise first count m).Agree (Ahead offset) (stepsFrom noise first count n) := by
  induction count generalizing first m n with
  | zero => exact .done h ()
  | succ count ih =>
    rw [stepsFrom_succ, stepsFrom_succ]
    exact (h.step (noise first)).andThen fun _ hmn => ih hmn (first + 1)

theorem perform (h : Ahead offset m n) {command : Command} (hcount : command ≠ .forgetBeeps) :
    (m.perform command).Agree (Ahead offset) (n.perform command) := by
  have hmn := h
  obtain ⟨redraw, rfl⟩ := hmn
  cases command with
  | step noise => exact (h.step noise).plain
  | multistep noise count => exact (h.stepsFrom noise 0 count).plain
  | press key => exact (h.press key).telling
  | release key =>
    simp only [Machine.perform, Machine.release]
    split
    · exact .refused ⟨redraw, rfl⟩ _
    · exact .done ⟨redraw, rfl⟩ _
  | setRegister register byte =>
    simp only [Machine.perform, Machine.setRegister]
    split
    · exact .done ⟨redraw, rfl⟩ _
    · exact .refused ⟨redraw, rfl⟩ _
  | load program =>
    simp only [Machine.perform, Machine.load]
    split
    · exact .done ⟨redraw, rfl⟩ _
    · exact .refused ⟨redraw, rfl⟩ _
  | edit edit =>
    simp only [Machine.perform]
    split
    · exact .done ⟨redraw, rfl⟩ _
    · exact .refused ⟨redraw, rfl⟩ _
  | reset => exact .done ⟨true, rfl⟩ _
  | clearRedraw => exact .done ⟨false, rfl⟩ _
  | paint edit => exact .done ⟨redraw, rfl⟩ _
  | beep => exact .done ⟨redraw, rfl⟩ _
  | forgetBeeps => exact absurd rfl hcount

/-- Such machines answer a history alike, and neither ever catches up. -/
theorem history (h : Ahead offset m n) {history : List Command}
    (hcount : .forgetBeeps ∉ history) :
    m.answers history = n.answers history ∧ Ahead offset (m.after history) (n.after history) := by
  induction history generalizing m n with
  | nil => exact ⟨rfl, h⟩
  | cons command rest ih =>
    have hc := h.perform fun he => hcount (he ▸ List.mem_cons_self)
    obtain ⟨ha, hk⟩ := ih hc.machine fun he => hcount (List.mem_cons_of_mem command he)
    refine ⟨?_, hk⟩
    rw [answers, answers, hc.result, ha]

end Ahead

/-! ## A machine that has started over -/

/-- The machines look alike to the host: everything is equal that can be read off them, apart
from the redraw flag and the count of beeps. Of the stack only the live slots can be read. -/
structure SameView (m n : Machine σ) : Prop where
  memory : m.memory = n.memory
  live : m.stack.live = n.stack.live
  pc : m.pc = n.pc
  index : m.index = n.index
  v : m.v = n.v
  delay : m.delay = n.delay
  sound : m.sound = n.sound
  keys : m.keys = n.keys
  surface : m.surface = n.surface
  status : m.status = n.status
  cycle : m.cycle = n.cycle

theorem Kin.sameView {m n : Machine σ} (h : Kin Eq Eq m n) : SameView m n where
  memory := h.memory
  live := List.forall₂_eq_eq_eq ▸ h.stack.live
  pc := h.pc
  index := h.index
  v := h.v
  delay := h.delay
  sound := h.sound
  keys := h.keys
  surface := h.surface
  status := h.status
  cycle := h.cycle

/-- A new machine with the memory of an old one. -/
def renewed (m : Machine σ) (surface : σ) : Machine σ :=
  { initial surface with memory := m.memory }

@[simp]
theorem memory_renewed (m : Machine σ) (surface : σ) : (m.renewed surface).memory = m.memory := by
  rw [renewed]

variable [Surface σ]

/-- Up to the redraw flag and the beeps, what starting over leaves is a new machine. -/
theorem kin_renewed {m : Machine σ} {surface : σ} (hclear : Surface.clear m.surface = surface) :
    Kin Eq Eq { m.reset with redraw := false, beeps := 0 } (m.renewed surface) where
  memory := rfl
  stack := ⟨rfl, .nil⟩
  pc := rfl
  index := rfl
  v := rfl
  delay := rfl
  sound := rfl
  keys := rfl
  surface := hclear
  beeps := rfl
  status := rfl
  redraw := rfl
  cycle := rfl

/-- A machine that has started over and a new one answer alike, and look alike afterwards. -/
theorem reset_history {m : Machine σ} {surface : σ} (hclear : Surface.clear m.surface = surface)
    {history : List Command} (hcount : .forgetBeeps ∉ history) :
    m.reset.answers history = (m.renewed surface).answers history ∧
    SameView (m.reset.after history) ((m.renewed surface).after history) ∧
    (m.reset.after history).beeps = m.beeps + ((m.renewed surface).after history).beeps := by
  have hahead : Ahead m.beeps { m.reset with redraw := false, beeps := 0 } m.reset := ⟨true, rfl⟩
  obtain ⟨hanswers, redraw, hafter⟩ := hahead.history hcount
  obtain ⟨hanswers', hkin⟩ := (m.kin_renewed hclear).history_of_eq steady_eq history
  rw [hafter]
  exact ⟨hanswers.symm.trans hanswers', { hkin.sameView with }, congrArg (m.beeps + ·) hkin.beeps⟩

/-! ## Dead slots -/

/-- The machine is at a jump to itself. -/
structure Loops (m : Machine σ) : Prop where
  running : m.status = .running
  pc : m.pc = Memory.programStart
  word : m.memory.readWord 0x200 = 0x1200

theorem Loops.step {m : Machine σ} (h : m.Loops) (noise : UInt8) :
    (m.step noise).machine.Loops ∧ (m.step noise).machine.stack = m.stack := by
  have hword : m.nextWord = 0x1200 := by
    rw [nextWord, h.pc]
    exact h.word
  have hd : Instruction.decode m.nextWord = some (.jump Memory.programStart) := by
    rw [hword]
    decide
  rw [step_of_decode_eq_some (isRunning_iff.mpr h.running) hd]
  exact ⟨⟨h.running, rfl, h.word⟩, rfl⟩

theorem Loops.stack_after {m : Machine σ} (h : m.Loops) (noises : List UInt8) :
    (m.after (noises.map .step)).stack = m.stack := by
  induction noises generalizing m with
  | nil => rfl
  | cons noise rest ih =>
    obtain ⟨hloops, hstack⟩ := h.step noise
    rw [List.map_cons, after_cons, perform, Outcome.machine_plain, ih hloops, hstack]

/-- A program that only loops never makes the stacks equal. -/
theorem slots_ne_of_loop {m : Machine σ} {surface : σ}
    (hword : m.memory.readWord 0x200 = 0x1200) (hslots : m.stack.slots ≠ CallStack.empty.slots)
    (noises : List UInt8) :
    (m.reset.after (noises.map .step)).stack.slots ≠
      ((m.renewed surface).after (noises.map .step)).stack.slots := by
  have hreset : m.reset.Loops := ⟨rfl, rfl, hword⟩
  have hnew : (m.renewed surface).Loops := ⟨rfl, rfl, by rwa [memory_renewed]⟩
  rw [hreset.stack_after, hnew.stack_after]
  exact hslots

/-- **Starting over is as good as a new machine.** Behind any history from power-on, a reset
leaves a machine that answers every further history like a new machine with the same memory,
and looks like it behind each of its commands, and both beep equally often. Nothing but the dead
slots of their stacks can stay different, and they can do so for ever. -/
theorem answers_reset :
    (∀ {before later : List Command}, .forgetBeeps ∉ later →
      let m := (initial Screen.blank).after before
      let fresh := { initial Screen.blank with memory := m.memory }
      m.reset.answers later = fresh.answers later ∧
      ∀ k, SameView (m.reset.after (later.take k)) (fresh.after (later.take k)) ∧
        (m.reset.after (later.take k)).beeps =
          m.reset.beeps + (fresh.after (later.take k)).beeps) ∧
    ∃ before : List Command,
      let m := (initial Screen.blank).after before
      let fresh := { initial Screen.blank with memory := m.memory }
      ∀ noises : List UInt8, (m.reset.after (noises.map .step)).stack.slots ≠
        (fresh.after (noises.map .step)).stack.slots := by
  constructor
  · intro before later hcount m fresh
    have hwell : m.WellFormed := (wellFormed_initial Screen.complete_blank).after before
    have hclear : Surface.clear m.surface = Screen.blank :=
      Screen.clear_of_complete hwell.surface
    refine ⟨(reset_history hclear hcount).1, fun k => ?_⟩
    have htake : .forgetBeeps ∉ later.take k := fun he => hcount (List.mem_of_mem_take he)
    exact (reset_history hclear htake).2
  · -- a call leaves its address in a slot, and then the program becomes a loop
    let before : List Command :=
      [.edit (.writeWord 0x200 0x2202), .step 0, .edit (.writeWord 0x200 0x1200)]
    exact ⟨before, slots_ne_of_loop (by decide +kernel) (by decide +kernel)⟩

/-- A program that calls itself until the stack is full is stopped in the middle and starts over
twice, with a pixel painted and a return that finds no call. -/
theorem answers_reset_of_full_stack :
    let before : List Command :=
      [.edit (.writeWord 0x200 0x2200), .press 3, .multistep (fun _ => 0) 20, .beep]
    let later : List Command :=
      [.multistep (fun _ => 0) 9, .paint (.light 5 6), .reset, .edit (.writeWord 0x200 0x00ee),
        .step 0, .press 16]
    let m := (initial Screen.blank).after before
    let fresh := { initial Screen.blank with memory := m.memory }
    .forgetBeeps ∉ later ∧ m.reset.answers later = fresh.answers later ∧
    ∀ k, SameView (m.reset.after (later.take k)) (fresh.after (later.take k)) ∧
      (m.reset.after (later.take k)).beeps =
        m.reset.beeps + (fresh.after (later.take k)).beeps := by
  intro before later m fresh
  have hcount : .forgetBeeps ∉ later := by simp [later]
  exact ⟨hcount, answers_reset.1 hcount⟩

end Machine

end Chip8
