import Chip8.Plane
import Chip8.Proofs.Decoding
import Chip8.Proofs.Trace

/-!
# Waiting for a key

A machine waits exactly if the last instruction that it executed was there to wait, and
neither a reset nor a press of one of the sixteen keys came after it. While it waits, steps
go through without doing anything, and so do releases and presses of keys that do not exist,
but for the keys that are held. The first valid press is the key that the machine waited for,
whether it was held before or not, and later presses are not.
-/

namespace Chip8

namespace Command

/-- The command makes a machine that waits run again. -/
def Wakes : Command → Prop
  | .reset => True
  | .press key => key < 16
  | _ => False

/-- The command asks the machine to run instructions. -/
def RunsProgram : Command → Prop
  | .step _ | .multistep _ _ => True
  | _ => False

/-- The command runs instructions, lets a key go or presses a key that does not exist. -/
def IsPassive : Command → Prop
  | .step _ | .multistep _ _ | .release _ => True
  | .press key => 16 ≤ key
  | _ => False

end Command

/-- Whether the machine runs or waits once the instruction went through. -/
def Instruction.statusBehind : Instruction → Status
  | .awaitKey x => .waiting x
  | _ => .running

theorem Instruction.statusBehind_of_isControl {i : Instruction} (hi : i.IsControl) :
    i.statusBehind = .running := by
  cases i with
  | awaitKey x => exact hi.elim
  | _ => rfl

theorem Instruction.statusBehind_eq_waiting_iff {i : Instruction} {r : UInt64} :
    i.statusBehind = .waiting r ↔ i = .awaitKey r := by
  cases i <;> simp [statusBehind]

namespace Machine

variable {σ : Type}

/-- The machine that waited for a key for register `r`, once `key` has been pressed. -/
def wokenBy (m : Machine σ) (r : UInt64) (key : Nat) : Machine σ :=
  { m with
    keys := m.keys.set key true
    v := m.v.write r.toNat (UInt8.ofNat key)
    status := .running }

/-- The key that a machine waits for goes to its register, and the answer is about the latch. -/
theorem press_of_waiting {m : Machine σ} {r : UInt64} (h : m.status = .waiting r) {key : Nat}
    (hk : key < 16) :
    m.press key = .done (m.wokenBy r key) (decide (m.keys.held? key = some false)) := by
  rw [press]
  split
  · rename_i hnone
    have hle := (Keys.held?_eq_none_iff m.keys key).mp hnone
    omega
  · rename_i held hheld
    rw [h, hheld]
    cases held <;> rfl

theorem press_of_running {m : Machine σ} (h : m.status = .running) (key : Nat) :
    (m.press key).machine = { m with keys := m.keys.set key true } := by
  rw [press]
  split
  · rename_i hnone
    have hle := (Keys.held?_eq_none_iff m.keys key).mp hnone
    rw [Keys.set_of_le m.keys hle]
    rfl
  · rw [h]
    rfl

variable [Surface σ]

/-! ## Who waits -/

theorem status_execute {m : Machine σ} (hm : m.status = .running) (noise : UInt8)
    (i : Instruction) : (m.execute noise i).machine.status = i.statusBehind := by
  by_cases hi : i.IsControl
  · obtain ⟨pc, stack, h⟩ := m.execute_of_isControl noise hi
    rw [h, Instruction.statusBehind_of_isControl hi]
    exact hm
  · cases i with
    | ret | jump | call | jumpOffset | skipIfByte | skipUnlessByte | skipIfSame | skipUnlessSame
    | skipIfHeld | skipIfLoose => exact absurd trivial hi
    | awaitKey x => rfl
    | _ => exact hm

theorem status_perform_of_executed? {m : Machine σ} {command : Command} {i : Instruction}
    (h : m.executed? command = some i) :
    (m.perform command).machine.status = i.statusBehind := by
  obtain ⟨-, -, hr, -, -⟩ := step_of_executed? h
  obtain ⟨noise, n, hn, hp⟩ := execute_of_executed? h
  have hstatus := status_execute (m := m.advance) (isRunning_iff.mp hr) noise i
  rw [hn] at hstatus
  rw [hp]
  exact hstatus

theorem status_perform_of_wakes (m : Machine σ) {command : Command} (h : command.Wakes) :
    (m.perform command).machine.status = .running := by
  cases command with
  | reset => rfl
  | press key =>
    rw [perform, Outcome.machine_telling]
    cases hm : m.status with
    | running =>
      rw [press_of_running hm]
      exact hm
    | waiting r =>
      rw [press_of_waiting hm h]
      rfl
  | _ => exact h.elim

theorem status_perform_of_not_wakes {m : Machine σ} {command : Command} (hs : command.IsSingle)
    (hx : m.executed? command = none) (hw : ¬command.Wakes) :
    (m.perform command).machine.status = m.status := by
  obtain rfl | hkept | hm | hm := perform_of_executed?_eq_none hs hx
  · exact absurd trivial hw
  · apply hkept.status
    rintro key hk rfl
    exact hw hk
  · rw [hm]
  · rw [hm]
    rfl

/-- A machine waits behind a command if that awaited a key, or if the machine waited before and
was not woken. -/
theorem status_perform_eq_waiting_iff {m : Machine σ} {command : Command}
    (hs : command.IsSingle) (r : UInt64) :
    (m.perform command).machine.status = .waiting r ↔
      (m.status = .waiting r ∧ m.executed? command = none ∧ ¬command.Wakes) ∨
      m.executed? command = some (.awaitKey r) := by
  cases hx : m.executed? command with
  | some i =>
    rw [status_perform_of_executed? hx, Instruction.statusBehind_eq_waiting_iff]
    simp
  | none =>
    by_cases hw : command.Wakes
    · rw [m.status_perform_of_wakes hw]
      simp [hw]
    · rw [status_perform_of_not_wakes hs hx hw]
      simp [hw]

/-- None of these commands executes an instruction or wakes the machine. -/
def Idle (m : Machine σ) (moves : List Command) : Prop :=
  m.executions moves = [] ∧ ∀ command ∈ moves, ¬command.Wakes

/-- The last of these commands that executed an instruction awaited a key for register `r`, and
no command after it woke the machine. -/
def Awaits (m : Machine σ) (moves : List Command) (r : UInt64) : Prop :=
  ∃ before command rest, moves = before ++ command :: rest ∧
    (m.after before).executed? command = some (.awaitKey r) ∧
    ((m.after before).perform command).machine.Idle rest

theorem idle_cons {m : Machine σ} {command : Command} {rest : List Command} :
    m.Idle (command :: rest) ↔
      (m.executed? command = none ∧ ¬command.Wakes) ∧ (m.perform command).machine.Idle rest := by
  cases hx : m.executed? command with
  | some i => simp [Idle, executions_of_some hx]
  | none =>
    simp only [Idle, executions_of_none hx, List.forall_mem_cons, true_and]
    exact and_left_comm

theorem awaits_cons {m : Machine σ} {command : Command} {rest : List Command} {r : UInt64} :
    m.Awaits (command :: rest) r ↔
      (m.executed? command = some (.awaitKey r) ∧ (m.perform command).machine.Idle rest) ∨
      (m.perform command).machine.Awaits rest r := by
  constructor
  · rintro ⟨before, last, idle, heq, hx, hidle⟩
    cases before with
    | nil =>
      cases heq
      exact Or.inl ⟨hx, hidle⟩
    | cons first before =>
      cases heq
      exact Or.inr ⟨before, last, idle, rfl, hx, hidle⟩
  · rintro (⟨hx, hidle⟩ | ⟨before, last, idle, rfl, hx, hidle⟩)
    · exact ⟨[], command, rest, rfl, hx, hidle⟩
    · exact ⟨command :: before, last, idle, rfl, hx, hidle⟩

/-- A machine waits behind a list of commands if one of them awaited a key and the rest was idle,
or if it waited before and all of the list was idle. -/
theorem status_after_eq_waiting_iff {m : Machine σ} {moves : List Command}
    (hmoves : ∀ command ∈ moves, command.IsSingle) (r : UInt64) :
    (m.after moves).status = .waiting r ↔
      (m.status = .waiting r ∧ m.Idle moves) ∨ m.Awaits moves r := by
  -- from the front, so that what the first command leaves is the waiting of the rest
  induction moves generalizing m with
  | nil => simp [Idle, executions, Awaits]
  | cons command rest ih =>
    have hrest := ih (m := (m.perform command).machine)
      fun c hc => hmoves c (List.mem_cons_of_mem command hc)
    have hs := hmoves command List.mem_cons_self
    rw [after_cons, hrest, status_perform_eq_waiting_iff hs, idle_cons, awaits_cons,
      or_and_right, or_assoc, and_assoc]

theorem mem_executions_of_awaits {m : Machine σ} {moves : List Command} {r : UInt64}
    (h : m.Awaits moves r) : ∃ e ∈ m.executions moves, e.instruction = .awaitKey r := by
  obtain ⟨before, command, rest, rfl, hx, -⟩ := h
  rw [executions_append, executions_of_some hx]
  exact ⟨_, List.mem_append_right _ List.mem_cons_self, rfl⟩

theorem status_history_eq_waiting_iff {m : Machine σ} (hm : m.status = .running)
    (history : List Command) (r : UInt64) :
    (m.after history).status = .waiting r ↔ m.Awaits (m.unroll history) r := by
  rw [← after_unroll, status_after_eq_waiting_iff fun command hc => (mem_unroll hc).1, hm]
  simp

/-- A running machine runs until it executes an instruction that awaits a key. -/
theorem status_history_eq_running {m : Machine σ} (hm : m.status = .running)
    {history : List Command} (h : ∀ e ∈ m.trace history, ∀ x, e.instruction ≠ .awaitKey x) :
    (m.after history).status = .running := by
  cases hs : (m.after history).status with
  | running => rfl
  | waiting x =>
    have hawaits := (status_history_eq_waiting_iff hm history x).mp hs
    obtain ⟨e, he, hi⟩ := mem_executions_of_awaits hawaits
    exact absurd hi (h e he x)

theorem Awaits.register_lt {m : Machine σ} {moves : List Command} {r : UInt64}
    (h : m.Awaits moves r) : r.toNat < 16 := by
  obtain ⟨before, command, rest, -, hx, -⟩ := h
  obtain ⟨-, -, -, hd, -⟩ := step_of_executed? hx
  exact Instruction.inRange_of_decode hd

/-! ## While the machine waits -/

theorem perform_of_runsProgram {m : Machine σ} {r : UInt64} (hm : m.status = .waiting r)
    {command : Command} (hc : command.RunsProgram) : m.perform command = .done m .done := by
  have hr := isRunning_of_waiting hm
  cases command with
  | step noise =>
    rw [perform, step_of_not_running hr]
    rfl
  | multistep noise count =>
    rw [perform, multistep, stepsFrom_of_not_running hr]
    rfl
  | _ => exact hc.elim

theorem perform_of_isPassive {m : Machine σ} {r : UInt64} (hm : m.status = .waiting r)
    {command : Command} (hc : command.IsPassive) :
    ∃ keys, (m.perform command).machine = { m with keys := keys } := by
  by_cases hrun : command.RunsProgram
  · rw [perform_of_runsProgram hm hrun]
    exact ⟨m.keys, rfl⟩
  · cases command with
    | step | multistep => exact absurd trivial hrun
    | release key =>
      rw [perform, Outcome.machine_telling, release]
      split
      · exact ⟨m.keys, rfl⟩
      · exact ⟨_, rfl⟩
    | press key =>
      have hnone := (Keys.held?_eq_none_iff m.keys key).mpr hc
      rw [perform, Outcome.machine_telling, press, hnone]
      exact ⟨m.keys, rfl⟩
    | _ => exact hc.elim

theorem after_of_isPassive {m : Machine σ} {r : UInt64} (hm : m.status = .waiting r)
    {calls : List Command} (hcalls : ∀ command ∈ calls, command.IsPassive) :
    ∃ keys, m.after calls = { m with keys := keys } := by
  induction calls generalizing m with
  | nil => exact ⟨m.keys, rfl⟩
  | cons command rest ih =>
    obtain ⟨keys, hkeys⟩ := perform_of_isPassive hm (hcalls command List.mem_cons_self)
    rw [after_cons, hkeys]
    exact ih (m := { m with keys := keys }) hm fun c hc =>
      hcalls c (List.mem_cons_of_mem command hc)

/-- How a machine goes on that waits for a key for register `r`. -/
structure GatedBy (m : Machine σ) (r : UInt64) : Prop where
  register_lt : r.toNat < 16
  /-- Until a valid press nothing changes but the keys. -/
  waits : ∀ {calls}, (∀ command ∈ calls, command.IsPassive) →
    ∃ keys, m.after calls = { m with keys := keys }
  /-- Until then every step goes through. -/
  answers : ∀ {calls}, (∀ command ∈ calls, command.IsPassive) → ∀ {command},
    command.RunsProgram → ((m.after calls).perform command).result = .ok .done
  /-- The valid press makes the machine run with the key in the register. -/
  press : ∀ {calls}, (∀ command ∈ calls, command.IsPassive) → ∀ {key}, key < 16 →
    (m.after calls).press key =
      .done ((m.after calls).wokenBy r key) (decide ((m.after calls).keys.held? key = some false))
  /-- From then on presses change the keys only, until the machine awaits a key again. -/
  latches : ∀ {calls}, (∀ command ∈ calls, command.IsPassive) → ∀ {key}, key < 16 →
    ∀ {more}, (∀ e ∈ ((m.after calls).wokenBy r key).trace more, ∀ x, e.instruction ≠ .awaitKey x) →
    ∀ other, let n := ((m.after calls).wokenBy r key).after more
      (n.press other).machine = { n with keys := n.keys.set other true }

theorem gatedBy_of_waiting {m : Machine σ} {r : UInt64} (hm : m.status = .waiting r)
    (hr : r.toNat < 16) : m.GatedBy r := by
  have hwaits {calls : List Command} (hcalls : ∀ command ∈ calls, command.IsPassive) :
      (m.after calls).status = .waiting r := by
    obtain ⟨keys, hkeys⟩ := after_of_isPassive hm hcalls
    rw [hkeys]
    exact hm
  constructor
  case register_lt => exact hr
  case waits => exact fun hcalls => after_of_isPassive hm hcalls
  case answers =>
    intro calls hcalls command hc
    rw [perform_of_runsProgram (hwaits hcalls) hc]
    rfl
  case press => exact fun hcalls key hk => press_of_waiting (hwaits hcalls) hk
  case latches =>
    intro calls hcalls key hk more hmore other
    exact press_of_running (status_history_eq_running rfl hmore) other

/-- **Waiting for a key is a gate that only a key opens.** Behind any history from power-on, the
machine waits exactly if the last executed instruction awaited a key and neither a reset nor a
valid press came after it; and a machine that waits is gated. -/
theorem waiting_iff_awaits (surface : σ) (history : List Command) :
    let m := (initial surface).after history
    (∀ r, m.status = .waiting r ↔ (initial surface).Awaits ((initial surface).unroll history) r) ∧
    ∀ r, m.status = .waiting r → m.GatedBy r := by
  intro m
  have hiff (r : UInt64) := status_history_eq_waiting_iff (m := initial surface) rfl history r
  constructor
  · exact hiff
  · intro r hr
    exact gatedBy_of_waiting hr ((hiff r).mp hr).register_lt

/-- A machine waits behind a refused word, and neither a step nor a release nor a press of a key
that does not exist makes it go on. -/
theorem waiting_iff_awaits_of_two_presses :
    let history : List Command :=
      [.edit (.writeWord 0x202 0xf50a), .multistep (fun _ => 0) 2, .step 0]
    let calls : List Command := [.step 0, .multistep (fun _ => 0) 3, .release 7, .press 16]
    let m := (initial Plane.empty).after history
    let woken := (m.after calls).wokenBy 5 7
    m.status = .waiting 5 ∧ (∀ command ∈ calls, command.IsPassive) ∧ m.GatedBy 5 ∧
    (m.after calls).press 7 = .done woken true ∧ woken.v.read 5 = 7 ∧
    (woken.press 3).machine = { woken with keys := woken.keys.set 3 true } := by
  intro history calls m woken
  have hwaits : m.status = .waiting 5 := by decide +kernel
  have hcalls : ∀ command ∈ calls, command.IsPassive := by
    intro command hc
    simp only [calls, List.mem_cons, List.not_mem_nil, or_false] at hc
    obtain rfl | rfl | rfl | rfl := hc
    case inr.inr.inr => exact Nat.le_refl 16
    all_goals trivial
  have hgate := (waiting_iff_awaits Plane.empty history).2 5 hwaits
  have hpress : (m.after calls).press 7 =
      .done woken (decide ((m.after calls).keys.held? 7 = some false)) :=
    hgate.press hcalls (by decide)
  have hloose : (m.after calls).keys.held? 7 = some false := by decide +kernel
  rw [hloose] at hpress
  have hnone : ∀ e ∈ woken.trace [], ∀ x, e.instruction ≠ .awaitKey x :=
    fun e he => absurd he List.not_mem_nil
  have hregister : woken.v.read 5 = 7 := Registers.read_write _ (by decide) 5 7
  exact ⟨hwaits, hcalls, hgate, hpress, hregister, hgate.latches hcalls (by decide) hnone 3⟩

end Machine

end Chip8
