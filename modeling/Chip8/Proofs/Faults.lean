import Chip8.Proofs.Execution

/-!
# Every fault has its cause, and none leaves half-done work

A step is refused only while the machine runs, and for one of three reasons: the next
word is no instruction, a call finds all slots of the stack in use, or a return finds
none. The machine that it leaves behind is the old one past the word. A refused request
of the host leaves the machine exactly as it was.
-/

namespace Chip8

/-- An operation is refused with exactly the faults of `causes`, and then leaves `left` behind. -/
structure Outcome.RefusedBy {σ α : Type} (o : Outcome σ α) (causes : Fault → Prop)
    (left : Machine σ) : Prop where
  error_iff : ∀ fault, o.result = .error fault ↔ causes fault
  machine_eq : ∀ fault, o.result = .error fault → o.machine = left

namespace Outcome

variable {σ α : Type}

/-- An operation that goes through, when no cause applies. -/
theorem refusedBy_of_done {m left : Machine σ} {a : α} {causes : Fault → Prop}
    (h : ∀ fault, ¬causes fault) : (done m a).RefusedBy causes left where
  error_iff fault := by simp [h fault]
  machine_eq fault he := by cases he

/-- An operation that is refused, when its fault is the only one that applies. -/
theorem refusedBy_of_refused {m : Machine σ} {fault : Fault} {causes : Fault → Prop}
    (h : ∀ other, causes other ↔ other = fault) :
    (refused m fault : Outcome σ α).RefusedBy causes m where
  error_iff other := by
    rw [h other]
    constructor
    · intro he
      exact (Except.error.inj he).symm
    · rintro rfl
      rfl
  machine_eq _ _ := rfl

end Outcome

namespace Machine

variable {σ : Type}

/-! ## Requests of the host -/

theorem press_refusedBy (m : Machine σ) (key : Nat) :
    (m.press key).RefusedBy (fun fault => 15 < key ∧ fault = .invalidKey key) m := by
  simp only [press]
  cases hk : m.keys.held? key with
  | none =>
    have h := (Keys.held?_eq_none_iff m.keys key).mp hk
    exact Outcome.refusedBy_of_refused fun other => and_iff_right h
  | some held =>
    have h := Nat.not_lt.mpr (Nat.le_of_lt_succ (Keys.lt_of_held?_eq_some hk))
    cases m.status with
    | running => exact Outcome.refusedBy_of_done fun _ hc => h hc.1
    | waiting register => exact Outcome.refusedBy_of_done fun _ hc => h hc.1

theorem release_refusedBy (m : Machine σ) (key : Nat) :
    (m.release key).RefusedBy (fun fault => 15 < key ∧ fault = .invalidKey key) m := by
  simp only [release]
  cases hk : m.keys.held? key with
  | none =>
    have h := (Keys.held?_eq_none_iff m.keys key).mp hk
    exact Outcome.refusedBy_of_refused fun other => and_iff_right h
  | some held =>
    have h := Nat.not_lt.mpr (Nat.le_of_lt_succ (Keys.lt_of_held?_eq_some hk))
    exact Outcome.refusedBy_of_done fun _ hc => h hc.1

theorem setRegister_refusedBy (m : Machine σ) (register : Nat) (byte : UInt8) :
    (m.setRegister register byte).RefusedBy
      (fun fault => 15 < register ∧ fault = .invalidRegister register) m := by
  simp only [setRegister]
  split
  · exact Outcome.refusedBy_of_done fun _ hc => by omega
  · exact Outcome.refusedBy_of_refused fun other => and_iff_right (by omega)

theorem load_refusedBy (m : Machine σ) (program : List UInt8) :
    (m.load program).RefusedBy
      (fun fault => 0xe00 < program.length ∧ fault = .programTooLarge program.length 0xe00) m := by
  have hc : Memory.Region.program.capacity = 0xe00 := rfl
  by_cases h : program.length ≤ 0xe00
  · simp only [load, Memory.load, hc, h, if_true]
    exact Outcome.refusedBy_of_done fun _ hf => by omega
  · simp only [load, Memory.load, hc, h, if_false]
    exact Outcome.refusedBy_of_refused fun other => and_iff_right (by omega)

theorem loadFile_refusedBy (m : Machine σ) (file : Except FileFault (List UInt8)) :
    (m.loadFile file).RefusedBy
      (fun fault => (∃ cause, file = .error cause ∧ fault = .unreadable cause) ∨
        ∃ program, file = .ok program ∧ 0xe00 < program.length ∧
          fault = .programTooLarge program.length 0xe00) m := by
  cases file with
  | error cause => exact Outcome.refusedBy_of_refused fun other => by simp
  | ok program =>
    have h := load_refusedBy m program
    exact ⟨fun fault => by simpa [loadFile] using h.error_iff fault, h.machine_eq⟩

/-! ## Steps -/

section Step

variable [Surface σ]

/-- Why the next step of a running machine is refused. -/
inductive StepFault (m : Machine σ) : Fault → Prop
  | unknownOpcode (hd : Instruction.decode m.nextWord = none) :
      StepFault m (.unknownOpcode m.nextWord)
  | stackOverflow {a : UInt16} (hd : Instruction.decode m.nextWord = some (.call a))
      (hl : m.stack.live.length = 16) : StepFault m .stackOverflow
  | stackUnderflow (hd : Instruction.decode m.nextWord = some .ret) (hl : m.stack.live = []) :
      StepFault m .stackUnderflow

theorem execute_call_of_full {m : Machine σ} (h : CallStack.capacity ≤ m.stack.depth)
    (noise : UInt8) (a : UInt16) : m.execute noise (.call a) = .refused m .stackOverflow := by
  simp only [execute, CallStack.push_of_le h]

theorem execute_ret_of_empty {m : Machine σ} (h : m.stack.depth = 0) (noise : UInt8) :
    m.execute noise .ret = .refused m .stackUnderflow := by
  simp only [execute, CallStack.pop_of_depth_eq_zero h]

/-- A cause of a fault is a fault. -/
theorem step_eq_refused {m : Machine σ} (hr : m.isRunning = true) {fault : Fault}
    (h : m.StepFault fault) (noise : UInt8) : m.step noise = .refused m.advance fault := by
  cases h with
  | unknownOpcode hd => exact step_of_decode_eq_none hr hd noise
  | stackOverflow hd hl =>
    have hf : CallStack.capacity ≤ m.advance.stack.depth :=
      (CallStack.length_live_eq_capacity_iff _).mp hl
    rw [step_of_decode_eq_some hr hd, execute_call_of_full hf]
    rfl
  | stackUnderflow hd hl =>
    have he : m.advance.stack.depth = 0 := (CallStack.live_eq_nil_iff _).mp hl
    rw [step_of_decode_eq_some hr hd, execute_ret_of_empty he]
    rfl

/-- A fault has a cause. -/
theorem stepFault_of_error {m : Machine σ} {noise : UInt8} {fault : Fault}
    (h : (m.step noise).result = .error fault) : m.isRunning = true ∧ m.StepFault fault := by
  obtain ⟨_, hs⟩ | ⟨hr, hd, hs⟩ | ⟨i, o, hr, hd, he, hs⟩ := m.step_cases noise
  · rw [hs] at h
    cases h
  · rw [hs] at h
    obtain rfl := Except.error.inj h
    exact ⟨hr, .unknownOpcode hd⟩
  · rw [hs] at h
    refine ⟨hr, ?_⟩
    cases he with
    | overflow a hf =>
      obtain rfl := Except.error.inj h
      exact .stackOverflow hd ((CallStack.length_live_eq_capacity_iff _).mpr hf)
    | underflow hz =>
      obtain rfl := Except.error.inj h
      exact .stackUnderflow hd ((CallStack.live_eq_nil_iff _).mpr hz)
    | _ => cases h

theorem step_refusedBy (m : Machine σ) (noise : UInt8) :
    (m.step noise).RefusedBy (fun fault => m.isRunning = true ∧ m.StepFault fault)
      { m with pc := m.pc + 2 } where
  error_iff fault := by
    constructor
    · exact stepFault_of_error
    · rintro ⟨hr, hf⟩
      rw [step_eq_refused hr hf]
      rfl
  machine_eq fault h := by
    obtain ⟨hr, hf⟩ := stepFault_of_error h
    rw [step_eq_refused hr hf]
    rfl

/-- **Every fault has its cause, and none leaves half-done work.** The first line says which
bytes the next word consists of. -/
theorem refusals (m : Machine σ) :
    m.nextWord.toNat = 256 * (m.memory.bytes.getD (m.pc.toNat % 4096) 0).toNat
      + (m.memory.bytes.getD ((m.pc.toNat + 1) % 4096) 0).toNat ∧
    (∀ noise, (m.step noise).RefusedBy (fun fault => m.isRunning = true ∧ m.StepFault fault)
      { m with pc := m.pc + 2 }) ∧
    (∀ key, (m.press key).RefusedBy (fun fault => 15 < key ∧ fault = .invalidKey key) m) ∧
    (∀ key, (m.release key).RefusedBy (fun fault => 15 < key ∧ fault = .invalidKey key) m) ∧
    (∀ register byte, (m.setRegister register byte).RefusedBy
      (fun fault => 15 < register ∧ fault = .invalidRegister register) m) ∧
    (∀ program, (m.load program).RefusedBy
      (fun fault => 0xe00 < program.length ∧ fault = .programTooLarge program.length 0xe00) m) ∧
    ∀ file, (m.loadFile file).RefusedBy
      (fun fault => (∃ cause, file = .error cause ∧ fault = .unreadable cause) ∨
        ∃ program, file = .ok program ∧ 0xe00 < program.length ∧
          fault = .programTooLarge program.length 0xe00) m :=
  ⟨m.memory.toNat_readWord m.pc.toNat, m.step_refusedBy, m.press_refusedBy, m.release_refusedBy,
    m.setRegister_refusedBy, m.load_refusedBy, m.loadFile_refusedBy⟩

end Step

end Machine

end Chip8
