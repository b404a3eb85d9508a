import Chip8.Proofs.Timers

/-!
# An instruction stays inside its footprint

The footprint of an instruction is what it may change: which registers, how many bytes at
`I`, whether `I`, the picture or the status, and where the program goes on. It is read off
the instruction alone, and so is what must stay as it was. A flag register that is also the
target, bytes that are stored over the code being run, or an `I` past the end of memory
make no exception, since the footprint says which registers and which bytes there are.

Each part of the machine has a lemma of its own, and what follows a step is put together
from them. Only calls and returns touch the stack, by one push and one pop, and nothing that
a program does touches the keys.
-/

namespace Chip8

/-- The operation writes a flag. -/
def Alu.WritesFlag : Alu → Prop
  | copy | or | and | xor => False
  | add | subtract | shiftRight | subtractFrom | shiftLeft => True

theorem Alu.flag?_eq_none {operation : Alu} (h : ¬operation.WritesFlag) (a b : UInt8) :
    operation.flag? a b = none := by
  cases operation with
  | copy | or | and | xor => rfl
  | _ => exact absurd trivial h

namespace Instruction

/-- The instruction may write that register. -/
def Writes : Instruction → Nat → Prop
  | setByte x _, r | addByte x _, r | random x _, r | getDelay x, r => r = x.toNat
  | alu operation x _, r => r = x.toNat ∨ operation.WritesFlag ∧ r = Registers.flag
  | draw _ _ _, r => r = Registers.flag
  | loadRegisters x, r => r ≤ x.toNat
  | _, _ => False

/-- How many bytes the instruction stores, the first of them at `I`. -/
def stored : Instruction → Nat
  | storeDigits _ => 3
  | storeRegisters x => x.toNat + 1
  | _ => 0

def SetsIndex : Instruction → Prop
  | setIndex _ | addIndex _ | pointGlyph _ => True
  | _ => False

/-- The instruction may change pixels. -/
def ChangesPicture : Instruction → Prop
  | clear | draw _ _ _ => True
  | _ => False

/-- The instruction goes on at an address of its own. -/
def Jumps : Instruction → Prop
  | ret | jump _ | call _ | jumpOffset _ => True
  | _ => False

end Instruction

namespace Registers

theorem read_write_of_ne (v : Registers) {x r : Nat} (h : r ≠ x) (byte : UInt8) :
    (v.write x byte).read r = v.read r := by
  simp only [read, write, Vector.getElem?_setIfInBounds, if_neg (Ne.symm h)]

theorem read_writeFrom_of_le (v : Registers) {x r : Nat} {bytes : List UInt8}
    (h : x + bytes.length ≤ r) : (v.writeFrom x bytes).read r = v.read r := by
  induction bytes generalizing v x with
  | nil => rfl
  | cons byte rest ih =>
    rw [List.length_cons] at h
    rw [writeFrom, ih (v.write x byte) (by omega), read_write_of_ne v (by omega)]

theorem read_combine_of_ne (v : Registers) {operation : Alu} {x y r : Nat} (hx : r ≠ x)
    (hflag : ¬(operation.WritesFlag ∧ r = flag)) :
    (v.combine operation x y).read r = v.read r := by
  rw [combine, read_write_of_ne _ hx]
  by_cases hw : operation.WritesFlag
  · have hr : r ≠ flag := fun hr => hflag ⟨hw, hr⟩
    cases operation.flag? (v.read x) (v.read y) with
    | none => rfl
    | some byte => exact read_write_of_ne v hr byte
  · rw [Alu.flag?_eq_none hw]
    rfl

end Registers

namespace Machine

variable {σ : Type}

/-- The instruction passes over the next one. -/
def Skips (m : Machine σ) : Instruction → Prop
  | .skipIfByte x b => m.v.read x.toNat = b
  | .skipUnlessByte x b => m.v.read x.toNat ≠ b
  | .skipIfSame x y _ => m.v.read x.toNat = m.v.read y.toNat
  | .skipUnlessSame x y _ => m.v.read x.toNat ≠ m.v.read y.toNat
  | .skipIfHeld x => m.keys.held? (m.v.read x.toNat).toNat = some true
  | .skipIfLoose x => m.keys.held? (m.v.read x.toNat).toNat = some false
  | _ => False

/-- What a step from `m` that executes the instruction may have changed in `n`. -/
structure Footprint (m : Machine σ) (i : Instruction) (n : Machine σ) : Prop where
  registers : ∀ r, ¬i.Writes r → n.v.read r = m.v.read r
  /-- Bytes change only where the instruction stores some. -/
  bytes : ∀ a, (∀ k < i.stored, (m.index.toNat + k) % 4096 ≠ a % 4096) →
    n.memory.read a = m.memory.read a
  memory : i.stored = 0 → n.memory = m.memory
  complete : n.memory.Complete
  index : ¬i.SetsIndex → n.index = m.index
  /-- A call pushes the address behind it. -/
  call : ∀ a, i = .call a → m.stack.push (m.pc + 2) = (n.stack, .ok ())
  /-- A return pops the address at which the program goes on. -/
  ret : i = .ret → m.stack.pop = (n.stack, .ok n.pc)
  stack : (∀ a, i ≠ .call a) → i ≠ .ret → n.stack = m.stack
  picture : ¬i.ChangesPicture → n.surface = m.surface ∧ n.redraw = m.redraw
  status : (∀ x, i ≠ .awaitKey x) → n.status = m.status
  keys : n.keys = m.keys
  jump : ∀ a, i = .jump a ∨ i = .call a → n.pc = a
  offset : ∀ a, i = .jumpOffset a → n.pc = a + (m.v.read 0).toUInt16
  skip : m.Skips i → n.pc = m.pc + 4
  next : ¬i.Jumps → ¬m.Skips i → n.pc = m.pc + 2
  /-- Each timer ticks once, from what the instruction gave it if it gave it anything. -/
  timers : ∀ t : Timer,
    (t.read n).toNat = ((t.given? m i).getD (t.read m)).toNat - 1
  beeps : n.beeps = m.beeps + if (Timer.sound.given? m i).getD m.sound = 1 then 1 else 0
  cycle : n.cycle = m.cycle + 1

variable [Surface σ]

/-! ## Part by part -/

theorem read_execute_of_not_writes (m : Machine σ) (noise : UInt8) {i : Instruction} {r : Nat}
    (h : ¬i.Writes r) : (m.execute noise i).machine.v.read r = m.v.read r := by
  by_cases hi : i.IsControl
  · obtain ⟨pc, stack, he⟩ := m.execute_of_isControl noise hi
    rw [he]
  · cases i with
    | ret | jump | call | jumpOffset | skipIfByte | skipUnlessByte | skipIfSame | skipUnlessSame
    | skipIfHeld | skipIfLoose => exact absurd trivial hi
    | setByte x b | addByte x b | random x b | getDelay x =>
      exact Registers.read_write_of_ne _ h _
    | alu operation x y => exact m.v.read_combine_of_ne (not_or.mp h).1 (not_or.mp h).2
    | draw x y n => exact Registers.read_write_of_ne _ h _
    | loadRegisters x =>
      have hr : 0 + (m.memory.fetch m.index.toNat (x.toNat + 1)).length ≤ r := by
        rw [Memory.length_fetch, Nat.zero_add]
        exact Nat.lt_of_not_le h
      exact m.v.read_writeFrom_of_le hr
    | _ => rfl

theorem memory_execute_of_stored_eq_zero (m : Machine σ) (noise : UInt8) {i : Instruction}
    (h : i.stored = 0) : (m.execute noise i).machine.memory = m.memory := by
  by_cases hi : i.IsControl
  · obtain ⟨pc, stack, he⟩ := m.execute_of_isControl noise hi
    rw [he]
  · cases i with
    | ret | jump | call | jumpOffset | skipIfByte | skipUnlessByte | skipIfSame | skipUnlessSame
    | skipIfHeld | skipIfLoose => exact absurd trivial hi
    | storeDigits x => cases h
    | storeRegisters x => cases h
    | _ => rfl

/-- What stores bytes does nothing else, and stores as many as its footprint says. -/
theorem execute_of_stored_ne_zero (m : Machine σ) (noise : UInt8) {i : Instruction}
    (h : i.stored ≠ 0) :
    ∃ bytes, bytes.length = i.stored ∧ m.execute noise i = .done (m.storeAtIndex bytes) () := by
  cases i with
  | storeDigits x => exact ⟨_, rfl, rfl⟩
  | storeRegisters x =>
    refine ⟨_, ?_, rfl⟩
    rw [List.length_map, List.length_range]
    rfl
  | _ => exact absurd rfl h

theorem read_memory_execute {m : Machine σ} (hm : m.memory.Complete) (noise : UInt8)
    {i : Instruction} {a : Nat}
    (h : ∀ k < i.stored, (m.index.toNat + k) % 4096 ≠ a % 4096) :
    (m.execute noise i).machine.memory.read a = m.memory.read a := by
  by_cases hz : i.stored = 0
  · rw [m.memory_execute_of_stored_eq_zero noise hz]
  · obtain ⟨bytes, hlength, he⟩ := m.execute_of_stored_ne_zero noise hz
    rw [he]
    exact Memory.read_store_of_ne hm _ _ _ (hlength ▸ h)

theorem complete_execute {m : Machine σ} (hm : m.memory.Complete) (noise : UInt8)
    (i : Instruction) : (m.execute noise i).machine.memory.Complete := by
  by_cases hz : i.stored = 0
  · rw [m.memory_execute_of_stored_eq_zero noise hz]
    exact hm
  · obtain ⟨bytes, -, he⟩ := m.execute_of_stored_ne_zero noise hz
    rw [he]
    exact hm.store _ _

theorem index_execute (m : Machine σ) (noise : UInt8) {i : Instruction} (h : ¬i.SetsIndex) :
    (m.execute noise i).machine.index = m.index := by
  by_cases hi : i.IsControl
  · obtain ⟨pc, stack, he⟩ := m.execute_of_isControl noise hi
    rw [he]
  · cases i with
    | ret | jump | call | jumpOffset | skipIfByte | skipUnlessByte | skipIfSame | skipUnlessSame
    | skipIfHeld | skipIfLoose => exact absurd trivial hi
    | setIndex a => exact absurd trivial h
    | addIndex x => exact absurd trivial h
    | pointGlyph x => exact absurd trivial h
    | _ => rfl

section Effect

variable {m : Machine σ} {i : Instruction} {o : Outcome σ Unit} (he : Effect m i o)

include he

theorem Effect.stack (hcall : ∀ a, i ≠ .call a) (hret : i ≠ .ret) :
    o.machine.stack = m.stack := by
  cases he with
  | call a => exact absurd rfl (hcall a)
  | ret => exact absurd rfl hret
  | _ => rfl

theorem Effect.picture (h : ¬i.ChangesPicture) :
    o.machine.surface = m.surface ∧ o.machine.redraw = m.redraw := by
  cases he with
  | clear => exact absurd trivial h
  | draw x y n => exact absurd trivial h
  | _ => exact ⟨rfl, rfl⟩

theorem Effect.status (h : ∀ x, i ≠ .awaitKey x) : o.machine.status = m.status := by
  cases he with
  | await x => exact absurd rfl (h x)
  | _ => rfl

end Effect

/-! ### The program counter -/

omit [Surface σ] in
theorem pc_skipIf (m : Machine σ) {condition : Bool} {p : Prop} (h : condition = true ↔ p) :
    (p → (m.skipIf condition).pc = m.pc + 2) ∧ (¬p → (m.skipIf condition).pc = m.pc) := by
  constructor
  · intro hp
    rw [skipIf, if_pos (h.mpr hp)]
  · intro hp
    rw [skipIf, if_neg fun hc => hp (h.mp hc)]

/-- An instruction that does not jump goes on behind the next one if it skips, else behind
itself. -/
theorem pc_execute (m : Machine σ) (noise : UInt8) {i : Instruction} (h : ¬i.Jumps) :
    (m.Skips i → (m.execute noise i).machine.pc = m.pc + 2) ∧
    (¬m.Skips i → (m.execute noise i).machine.pc = m.pc) := by
  cases i with
  | ret | jump | call | jumpOffset => exact absurd trivial h
  | skipIfByte x b => exact m.pc_skipIf beq_iff_eq
  | skipUnlessByte x b => exact m.pc_skipIf bne_iff_ne
  | skipIfSame x y n => exact m.pc_skipIf beq_iff_eq
  | skipUnlessSame x y n => exact m.pc_skipIf bne_iff_ne
  | skipIfHeld x => exact m.pc_skipIf decide_eq_true_iff
  | skipIfLoose x => exact m.pc_skipIf decide_eq_true_iff
  | _ => exact ⟨False.elim, fun _ => rfl⟩

omit [Surface σ] in
theorem not_jumps_of_skips {m : Machine σ} {i : Instruction} (h : m.Skips i) : ¬i.Jumps := by
  cases i with
  | skipIfByte | skipUnlessByte | skipIfSame | skipUnlessSame | skipIfHeld | skipIfLoose =>
    exact id
  | _ => exact h.elim

theorem push_of_execute_call {m n : Machine σ} {noise : UInt8} {a : UInt16}
    (h : m.execute noise (.call a) = .done n ()) :
    m.stack.push m.pc = (n.stack, .ok ()) ∧ n.pc = a := by
  simp only [execute] at h
  split at h
  · rename_i stack hp
    cases h
    exact ⟨hp, rfl⟩
  · cases h

theorem pop_of_execute_ret {m n : Machine σ} {noise : UInt8}
    (h : m.execute noise .ret = .done n ()) : m.stack.pop = (n.stack, .ok n.pc) := by
  simp only [execute] at h
  split at h
  · rename_i address stack hp
    cases h
    exact hp
  · cases h

/-! ## The whole step -/

/-- The instruction and the tick behind it. -/
theorem footprint_of_execute {m n : Machine σ} (hm : m.memory.Complete) {noise : UInt8}
    {i : Instruction} (h : m.advance.execute noise i = .done n ()) : Footprint m i n.finish := by
  have hn : (m.advance.execute noise i).machine = n := congrArg Outcome.machine h
  have he := effect_execute m.advance noise i
  rw [h] at he
  have hread (t : Timer) : t.read n = (t.given? m i).getD (t.read m) := by
    rw [← hn]
    exact t.read_execute m.advance noise i
  have hpc (hj : ¬i.Jumps) := m.advance.pc_execute noise hj
  rw [hn] at hpc
  constructor
  case registers =>
    intro r hr
    have hv := m.advance.read_execute_of_not_writes noise hr
    rwa [hn] at hv
  case bytes =>
    intro a ha
    have hb := read_memory_execute (m := m.advance) hm noise ha
    rwa [hn] at hb
  case memory =>
    intro hz
    have hmem := m.advance.memory_execute_of_stored_eq_zero noise hz
    rwa [hn] at hmem
  case complete => exact hn ▸ complete_execute (m := m.advance) hm noise i
  case index =>
    intro hi
    have hindex := m.advance.index_execute noise hi
    rwa [hn] at hindex
  case call =>
    rintro a rfl
    exact (push_of_execute_call h).1
  case ret =>
    rintro rfl
    exact pop_of_execute_ret (m := m.advance) (n := n) h
  case stack => exact he.stack
  case picture => exact he.picture
  case status => exact he.status
  case keys => exact he.keys
  case jump =>
    rintro a (rfl | rfl)
    · exact hn ▸ rfl
    · exact (push_of_execute_call h).2
  case offset =>
    rintro a rfl
    exact hn ▸ rfl
  case skip =>
    intro hs
    exact ((hpc (not_jumps_of_skips hs)).1 hs).trans (UInt16.add_assoc _ _ _)
  case next => exact fun hj hs => (hpc hj).2 hs
  case timers =>
    intro t
    rw [t.toNat_read_finish, hread]
  case beeps =>
    have hsound : n.sound = (Timer.sound.given? m i).getD m.sound := hread .sound
    have hbeeps : n.beeps = m.beeps := he.counters.2
    show (if n.sound = 1 then n.beeps + 1 else n.beeps) = _
    rw [hsound, hbeeps]
    split <;> rfl
  case cycle => exact congrArg (· + 1) he.counters.1

/-- **An instruction stays inside its footprint.** A step of a running machine that goes through
has decoded an instruction and changes no more than that instruction may change. -/
theorem step_stays_in_footprint {m : Machine σ} {noise : UInt8} (hm : m.memory.Complete)
    (hr : m.isRunning = true) (hok : (m.step noise).result = .ok ()) :
    ∃ i, Instruction.decode m.nextWord = some i ∧ Footprint m i (m.step noise).machine := by
  cases hd : Instruction.decode m.nextWord with
  | none =>
    rw [step_of_decode_eq_none hr hd] at hok
    cases hok
  | some i =>
    refine ⟨i, rfl, ?_⟩
    rw [step_of_decode_eq_some hr hd] at hok ⊢
    obtain ⟨n, a, ho⟩ | ⟨n, fault, ho⟩ := (m.advance.execute noise i).done_or_refused
    · rw [ho]
      exact footprint_of_execute hm ho
    · rw [ho] at hok
      cases hok

/-- Two registers are stored across the end of memory while the sound timer runs out. -/
theorem step_stays_in_footprint_at_last_byte :
    let m : Machine Screen :=
      { initial Screen.blank with
        memory := Memory.initial.store 0x200 [0xf1, 0x55], index := 0xffff, sound := 1 }
    m.memory.Complete ∧ m.isRunning = true ∧ (m.step 0).result = .ok () ∧
    ∃ i, Instruction.decode m.nextWord = some i ∧ Footprint m i (m.step 0).machine := by
  intro m
  have hm : m.memory.Complete := Memory.complete_initial.store _ _
  have hd : Instruction.decode m.nextWord = some (.storeRegisters 1) := by
    show Instruction.decode (Memory.readWord _ 0x200) = _
    rw [Memory.readWord_store Memory.complete_initial 0x200 0xf1 0x55 _ (by decide)]
    decide
  have hok : (m.step 0).result = .ok () := by
    rw [step_of_decode_eq_some rfl hd]
    rfl
  exact ⟨hm, rfl, hok, step_stays_in_footprint hm rfl hok⟩

end Machine

end Chip8
