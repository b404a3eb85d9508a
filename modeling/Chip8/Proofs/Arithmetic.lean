import Chip8.Proofs.Footprint
import Chip8.Proofs.Patterns
import Mathlib.Data.Nat.Bitwise

/-!
# Arithmetic is exact whatever the registers are

An operation on two registers may have the flag register as its first operand, its second, its
target, or all of them at once. That makes no difference to what is computed: both operands are
read before anything is written, so the second operand is never the new flag, and the result is
written last, so it is never lost to the flag. Where the flag survives, it makes up for what the
result has lost: the carry of a sum, the bit that a shift pushed out. A difference loses nothing
that the flag could make up for, and there it tells which operand was greater.
-/

namespace Chip8

namespace Alu

/-- The result in whole numbers, of operands below 256. -/
def number : Alu → Nat → Nat → Nat
  | copy, _, b => b
  | or, a, b => a ||| b
  | and, a, b => a &&& b
  | xor, a, b => a ^^^ b
  | add, a, b => (a + b) % 256
  | subtract, a, b => (256 + a - b) % 256
  | shiftRight, a, _ => a / 2
  | subtractFrom, a, b => (256 + b - a) % 256
  | shiftLeft, a, _ => 2 * a % 256

/-- What the flag says about the operands, next to the result. -/
def Tells : Alu → (a b result flag : Nat) → Prop
  | copy, _, _, _, _ | or, _, _, _, _ | and, _, _, _, _ | xor, _, _, _, _ => True
  | add, a, b, result, flag => 256 * flag + result = a + b
  | subtract, a, b, _, flag => flag = if b < a then 1 else 0
  | shiftRight, a, _, result, flag => flag = a % 2 ∧ 2 * result + flag = a
  | subtractFrom, a, b, _, flag => flag = if a < b then 1 else 0
  | shiftLeft, a, _, result, flag => (flag = 0 ∨ flag = 128) ∧ 2 * a = result + 2 * flag

theorem toNat_flagByte (b : Bool) : (flagByte b).toNat = if b then 1 else 0 := by
  cases b <;> rfl

theorem toNat_sub_eq (a b : UInt8) : (a - b).toNat = (256 + a.toNat - b.toNat) % 256 := by
  have ha := a.toNat_lt
  have hb := b.toNat_lt
  rw [UInt8.toNat_sub]
  omega

theorem toNat_result (operation : Alu) (a b : UInt8) :
    (operation.result a b).toNat = operation.number a.toNat b.toNat := by
  cases operation with
  | copy => rfl
  | or => exact UInt8.toNat_or a b
  | and => exact UInt8.toNat_and a b
  | xor => exact UInt8.toNat_xor a b
  | add => exact UInt8.toNat_add a b
  | subtract => exact toNat_sub_eq a b
  | shiftRight =>
    show (a >>> 1).toNat = a.toNat / 2
    rw [UInt8.toNat_shiftRight, Nat.shiftRight_eq_div_pow]
    rfl
  | subtractFrom => exact toNat_sub_eq b a
  | shiftLeft =>
    show (a <<< 1).toNat = 2 * a.toNat % 256
    rw [UInt8.toNat_shiftLeft, Nat.shiftLeft_eq, Nat.mul_comm]
    rfl

/-- The highest bit alone, as the left shift leaves it in the flag. -/
theorem toNat_and_highest (a : UInt8) :
    (a &&& 0x80).toNat = if a.toNat < 128 then 0 else 128 := by
  have ha := a.toNat_lt
  have hand : (a &&& 0x80).toNat = (a.toNat.testBit 7).toNat * 128 :=
    (UInt8.toNat_and a 0x80).trans (Nat.and_two_pow a.toNat 7)
  rw [hand, Nat.testBit_eq_decide_div_mod_eq]
  split
  · rename_i hlow
    rw [Nat.div_eq_of_lt hlow]
    rfl
  · rw [show a.toNat / 2 ^ 7 = 1 by omega]
    rfl

theorem exists_flag {operation : Alu} (h : operation.WritesFlag) (a b : UInt8) :
    ∃ flag, operation.flag? a b = some flag := by
  cases operation with
  | copy | or | and | xor => exact h.elim
  | _ => exact ⟨_, rfl⟩

theorem tells_of_flag? {operation : Alu} {a b flag : UInt8} (h : operation.flag? a b = some flag) :
    operation.Tells a.toNat b.toNat (operation.number a.toNat b.toNat) flag.toNat := by
  have ha := a.toNat_lt
  have hb := b.toNat_lt
  cases operation with
  | copy | or | and | xor => trivial
  | add =>
    obtain rfl := Option.some.inj h
    rw [toNat_flagByte]
    simp only [Tells, number, decide_eq_true_eq]
    split <;> omega
  | subtract =>
    obtain rfl := Option.some.inj h
    rw [toNat_flagByte]
    simp only [Tells, decide_eq_true_eq, UInt8.lt_iff_toNat_lt]
  | shiftRight =>
    obtain rfl := Option.some.inj h
    have hbit : (a &&& 1).toNat = a.toNat % 2 := by
      rw [UInt8.toNat_and]
      exact Nat.and_one_is_mod a.toNat
    simp only [Tells, number, hbit, true_and]
    omega
  | subtractFrom =>
    obtain rfl := Option.some.inj h
    rw [toNat_flagByte]
    simp only [Tells, decide_eq_true_eq, UInt8.lt_iff_toNat_lt]
  | shiftLeft =>
    obtain rfl := Option.some.inj h
    simp only [Tells, number, toNat_and_highest]
    split <;> omega

end Alu

namespace Registers

variable (v : Registers) {x : Nat}

/-- The result is written last, over the flag if need be. -/
theorem read_combine_self (hx : x < 16) (operation : Alu) (y : Nat) :
    (v.combine operation x y).read x = operation.result (v.read x) (v.read y) :=
  (read_write _ hx _ _).trans (if_pos rfl)

/-- The flag is there unless the result has been written over it. -/
theorem read_combine_flag (hx : x ≠ flag) {operation : Alu} {y : Nat} {byte : UInt8}
    (h : operation.flag? (v.read x) (v.read y) = some byte) :
    (v.combine operation x y).read flag = byte := by
  rw [combine, read_write_of_ne _ hx.symm, h]
  exact (read_write v (show flag < 16 by decide) _ _).trans (if_pos rfl)

/-- Registers `w` are what an operation on registers `x` and `y` makes of `v`. -/
structure Computed (operation : Alu) (x y : Nat) (v w : Registers) : Prop where
  /-- Both operands are those from before, and the result is there whatever `x` is. -/
  result : (w.read x).toNat = operation.number (v.read x).toNat (v.read y).toNat
  flag : operation.WritesFlag → x ≠ 15 →
    operation.Tells (v.read x).toNat (v.read y).toNat (w.read x).toNat (w.read 15).toNat
  others : ∀ r, r ≠ x → ¬(operation.WritesFlag ∧ r = 15) → w.read r = v.read r

theorem computed_combine (hx : x < 16) (operation : Alu) (y : Nat) :
    Computed operation x y v (v.combine operation x y) := by
  have hresult : ((v.combine operation x y).read x).toNat =
      operation.number (v.read x).toNat (v.read y).toNat := by
    rw [v.read_combine_self hx]
    exact operation.toNat_result _ _
  constructor
  case result => exact hresult
  case flag =>
    intro hwrites hne
    obtain ⟨byte, hbyte⟩ := Alu.exists_flag hwrites (v.read x) (v.read y)
    rw [hresult, show (15 : Nat) = flag from rfl, v.read_combine_flag hne hbyte]
    exact Alu.tells_of_flag? hbyte
  case others => exact fun r hr hflag => v.read_combine_of_ne hr hflag

end Registers

namespace Machine

variable {σ : Type} [Surface σ]

/-- A running machine executes the instruction that the next word is the number of. -/
theorem step_of_code {m : Machine σ} {i : Instruction} (hr : m.isRunning = true)
    (hi : i.InRange) (h : m.nextWord.toNat = i.code) (noise : UInt8) :
    m.step noise = (m.advance.execute noise i).andThen fun m _ => .done m.finish () :=
  step_of_decode_eq_some hr (Instruction.decode_of_code hi h.symm) noise

/-- **Arithmetic is exact whatever the registers are.** An operation on any two registers, equal
or not and the flag register or not, leaves the result in the first of them. The operations that
have a flag leave it in the last register unless the result is there. No other register changes
and nothing but registers does. Adding a byte writes no flag. Each of these holds of the execution
alone and of the step of a running machine that comes to the word. -/
theorem arithmetic_exact (m : Machine σ) (noise : UInt8) {x : UInt64} (hx : x < 16) :
    (∀ operation, ∀ y < 16, ∃ v, Registers.Computed operation x.toNat y.toNat m.v v ∧
      m.execute noise (.alu operation x y) = .done { m with v := v } () ∧
      (m.isRunning = true →
        m.nextWord.toNat = 0x8000 + 0x100 * x.toNat + 0x10 * y.toNat + operation.digit →
        m.step noise = .done (finish { m with pc := m.pc + 2, v := v }) ())) ∧
    ∀ k : UInt8, ∃ v : Registers,
      (v.read x.toNat).toNat = ((m.v.read x.toNat).toNat + k.toNat) % 256 ∧
      (∀ r, r ≠ x.toNat → v.read r = m.v.read r) ∧
      m.execute noise (.addByte x k) = .done { m with v := v } () ∧
      (m.isRunning = true → m.nextWord.toNat = 0x7000 + 0x100 * x.toNat + k.toNat →
        m.step noise = .done (finish { m with pc := m.pc + 2, v := v }) ()) := by
  have hlt : x.toNat < 16 := UInt64.lt_iff_toNat_lt.mp hx
  constructor
  · intro operation y hy
    refine ⟨m.v.combine operation x.toNat y.toNat, m.v.computed_combine hlt operation y.toNat,
      rfl, ?_⟩
    intro hr hword
    rw [step_of_code (i := .alu operation x y) hr ⟨hx, hy⟩ hword]
    rfl
  · intro k
    refine ⟨m.v.write x.toNat (m.v.read x.toNat + k), ?_, ?_, rfl, ?_⟩
    · rw [Registers.read_write _ hlt, if_pos rfl]
      exact UInt8.toNat_add _ _
    · intro r hr
      exact Registers.read_write_of_ne _ hr _
    · intro hr hword
      rw [step_of_code (i := .addByte x k) hr hx hword]
      rfl

/-- A step takes the flag register off another one. The flag register is added to itself, and is
left alone by a byte that wraps around. -/
theorem arithmetic_exact_of_flag_operands :
    let m : Machine Screen :=
      { initial Screen.blank with
        memory := Memory.initial.store 0x200 [0x83, 0xf5]
        v := (Registers.zero.write 3 100).write 15 200 }
    (3 : UInt64) < 16 ∧ (15 : UInt64) < 16 ∧ m.isRunning = true ∧
    m.nextWord.toNat =
      0x8000 + 0x100 * (3 : UInt64).toNat + 0x10 * (15 : UInt64).toNat + Alu.subtract.digit ∧
    (∃ v, m.step 0 = .done (finish { m with pc := m.pc + 2, v := v }) () ∧
      (v.read 3).toNat = 156 ∧ (v.read 15).toNat = 0 ∧ v.read 4 = 0) ∧
    (∃ v, m.execute 0 (.alu .add 15 15) = .done { m with v := v } () ∧
      (v.read 15).toNat = 144 ∧ v.read 3 = 100) ∧
    ∃ v, m.execute 0 (.addByte 3 200) = .done { m with v := v } () ∧
      (v.read 3).toNat = 44 ∧ v.read 15 = 200 := by
  intro m
  have hword : m.nextWord.toNat =
      0x8000 + 0x100 * (3 : UInt64).toNat + 0x10 * (15 : UInt64).toNat + Alu.subtract.digit := by
    show (Memory.readWord _ 0x200).toNat = _
    rw [Memory.readWord_store Memory.complete_initial 0x200 0x83 0xf5 _ (by decide)]
    decide
  have hthree : (3 : UInt64) < 16 := by decide
  have hflag : (15 : UInt64) < 16 := by decide
  refine ⟨hthree, hflag, rfl, hword, ?_, ?_, ?_⟩
  · obtain ⟨v, hv, -, hstep⟩ := (arithmetic_exact m 0 hthree).1 .subtract 15 hflag
    have htells := hv.flag trivial (by decide)
    have hkept := hv.others 4 (by decide) fun h => absurd h.2 (by decide)
    exact ⟨v, hstep rfl hword, hv.result.trans (by decide), htells.trans (by decide),
      hkept.trans (by decide)⟩
  · obtain ⟨v, hv, hdone, -⟩ := (arithmetic_exact m 0 hflag).1 .add 15 hflag
    have hkept := hv.others 3 (by decide) fun h => absurd h.2 (by decide)
    exact ⟨v, hdone, hv.result.trans (by decide), hkept.trans (by decide)⟩
  · obtain ⟨v, hsum, hkept, hdone, -⟩ := (arithmetic_exact m 0 hthree).2 200
    exact ⟨v, hdone, hsum.trans (by decide), (hkept 15 (by decide)).trans (by decide)⟩

end Machine

end Chip8
