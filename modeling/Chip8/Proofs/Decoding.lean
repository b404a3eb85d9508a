import Chip8.Instruction.Code

/-!
# Decoded operands fit their digits

Each operand is cut out of a word as one, two or three hexadecimal digits, so what
comes out of `decode` never names a register, an address or a digit that does not
exist.
-/

namespace Chip8.Instruction

theorem address_lt (k : Nat) : UInt16.ofNat (k % 0x1000) < 0x1000 := by
  have h : (UInt16.ofNat (k % 0x1000)).toNat < 0x1000 := by
    rw [UInt16.toNat_ofNat']
    omega
  exact h

theorem register_lt (k : Nat) : UInt64.ofNat (k % 0x10) < 16 := by
  have h : (UInt64.ofNat (k % 0x10)).toNat < 16 := by
    rw [UInt64.toNat_ofNat']
    omega
  exact h

theorem digit_lt (k : Nat) : UInt8.ofNat (k % 0x10) < 16 := by
  have h : (UInt8.ofNat (k % 0x10)).toNat < 16 := by
    rw [UInt8.toNat_ofNat']
    omega
  exact h

theorem inRange_of_ofPlainCode? {k : Nat} {i : Instruction} (h : ofPlainCode? k = some i) :
    i.InRange := by
  simp only [ofPlainCode?] at h
  split at h <;> cases h <;> trivial

theorem inRange_of_ofKeyCode? {x : UInt64} (hx : x < 16) {k : Nat} {i : Instruction}
    (h : ofKeyCode? x k = some i) : i.InRange := by
  simp only [ofKeyCode?] at h
  split at h <;> cases h <;> exact hx

theorem inRange_of_ofDeviceCode? {x : UInt64} (hx : x < 16) {k : Nat} {i : Instruction}
    (h : ofDeviceCode? x k = some i) : i.InRange := by
  simp only [ofDeviceCode?] at h
  split at h <;> cases h <;> exact hx

/-- The operands of a decoded instruction are in range. -/
theorem inRange_of_decode {word : UInt16} {i : Instruction} (h : decode word = some i) :
    i.InRange := by
  have hx := register_lt (word.toNat / 0x100)
  have hy := register_lt (word.toNat / 0x10)
  have hn := digit_lt word.toNat
  have ha := address_lt word.toNat
  simp only [decode] at h
  -- one case for each first digit of the word, grouped by the operands of its family
  split at h
  case h_1 =>
    split at h
    · exact inRange_of_ofPlainCode? h
    · cases h
  case h_2 | h_3 | h_11 | h_12 =>
    cases h
    exact ha
  case h_4 | h_5 | h_7 | h_8 | h_13 =>
    cases h
    exact hx
  case h_6 | h_10 | h_14 =>
    cases h
    exact ⟨hx, hy, hn⟩
  case h_9 =>
    obtain ⟨operation, -, rfl⟩ := Option.map_eq_some_iff.mp h
    exact ⟨hx, hy⟩
  case h_15 => exact inRange_of_ofKeyCode? hx h
  case h_16 => exact inRange_of_ofDeviceCode? hx h
  case h_17 => cases h

end Chip8.Instruction
