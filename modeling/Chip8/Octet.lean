/-!
# Eight pixels fit a byte

A byte of a picture is a row of eight pixels, the leftmost being the highest bit.
Columns beyond the eighth begin again at the left, so the column of a pixel in a
longer row can be used as it is. Lighting and darkening change one pixel and no
other, and two bytes with the same eight pixels are equal.
-/

namespace Chip8.Octet

/-- The byte in which only the pixel in that column is lit. -/
def mask (column : Nat) : UInt8 :=
  0x80 >>> UInt8.ofNat (column % 8)

/-- The pixel in that column is lit. -/
def pixel (byte : UInt8) (column : Nat) : Bool :=
  byte &&& mask column != 0

def light (byte : UInt8) (column : Nat) : UInt8 :=
  byte ||| mask column

def darken (byte : UInt8) (column : Nat) : UInt8 :=
  byte &&& ~~~mask column

/-- The eight pixels from left to right. -/
def pixels (byte : UInt8) : List Bool :=
  (List.range 8).map (pixel byte)

theorem toNat_mask (column : Nat) : (mask column).toNat = 1 <<< (7 - column % 8) :=
  (by decide : ∀ k : Fin 8, (0x80 >>> UInt8.ofNat k.val : UInt8).toNat = 1 <<< (7 - k.val))
    ⟨column % 8, Nat.mod_lt _ (by decide)⟩

theorem testBit_mask (column i : Nat) :
    (mask column).toNat.testBit i = decide (7 - column % 8 = i) := by
  rw [toNat_mask, Nat.one_shiftLeft, Nat.testBit_two_pow]

/-- The mask of a column leaves its pixel and no other, so the pixels are the bits of the byte from
the highest to the lowest. -/
theorem pixel_eq_testBit (byte : UInt8) (column : Nat) :
    pixel byte column = byte.toNat.testBit (7 - column % 8) := by
  have hbits (i : Nat) : (byte &&& mask column).toNat.testBit i =
      (byte.toNat.testBit i && decide (7 - column % 8 = i)) := by
    rw [UInt8.toNat_and, Nat.testBit_and, testBit_mask]
  cases hbit : byte.toNat.testBit (7 - column % 8) with
  | true =>
    refine bne_iff_ne.mpr fun hzero => ?_
    have hmasked := hbits (7 - column % 8)
    rw [hzero, hbit, decide_eq_true rfl] at hmasked
    exact absurd hmasked.symm (by simp)
  | false =>
    have hzero : byte &&& mask column = 0 := by
      refine UInt8.toNat_inj.mp (Nat.eq_of_testBit_eq fun i => ?_)
      rw [hbits, UInt8.toNat_zero, Nat.zero_testBit]
      by_cases hi : 7 - column % 8 = i
      · rw [← hi, hbit, Bool.false_and]
      · rw [decide_eq_false hi, Bool.and_false]
    rw [pixel, hzero]
    rfl

theorem pixel_mask (c d : Nat) : pixel (mask c) d = decide (c % 8 = d % 8) := by
  have h : (7 - c % 8 = 7 - d % 8) = (c % 8 = d % 8) := propext (by omega)
  simp only [pixel_eq_testBit, testBit_mask, h]

theorem pixel_mod (byte : UInt8) (column : Nat) : pixel byte (column % 8) = pixel byte column := by
  rw [pixel, pixel, mask, mask, Nat.mod_mod]

theorem pixel_light (byte : UInt8) (c d : Nat) :
    pixel (light byte c) d = (pixel byte d || decide (c % 8 = d % 8)) := by
  have h := pixel_mask c d
  simp only [pixel_eq_testBit] at h
  simp only [pixel_eq_testBit, light, UInt8.toNat_or, Nat.testBit_or, h]

theorem pixel_darken (byte : UInt8) (c d : Nat) :
    pixel (darken byte c) d = (pixel byte d && !decide (c % 8 = d % 8)) := by
  have h := pixel_mask c d
  have hd : 7 - d % 8 < 8 := by omega
  simp only [pixel_eq_testBit] at h
  simp only [pixel_eq_testBit, darken, UInt8.toNat_and, UInt8.toNat_not, Nat.testBit_and]
  rw [show UInt8.size - 1 - (mask c).toNat = 2 ^ 8 - ((mask c).toNat + 1) by
    simp only [UInt8.size]; omega]
  rw [Nat.testBit_two_pow_sub_succ (UInt8.toNat_lt _), h]
  simp [hd]

/-- A byte is known by its eight pixels. -/
theorem eq_of_pixel_eq {a b : UInt8} (h : ∀ column < 8, pixel a column = pixel b column) :
    a = b := by
  apply UInt8.toNat_inj.mp
  apply Nat.eq_of_testBit_eq
  intro i
  by_cases hi : i < 8
  · have hc := h (7 - i) (by omega)
    simp only [pixel_eq_testBit] at hc
    rwa [show 7 - (7 - i) % 8 = i by omega] at hc
  · have hp : 2 ^ 8 ≤ 2 ^ i := Nat.pow_le_pow_right (by decide) (by omega)
    rw [Nat.testBit_lt_two_pow (Nat.lt_of_lt_of_le (UInt8.toNat_lt a) hp),
      Nat.testBit_lt_two_pow (Nat.lt_of_lt_of_le (UInt8.toNat_lt b) hp)]

end Chip8.Octet
