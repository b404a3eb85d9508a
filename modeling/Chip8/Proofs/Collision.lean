import Chip8.Proofs.Compositing

/-!
# The collision flag looks at the whole box

The flag is raised pixel by pixel while the sprite is being drawn, and the pixels that are looked
at are the ones that are being turned over. But each is looked at once, before it is drawn, and
drawing one leaves the others alone. So the flag tells whether anything in the box was lit before
the sprite came, under a set bit of it or not. Past the edge nothing is lit, so a sprite cannot
hit anything there.
-/

namespace Chip8

/-- In the box of a sprite, the byte of the row and its bit decide whether the pixel is covered. -/
theorem Stamp.covers_fetch (memory : Memory) (left top address count x y : Nat) :
    covers ⟨left, top, memory.fetch address count⟩ x y =
      (decide (left ≤ x ∧ x < left + 8 ∧ top ≤ y ∧ y < top + count) &&
        (memory.read (address + (y - top))).toNat.testBit (7 - (x - left))) := by
  unfold covers Memory.fetch
  by_cases hbox : left ≤ x ∧ x < left + 8 ∧ top ≤ y
  · by_cases hrow : y < top + count
    · have hk : y - top < count := by omega
      have hcolumn : (x - left) % 8 = x - left := Nat.mod_eq_of_lt (by omega)
      simp [hbox, hrow, hk, Octet.pixel_eq_testBit, hcolumn]
    · have hk : ¬y - top < count := by omega
      simp [hrow, hk]
  · have hout : ¬(left ≤ x ∧ x < left + 8 ∧ top ≤ y ∧ y < top + count) :=
      fun h => hbox ⟨h.1, h.2.1, h.2.2.1⟩
    rw [decide_eq_false hbox, decide_eq_false hout, Bool.false_and, Bool.false_and]

namespace Sprite

variable {state : Screen × Bool}

/-- Pixels that have not been drawn yet are as they were, in the grid and outside. -/
theorem pixel_drawPixels_of_not (hs : state.1.Complete) {x y px py : Nat} (row : UInt8)
    {count : Nat} (h : ¬(x ≤ px ∧ px < x + count ∧ py = y)) :
    ((List.range count).foldl (drawPixel x y row) state).1.pixel px py =
      state.1.pixel px py := by
  by_cases hp : Screen.InGrid px py
  · rw [pixel_drawPixels hs hp, decide_eq_false h, Bool.false_and, Bool.xor_false]
  · rw [Screen.pixel_of_not_lt _ hp, Screen.pixel_of_not_lt _ hp]

/-- A row hits what was lit in it before. -/
theorem hit_drawPixels (hs : state.1.Complete) (x y : Nat) (row : UInt8) (count : Nat) :
    ((List.range count).foldl (drawPixel x y row) state).2 =
      (state.2 || (List.range count).any fun column => state.1.pixel (x + column) y) := by
  induction count with
  | zero => exact (Bool.or_false _).symm
  | succ count ih =>
    have hnext : ¬(x ≤ x + count ∧ x + count < x + count ∧ y = y) := by omega
    rw [List.range_succ, List.foldl_append, List.foldl_cons, List.foldl_nil, drawPixel_snd, ih]
    show (_ || Screen.pixel _ (x + count) y) = _
    rw [pixel_drawPixels_of_not hs row hnext, List.any_append]
    simp [Bool.or_assoc]

/-- A sprite hits what was lit in its box before. -/
theorem hit_draw (hs : state.1.Complete) (x y : Nat) (rows : List UInt8) :
    (draw x y rows state).2 =
      (state.2 || (List.range rows.length).any fun k =>
        (List.range 8).any fun column => state.1.pixel (x + column) (y + k)) := by
  induction rows generalizing y state with
  | nil => exact (Bool.or_false _).symm
  | cons row rest ih =>
    have hbelow (column k : Nat) : (drawRow x y state row).1.pixel (x + column) (y + 1 + k) =
        state.1.pixel (x + column) (y + (k + 1)) := by
      have hnot : ¬(x ≤ x + column ∧ x + column < x + 8 ∧ y + (k + 1) = y) := by omega
      rw [show y + 1 + k = y + (k + 1) by omega]
      exact pixel_drawPixels_of_not hs row hnot
    rw [draw, ih (complete_drawRow hs x y row)]
    simp only [hbelow]
    rw [drawRow, hit_drawPixels hs, List.length_cons, @List.range_succ_eq_map rest.length,
      List.any_cons, List.any_map, Bool.or_assoc]
    rfl

/-- The flag is up exactly if something in the part of the box that lies in the grid was lit. -/
theorem hit_draw_iff (hs : state.1.Complete) (hdown : state.2 = false) (x y : Nat)
    (rows : List UInt8) :
    (draw x y rows state).2 = true ↔
      ∃ px < 64, ∃ py < 32, (x ≤ px ∧ px < x + 8 ∧ y ≤ py ∧ py < y + rows.length) ∧
        state.1.pixel px py = true := by
  rw [hit_draw hs, hdown, Bool.false_or, List.any_eq_true]
  constructor
  · rintro ⟨k, hk, hrow⟩
    obtain ⟨column, hcolumn, hlit⟩ := List.any_eq_true.mp hrow
    have hgrid : Screen.InGrid (x + column) (y + k) := by
      by_contra hout
      rw [Screen.pixel_of_not_lt _ hout] at hlit
      cases hlit
    rw [List.mem_range] at hk hcolumn
    exact ⟨x + column, hgrid.1, y + k, hgrid.2, by omega, hlit⟩
  · rintro ⟨px, -, py, -, hbox, hlit⟩
    refine ⟨py - y, List.mem_range.mpr (by omega), List.any_eq_true.mpr ⟨px - x, ?_, ?_⟩⟩
    · exact List.mem_range.mpr (by omega)
    · rwa [show x + (px - x) = px by omega, show y + (py - y) = py by omega]

/-- Rows fetched from memory turn over the pixels of the box whose bits are set there, and no
others. -/
theorem pixel_draw_fetch (hs : state.1.Complete) {px py : Nat} (hp : Screen.InGrid px py)
    (memory : Memory) (address count x y : Nat) :
    let inBox := x ≤ px ∧ px < x + 8 ∧ y ≤ py ∧ py < y + count
    let bit := (memory.read ((address + (py - y)) % 4096)).toNat.testBit (7 - (px - x))
    (inBox → (draw x y (memory.fetch address count) state).1.pixel px py =
      (state.1.pixel px py ^^ bit)) ∧
    (¬inBox → (draw x y (memory.fetch address count) state).1.pixel px py =
      state.1.pixel px py) := by
  intro inBox bit
  rw [pixel_draw hs hp, Stamp.covers_fetch, ← Memory.read_mod]
  constructor
  · intro hbox
    rw [decide_eq_true hbox, Bool.true_and]
    rfl
  · intro hbox
    rw [decide_eq_false hbox, Bool.false_and, Bool.xor_false]

end Sprite

namespace Machine

/-- **Drawing is exclusive or, with a flag for the whole box.** In the box of the sprite a pixel
of the grid is turned over by a set bit; all other pixels stay. The flag is one if anything of the
box that lies in the grid was lit before, and zero if not. Nothing else changes but that a redraw
is due. The registers are read before the flag is written, so any of them may be the flag. -/
theorem draw_flips_box {m : Machine Screen} (hs : m.surface.Complete) (noise : UInt8)
    (x y : UInt64) (n : UInt8) :
    let left := (m.v.read x.toNat).toNat
    let top := (m.v.read y.toNat).toNat
    let inBox (px py : Nat) : Prop :=
      left ≤ px ∧ px < left + 8 ∧ top ≤ py ∧ py < top + n.toNat
    let bit (row column : Nat) : Bool :=
      (m.memory.read ((m.index.toNat + row) % 4096)).toNat.testBit (7 - column)
    ∃ surface v,
      m.execute noise (.draw x y n) =
        .done { m with surface := surface, v := v, redraw := true } () ∧
      surface.bytes.size = 256 ∧
      (∀ px < 64, ∀ py < 32,
        (inBox px py →
          surface.pixel px py = (m.surface.pixel px py ^^ bit (py - top) (px - left))) ∧
        (¬inBox px py → surface.pixel px py = m.surface.pixel px py)) ∧
      (v.read 15 = 1 ↔ ∃ px < 64, ∃ py < 32, inBox px py ∧ m.surface.pixel px py = true) ∧
      (v.read 15 = 0 ↔ ¬∃ px < 64, ∃ py < 32, inBox px py ∧ m.surface.pixel px py = true) ∧
      ∀ r ≠ 15, v.read r = m.v.read r := by
  intro left top inBox bit
  let rows := m.memory.fetch m.index.toNat n.toNat
  let drawn := Sprite.draw left top rows (m.surface, false)
  have hstart : ((m.surface, false) : Screen × Bool).1.Complete := hs
  have hcomplete : drawn.1.Complete :=
    Sprite.draw_induction (P := Screen.Complete) (fun _ x y h => h.light x y)
      (fun _ x y h => h.darken x y) left top rows hs
  have hpixel : ∀ px < 64, ∀ py < 32,
      (inBox px py →
        drawn.1.pixel px py = (m.surface.pixel px py ^^ bit (py - top) (px - left))) ∧
      (¬inBox px py → drawn.1.pixel px py = m.surface.pixel px py) := by
    intro px hx py hy
    exact Sprite.pixel_draw_fetch hstart ⟨hx, hy⟩ m.memory m.index.toNat n.toNat left top
  have hhit : drawn.2 = true ↔
      ∃ px < 64, ∃ py < 32, inBox px py ∧ m.surface.pixel px py = true := by
    have hdraw := Sprite.hit_draw_iff hstart rfl left top rows
    rwa [Memory.length_fetch] at hdraw
  have hflag : (m.v.write Registers.flag (flagByte drawn.2)).read 15 = flagByte drawn.2 :=
    (Registers.read_write _ Registers.flag_lt _ _).trans (if_pos rfl)
  refine ⟨drawn.1, m.v.write Registers.flag (flagByte drawn.2), rfl, hcomplete, hpixel, ?_, ?_, ?_⟩
  · rw [hflag, flagByte_eq_one_iff, hhit]
  · rw [hflag, ← hhit]
    cases drawn.2 <;> decide
  · intro r hr
    exact (Registers.read_write _ Registers.flag_lt _ _).trans (if_neg (Ne.symm hr))

/-- A sprite in the last corner whose rows go over the end of memory and whose column is in the
flag register: it hits under a zero bit, and that pixel stays. -/
theorem draw_flips_box_over_zero_bit :
    let m : Machine Screen :=
      { initial (Screen.blank.light 62 30) with
        v := (Registers.zero.write 15 60).write 0 30, index := 0xfff }
    m.surface.Complete ∧
    ∃ surface v,
      m.execute 0 (.draw 15 0 3) =
        .done { m with surface := surface, v := v, redraw := true } () ∧
      surface.pixel 60 31 = true ∧ surface.pixel 62 30 = true ∧ surface.pixel 59 31 = false ∧
      v.read 15 = 1 ∧ v.read 0 = 30 := by
  intro m
  have hs : m.surface.Complete := Screen.complete_blank.light 62 30
  obtain ⟨surface, v, hdone, -, hpixel, hhit, -, hkept⟩ := draw_flips_box hs 0 15 0 3
  refine ⟨hs, surface, v, hdone, ?_, ?_, ?_, ?_, ?_⟩
  · refine ((hpixel 60 (by decide) 31 (by decide)).1 (by decide)).trans ?_
    decide +kernel
  · refine ((hpixel 62 (by decide) 30 (by decide)).1 (by decide)).trans ?_
    decide +kernel
  · refine ((hpixel 59 (by decide) 31 (by decide)).2 (by decide)).trans ?_
    decide +kernel
  · exact hhit.mpr ⟨62, by decide, 30, by decide, by decide, by decide +kernel⟩
  · exact (hkept 0 (by decide)).trans (by decide)

end Machine

end Chip8
