import Chip8.Proofs.Compositing
import Mathlib.Data.Finset.Card
import Mathlib.Data.Finset.Prod
import Mathlib.Data.Finset.Range

/-!
# The screen is a set of pixels

A screen packs eight pixels into a byte, but no two pixels of the grid share a bit, and every
bit of the 256 bytes belongs to one of them. So whatever is lit, darkened and cleared, a pixel
shows what was last done to it and the pixels around it do not matter, a screen is known by its
pixels, and to count the set bits is to count the lit pixels.
-/

namespace Chip8

/-- The request is about that pixel, alone or together with all the others. -/
def Surface.Edit.concerns (x y : Nat) : Surface.Edit → Bool
  | light x' y' | darken x' y' => decide (x' = x ∧ y' = y)
  | clear => true

namespace Screen

/-- The screen behind requests that change pixels. -/
def after (s : Screen) (edits : List Surface.Edit) : Screen :=
  edits.foldl Surface.apply s

variable {s : Screen}

/-! ## Requests -/

theorem Complete.apply (hs : s.Complete) (edit : Surface.Edit) :
    Complete (Surface.apply s edit) := by
  cases edit with
  | light x y => exact hs.light x y
  | darken x y => exact hs.darken x y
  | clear => exact hs.clear

theorem Complete.after (hs : s.Complete) (edits : List Surface.Edit) :
    (s.after edits).Complete := by
  induction edits generalizing s with
  | nil => exact hs
  | cons edit rest ih => exact ih (hs.apply edit)

/-- A request decides about the pixels that it concerns, and leaves the others alone. -/
theorem pixel_apply (hs : s.Complete) {x y : Nat} (hp : InGrid x y) (edit : Surface.Edit) :
    pixel (Surface.apply s edit) x y =
      if edit.concerns x y then decide (edit = .light x y) else s.pixel x y := by
  cases edit with
  | light x' y' =>
    refine (pixel_light_of_inGrid hs hp x' y').trans ?_
    by_cases hsame : x' = x ∧ y' = y <;> simp [Surface.Edit.concerns, hsame]
  | darken x' y' =>
    refine (pixel_darken_of_inGrid hs hp x' y').trans ?_
    by_cases hsame : x' = x ∧ y' = y <;> simp [Surface.Edit.concerns, hsame]
  | clear => exact pixel_clear s x y

/-- The last request about a pixel decides whether it is lit. -/
theorem pixel_after (hs : s.Complete) {x y : Nat} (hp : InGrid x y) (edits : List Surface.Edit) :
    (s.after edits).pixel x y =
      match (edits.filter (·.concerns x y)).getLast? with
      | some edit => decide (edit = .light x y)
      | none => s.pixel x y := by
  induction edits generalizing s with
  | nil => rfl
  | cons edit rest ih =>
    show (after (Surface.apply s edit) rest).pixel x y = _
    rw [ih (hs.apply edit), pixel_apply hs hp]
    cases hc : edit.concerns x y with
    | true =>
      rw [List.filter_cons_of_pos hc, List.getLast?_cons]
      cases (rest.filter (·.concerns x y)).getLast? <;> rfl
    | false =>
      rw [List.filter_cons_of_neg (by simp [hc])]
      rfl

/-! ## Counting -/

/-- The row and the column of an entry in rows of one length. -/
theorem div_mod_of_lt {w x : Nat} (hx : x < w) (y : Nat) :
    (w * y + x) / w = y ∧ (w * y + x) % w = x := by
  constructor
  · rw [Nat.mul_add_div (by omega), Nat.div_eq_of_lt hx, Nat.add_zero]
  · rw [Nat.mul_add_mod, Nat.mod_eq_of_lt hx]

/-- Rows of `m` entries one below another are one row of `n * m` entries. -/
theorem flatMap_range {α : Type} (n m : Nat) (f : Nat → Nat → α) :
    ((List.range n).flatMap fun i => (List.range m).map (f i)) =
      (List.range (n * m)).map fun k => f (k / m) (k % m) := by
  induction n with
  | zero => simp
  | succ n ih =>
    rw [List.range_succ, List.flatMap_append, ih, Nat.succ_mul, List.range_add, List.map_append,
      List.map_map]
    congr 1
    rw [List.flatMap_singleton]
    apply List.map_congr_left
    intro c hc
    obtain ⟨hdiv, hmod⟩ := div_mod_of_lt (List.mem_range.mp hc) n
    show f n c = f ((n * m + c) / m) ((n * m + c) % m)
    rw [Nat.mul_comm, hdiv, hmod]

/-- The bits of the screen from the first byte on are the pixels of the grid row by row. -/
theorem flatMap_pixels (hs : s.Complete) :
    s.bytes.toList.flatMap Octet.pixels =
      (List.range (byteCount * 8)).map fun k => s.pixel (k % width) (k / width) := by
  have hbytes : s.bytes.toList = (List.range byteCount).map s.byteAt := by
    have hsize : s.bytes.size = byteCount := hs
    apply List.ext_getElem?
    intro i
    by_cases hi : i < byteCount <;> simp [byteAt, hi, hsize]
  unfold Octet.pixels
  rw [hbytes, List.flatMap_map, flatMap_range byteCount 8 fun i => Octet.pixel (s.byteAt i)]
  apply List.map_congr_left
  intro k hk
  have hlt : k < byteCount * 8 := List.mem_range.mp hk
  simp only [byteCount] at hlt
  have hx : k % width < width := Nat.mod_lt k (by decide)
  have hy : k / width < height := by
    simp only [width, height]
    omega
  have hplace : 8 * (k / width) + k % width / 8 = k / 8 := by
    simp only [width]
    omega
  rw [pixel_of_lt s hx hy, hplace]
  rw [Octet.pixel_mod, ← Octet.pixel_mod _ (k % width),
    show k % width % 8 = k % 8 by simp only [width]; omega, Octet.pixel_mod]

/-- To count along the rows of a grid is to count its points. -/
theorem countP_range_mul {w : Nat} (hw : 0 < w) (h : Nat) (p : Nat → Nat → Bool) :
    (List.range (w * h)).countP (fun k => p (k % w) (k / w)) =
      ((Finset.range w ×ˢ Finset.range h).filter fun q => p q.1 q.2 = true).card := by
  have hcount : (List.range (w * h)).countP (fun k => p (k % w) (k / w)) =
      ((Finset.range (w * h)).filter fun k => p (k % w) (k / w) = true).card := by
    rw [List.countP_eq_length_filter]
    refine congrArg List.length (List.filter_congr fun k _ => ?_)
    exact Bool.decide_eq_true.symm
  rw [hcount]
  apply Finset.card_nbij' (fun k => (k % w, k / w)) fun q => w * q.2 + q.1
  · intro k hk
    simp only [Finset.coe_filter, Finset.mem_range, Set.mem_ofPred_eq, Finset.mem_product] at hk ⊢
    exact ⟨⟨Nat.mod_lt k hw, Nat.div_lt_of_lt_mul hk.1⟩, hk.2⟩
  · rintro ⟨x, y⟩ hq
    simp only [Finset.coe_filter, Finset.mem_range, Set.mem_ofPred_eq, Finset.mem_product] at hq ⊢
    obtain ⟨⟨hx, hy⟩, hlit⟩ := hq
    obtain ⟨hdiv, hmod⟩ := div_mod_of_lt hx y
    rw [hdiv, hmod]
    refine ⟨?_, hlit⟩
    calc w * y + x < w * (y + 1) := by rw [Nat.mul_succ]; omega
      _ ≤ w * h := Nat.mul_le_mul_left w hy
  · intro k hk
    exact Nat.div_add_mod k w
  · rintro ⟨x, y⟩ hq
    simp only [Finset.coe_filter, Finset.mem_range, Set.mem_ofPred_eq, Finset.mem_product] at hq
    obtain ⟨hdiv, hmod⟩ := div_mod_of_lt hq.1.1 y
    exact Prod.ext hmod hdiv

/-- Every bit of the screen is a pixel of the grid, and no two pixels are one bit. -/
theorem lit_eq_card (hs : s.Complete) :
    s.lit =
      ((Finset.range width ×ˢ Finset.range height).filter
        fun p => s.pixel p.1 p.2 = true).card := by
  have hgrid : byteCount * 8 = width * height := rfl
  have hcount := countP_range_mul (show 0 < width by decide) height s.pixel
  unfold lit
  rw [flatMap_pixels hs, List.count, List.countP_map, hgrid]
  refine Eq.trans (congrArg (List.countP · _) ?_) hcount
  funext k
  exact beq_true _

/-- The bit of the screen that is a pixel of the grid. -/
theorem bit_eq_pixel (hs : s.Complete) {x y : Nat} (hp : InGrid x y) :
    (s.bytes[8 * y + x / 8]?).map (fun byte => byte.toNat.testBit (7 - x % 8)) =
      some (s.pixel x y) := by
  have hplace := lt_of_complete hs hp.1 hp.2
  rw [pixel_of_lt s hp.1 hp.2, Array.getElem?_eq_getElem hplace]
  simp [byteAt, hplace, Octet.pixel_eq_testBit]

/-- **The screen is a set of pixels.** A pixel of the grid is lit exactly if the last request
about it lit it, and outside the grid nothing is ever lit or changed. Pixels and bits are the same
thing, so the lit ones are counted by counting bits, and a screen is known by its pixels. -/
theorem lit_iff_last_lights (edits : List Surface.Edit) :
    let s := blank.after edits
    s.bytes.size = 256 ∧
    (∀ x < 64, ∀ y < 32, s.pixel x y = true ↔
      (edits.filter (·.concerns x y)).getLast? = some (.light x y)) ∧
    (∀ x y, ¬(x < 64 ∧ y < 32) → s.pixel x y = false ∧
      Surface.apply s (.light x y) = s ∧ Surface.apply s (.darken x y) = s) ∧
    s.lit = ((Finset.range 64 ×ˢ Finset.range 32).filter fun p => s.pixel p.1 p.2 = true).card ∧
    (∀ x < 64, ∀ y < 32,
      (s.bytes[8 * y + x / 8]?).map (fun byte => byte.toNat.testBit (7 - x % 8)) =
        some (s.pixel x y)) ∧
    ∀ t : Screen, t.bytes.size = 256 →
      (s = t ↔ ∀ x < 64, ∀ y < 32, s.pixel x y = t.pixel x y) := by
  intro s
  have hs : s.Complete := complete_blank.after edits
  have hlast : ∀ x < 64, ∀ y < 32, s.pixel x y = true ↔
      (edits.filter (·.concerns x y)).getLast? = some (.light x y) := by
    intro x hx y hy
    rw [pixel_after complete_blank ⟨hx, hy⟩ edits]
    cases (edits.filter (·.concerns x y)).getLast? with
    | none => simp [pixel_blank]
    | some edit => simp
  have houtside : ∀ x y, ¬(x < 64 ∧ y < 32) → s.pixel x y = false ∧
      Surface.apply s (.light x y) = s ∧ Surface.apply s (.darken x y) = s :=
    fun x y h => ⟨pixel_of_not_lt s h, light_of_not_lt s h, darken_of_not_lt s h⟩
  refine ⟨hs, hlast, houtside, lit_eq_card hs, fun x hx y hy => bit_eq_pixel hs ⟨hx, hy⟩, ?_⟩
  intro t ht
  constructor
  · rintro rfl x _ y _
    rfl
  · exact eq_of_pixel_eq hs ht

/-- The last pixel of the grid, next to one that is darkened again, after a clear and a request
past the edge. -/
theorem lit_iff_last_lights_of_last_pixel :
    let edits : List Surface.Edit :=
      [.light 5 5, .light 62 31, .clear, .light 63 31, .light 62 31, .darken 62 31, .light 64 0]
    let s := blank.after edits
    63 < 64 ∧ 31 < 32 ∧ s.pixel 63 31 = true ∧ s.pixel 62 31 = false ∧
    ¬(64 < 64 ∧ 0 < 32) ∧ Surface.apply s (.light 64 0) = s ∧
    blank.bytes.size = 256 ∧ s ≠ blank := by
  intro edits s
  obtain ⟨-, hlast, houtside, -, -, hknown⟩ := lit_iff_last_lights edits
  have hlit : s.pixel 63 31 = true := (hlast 63 (by decide) 31 (by decide)).mpr (by decide)
  have hdark : s.pixel 62 31 = false := by
    rw [← Bool.not_eq_true, hlast 62 (by decide) 31 (by decide)]
    decide
  refine ⟨by decide, by decide, hlit, hdark, by decide, (houtside 64 0 (by decide)).2.1,
    complete_blank, ?_⟩
  intro hblank
  have hpixel := (hknown blank complete_blank).mp hblank 63 (by decide) 31 (by decide)
  rw [pixel_blank] at hpixel
  exact Bool.false_ne_true (hpixel.symm.trans hlit)

end Screen

end Chip8
