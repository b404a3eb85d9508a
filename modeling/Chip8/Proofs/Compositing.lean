import Chip8.Proofs.Edgeless

/-!
# Drawing turns pixels over

Drawing compares each pixel of a sprite's box with the sprite's bit and lights or darkens it.
Seen from a pixel of the grid that is exclusive or: the pixel is turned over if the sprite
has a set bit there, and left alone otherwise. What lies past the edge is dropped and changes
no pixel of the grid, so the law holds for sprites that are clipped as well.
-/

namespace Chip8

/-- A sprite in its place: its left column, its top row, and its rows from the top. -/
structure Stamp where
  left : Nat
  top : Nat
  rows : List UInt8
  deriving DecidableEq, Repr

namespace Stamp

/-- The sprite has a set bit at the pixel. -/
def covers (stamp : Stamp) (x y : Nat) : Bool :=
  decide (stamp.left ≤ x ∧ x < stamp.left + 8 ∧ stamp.top ≤ y) &&
    (stamp.rows[y - stamp.top]?).any fun row => Octet.pixel row (x - stamp.left)

theorem covers_nil (left top x y : Nat) : covers ⟨left, top, []⟩ x y = false := by
  simp [covers]

/-- The first row has its bits in the top line of the box, and the others cover what lies below. -/
theorem covers_cons (left top : Nat) (row : UInt8) (rest : List UInt8) (x y : Nat) :
    covers ⟨left, top, row :: rest⟩ x y =
      ((decide (left ≤ x ∧ x < left + 8 ∧ y = top) && Octet.pixel row (x - left)) ^^
        covers ⟨left, top + 1, rest⟩ x y) := by
  by_cases hx : left ≤ x ∧ x < left + 8
  · obtain hlt | rfl | hgt := Nat.lt_trichotomy y top
    · have hne : y ≠ top := by omega
      have htop : ¬top ≤ y := by omega
      have hnext : ¬top + 1 ≤ y := by omega
      simp [covers, hne, htop, hnext]
    · have hnext : ¬y + 1 ≤ y := by omega
      simp [covers, hx, hnext]
    · have hne : y ≠ top := by omega
      have htop : top ≤ y := by omega
      have hnext : top + 1 ≤ y := by omega
      have hget : (row :: rest)[y - top]? = rest[y - (top + 1)]? := by
        rw [show y - top = y - (top + 1) + 1 by omega, List.getElem?_cons_succ]
      simp [covers, hne, htop, hnext, hget]
  · simp only [covers, ← and_assoc, hx, false_and, decide_false, Bool.false_and, Bool.xor_false]

end Stamp

namespace Screen

variable {s : Screen} {px py : Nat}

/-- Seen from the grid, lighting any pixel lights that one and no other. -/
theorem pixel_light_of_inGrid (hs : s.Complete) (hp : InGrid px py) (x y : Nat) :
    (s.light x y).pixel px py = (s.pixel px py || decide (x = px ∧ y = py)) := by
  by_cases hxy : InGrid x y
  · exact pixel_light (hs.holds x y) hxy.1 hxy.2 px py
  · rw [light_of_not_lt s hxy, decide_eq_false (hp.ne_of_not hxy), Bool.or_false]

theorem pixel_darken_of_inGrid (hs : s.Complete) (hp : InGrid px py) (x y : Nat) :
    (s.darken x y).pixel px py = (s.pixel px py && !decide (x = px ∧ y = py)) := by
  by_cases hxy : InGrid x y
  · exact pixel_darken (hs.holds x y) hxy.1 hxy.2 px py
  · rw [darken_of_not_lt s hxy, decide_eq_false (hp.ne_of_not hxy), Bool.not_false, Bool.and_true]

end Screen

namespace Sprite

open Screen (InGrid)

variable {state : Screen × Bool} {px py : Nat}

theorem complete_drawRow (hs : state.1.Complete) (x y : Nat) (row : UInt8) :
    (drawRow x y state row).1.Complete :=
  drawRow_induction (P := Screen.Complete) (fun _ x y h => h.light x y)
    (fun _ x y h => h.darken x y) x y hs row

/-- A pixel of the grid is turned over if it is the one that is drawn and its bit is set. -/
theorem pixel_drawPixel (hs : state.1.Complete) (hp : InGrid px py) (x y : Nat) (row : UInt8)
    (column : Nat) :
    (drawPixel x y row state column).1.pixel px py =
      (state.1.pixel px py ^^
        (decide (x + column = px ∧ y = py) && Octet.pixel row column)) := by
  have hlight : (Surface.light state.1 (x + column) y).pixel px py = _ :=
    Screen.pixel_light_of_inGrid hs hp (x + column) y
  have hdarken : (Surface.darken state.1 (x + column) y).pixel px py = _ :=
    Screen.pixel_darken_of_inGrid hs hp (x + column) y
  rw [drawPixel_fst, apply_ite (Screen.pixel · px py), hlight, hdarken]
  by_cases hsame : x + column = px ∧ y = py
  · obtain ⟨rfl, rfl⟩ := hsame
    show (if state.1.pixel (x + column) y != _ then _ else _) = _
    cases state.1.pixel (x + column) y <;> cases Octet.pixel row column <;> simp
  · simp [hsame]

/-- The first `count` pixels of a row. -/
theorem pixel_drawPixels (hs : state.1.Complete) (hp : InGrid px py) (x y : Nat) (row : UInt8)
    (count : Nat) :
    ((List.range count).foldl (drawPixel x y row) state).1.pixel px py =
      (state.1.pixel px py ^^
        (decide (x ≤ px ∧ px < x + count ∧ py = y) && Octet.pixel row (px - x))) := by
  induction count with
  | zero =>
    have hne : ¬(x ≤ px ∧ px < x + 0 ∧ py = y) := by omega
    rw [decide_eq_false hne, Bool.false_and, Bool.xor_false]
    rfl
  | succ count ih =>
    have hcomplete : ((List.range count).foldl (drawPixel x y row) state).1.Complete :=
      List.foldlRecOn (motive := fun state : Screen × Bool => state.1.Complete) _ _ hs
        fun _ h column _ => drawPixel_induction (P := Screen.Complete)
          (fun _ x y h => h.light x y) (fun _ x y h => h.darken x y) x y row h column
    rw [List.range_succ, List.foldl_append, List.foldl_cons, List.foldl_nil,
      pixel_drawPixel hcomplete hp, ih]
    by_cases hlast : x + count = px ∧ y = py
    · obtain ⟨rfl, rfl⟩ := hlast
      simp
    · have hiff : (x ≤ px ∧ px < x + (count + 1) ∧ py = y) ↔
          x ≤ px ∧ px < x + count ∧ py = y := by omega
      simp [hlast, hiff]

/-- **Drawing a sprite turns over the pixels under its set bits.** -/
theorem pixel_draw (hs : state.1.Complete) (hp : InGrid px py) (x y : Nat) (rows : List UInt8) :
    (draw x y rows state).1.pixel px py =
      (state.1.pixel px py ^^ Stamp.covers ⟨x, y, rows⟩ px py) := by
  induction rows generalizing y state with
  | nil => rw [draw, Stamp.covers_nil, Bool.xor_false]
  | cons row rest ih =>
    rw [draw, ih (complete_drawRow hs x y row), drawRow, pixel_drawPixels hs hp,
      Stamp.covers_cons, Bool.xor_assoc]

end Sprite

end Chip8
