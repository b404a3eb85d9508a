import Chip8.Octet
import Chip8.Surface

/-!
# The screen is a grid of 64 by 32 pixels, eight to a byte

Rows follow one another from the top, eight bytes each. Pixels outside the grid
are dark and stay dark. On a complete screen, lighting and darkening a pixel of
the grid changes that pixel alone, and nothing ever changes the number of bytes.
-/

namespace Chip8

/-- The bytes of the screen. The machine's own screen always has `Screen.byteCount` of them. -/
structure Screen where
  bytes : Array UInt8
  deriving DecidableEq

namespace Screen

def width : Nat := 64

def height : Nat := 32

/-- The number of bytes of a whole screen. -/
def byteCount : Nat := 256

def blank : Screen :=
  ⟨Array.replicate byteCount 0⟩

/-- The screen has a byte for every pixel. -/
def Complete (s : Screen) : Prop :=
  s.bytes.size = byteCount

instance (s : Screen) : Decidable s.Complete :=
  inferInstanceAs (Decidable (_ = _))

/-- The byte that holds a pixel of the grid, if there is such a pixel. -/
def byteOf? (x y : Nat) : Option Nat :=
  if x < width ∧ y < height then some ((y * width + x) / 8) else none

/-- The byte of pixel `(x, y)` is there, or the pixel lies outside the grid. -/
def Holds (s : Screen) (x y : Nat) : Prop :=
  ∀ i ∈ byteOf? x y, i < s.bytes.size

instance (s : Screen) (x y : Nat) : Decidable (s.Holds x y) :=
  inferInstanceAs (Decidable (∀ i ∈ byteOf? x y, i < s.bytes.size))

/-- The byte at a position; a byte that is not there reads as zero. -/
def byteAt (s : Screen) (i : Nat) : UInt8 :=
  s.bytes.getD i 0

/-- The pixel is in the grid and lit. -/
def pixel (s : Screen) (x y : Nat) : Bool :=
  match byteOf? x y with
  | some i => Octet.pixel (s.byteAt i) x
  | none => false

/-- Lights a pixel of the grid. -/
def light (s : Screen) (x y : Nat) : Screen :=
  match byteOf? x y with
  | some i => ⟨s.bytes.modify i (Octet.light · x)⟩
  | none => s

/-- Darkens a pixel of the grid. -/
def darken (s : Screen) (x y : Nat) : Screen :=
  match byteOf? x y with
  | some i => ⟨s.bytes.modify i (Octet.darken · x)⟩
  | none => s

/-- Darkens every pixel, and keeps the number of bytes. -/
def clear (s : Screen) : Screen :=
  ⟨s.bytes.map fun _ => 0⟩

instance : Surface Screen where
  pixel := pixel
  light := light
  darken := darken
  clear := clear

/-- The number of lit pixels. -/
def lit (s : Screen) : Nat :=
  (s.bytes.toList.flatMap Octet.pixels).count true

/-- A row of the grid is eight bytes. -/
theorem byteOf?_of_lt {x y : Nat} (hx : x < width) (hy : y < height) :
    byteOf? x y = some (8 * y + x / 8) := by
  have hplace : (y * width + x) / 8 = 8 * y + x / 8 := by
    simp only [width]
    omega
  rw [byteOf?, if_pos ⟨hx, hy⟩, hplace]

theorem byteOf?_eq_none {x y : Nat} (h : ¬(x < width ∧ y < height)) : byteOf? x y = none := by
  simp [byteOf?, h]

/-- Two pixels of the grid in the same byte and the same column of it are one pixel. -/
theorem eq_iff_of_lt {x x' : Nat} (hx : x < width) (hx' : x' < width) (y y' : Nat) :
    8 * y + x / 8 = 8 * y' + x' / 8 ∧ x % 8 = x' % 8 ↔ x = x' ∧ y = y' := by
  simp only [width] at hx hx'
  omega

theorem place_lt {x y : Nat} (hx : x < width) (hy : y < height) : 8 * y + x / 8 < byteCount := by
  simp only [width, height, byteCount] at hx hy ⊢
  omega

theorem lt_of_complete {s : Screen} (hs : s.Complete) {x y : Nat} (hx : x < width)
    (hy : y < height) : 8 * y + x / 8 < s.bytes.size :=
  hs ▸ place_lt hx hy

theorem holds_of_byteCount_le {s : Screen} (h : byteCount ≤ s.bytes.size) (x y : Nat) :
    s.Holds x y := by
  intro i hi
  by_cases hp : x < width ∧ y < height
  · rw [byteOf?_of_lt hp.1 hp.2] at hi
    exact Option.mem_some.mp hi ▸ Nat.lt_of_lt_of_le (place_lt hp.1 hp.2) h
  · simp [byteOf?_eq_none hp] at hi

theorem Complete.holds {s : Screen} (hs : s.Complete) (x y : Nat) : s.Holds x y :=
  holds_of_byteCount_le (Nat.le_of_eq hs.symm) x y

/-- The byte of a pixel of the grid is there. -/
theorem Holds.lt {s : Screen} {x y : Nat} (h : s.Holds x y) (hx : x < width) (hy : y < height) :
    8 * y + x / 8 < s.bytes.size :=
  h _ (byteOf?_of_lt hx hy)

theorem size_light (s : Screen) (x y : Nat) : (s.light x y).bytes.size = s.bytes.size := by
  simp only [light]
  split
  · exact Array.size_modify
  · rfl

theorem size_darken (s : Screen) (x y : Nat) : (s.darken x y).bytes.size = s.bytes.size := by
  simp only [darken]
  split
  · exact Array.size_modify
  · rfl

theorem size_clear (s : Screen) : s.clear.bytes.size = s.bytes.size :=
  Array.size_map

/-- Screens of one size hold the same pixels. -/
theorem Holds.congr {s t : Screen} {x y : Nat} (h : s.Holds x y)
    (hsize : t.bytes.size = s.bytes.size) : t.Holds x y :=
  fun i hi => hsize ▸ h i hi

theorem complete_blank : blank.Complete := by
  simp [Complete, blank]

theorem Complete.light {s : Screen} (hs : s.Complete) (x y : Nat) : (s.light x y).Complete :=
  (size_light s x y).trans hs

theorem Complete.darken {s : Screen} (hs : s.Complete) (x y : Nat) : (s.darken x y).Complete :=
  (size_darken s x y).trans hs

theorem Complete.clear {s : Screen} (hs : s.Complete) : s.clear.Complete :=
  (size_clear s).trans hs

theorem pixel_of_not_lt (s : Screen) {x y : Nat} (h : ¬(x < width ∧ y < height)) :
    s.pixel x y = false := by
  simp [pixel, byteOf?_eq_none h]

theorem pixel_of_lt (s : Screen) {x y : Nat} (hx : x < width) (hy : y < height) :
    s.pixel x y = Octet.pixel (s.byteAt (8 * y + x / 8)) x := by
  simp [pixel, byteOf?_of_lt hx hy]

theorem byteAt_modify (s : Screen) (f : UInt8 → UInt8) {i : Nat} (hi : i < s.bytes.size)
    (j : Nat) :
    Screen.byteAt ⟨s.bytes.modify i f⟩ j = if i = j then f (s.byteAt i) else s.byteAt j := by
  simp only [byteAt, Array.getD_eq_getD_getElem?, Array.getElem?_modify]
  by_cases h : i = j
  · subst h
    simp [hi]
  · simp [h]

/-- Lighting a pixel of the grid lights it and leaves the others alone. -/
theorem pixel_light {s : Screen} {x y : Nat} (hs : s.Holds x y) (hx : x < width)
    (hy : y < height) (x' y' : Nat) :
    (s.light x y).pixel x' y' = (s.pixel x' y' || decide (x = x' ∧ y = y')) := by
  by_cases h : x' < width ∧ y' < height
  · have hi := eq_iff_of_lt hx h.1 y y'
    simp only [light, byteOf?_of_lt hx hy, pixel_of_lt _ h.1 h.2,
      byteAt_modify s _ (hs.lt hx hy)]
    by_cases hb : 8 * y + x / 8 = 8 * y' + x' / 8
    · simp only [hb, true_and] at hi
      simp only [hb, ite_true, Octet.pixel_light, hi]
    · simp only [hb, false_and, false_iff] at hi
      simp [hb, hi]
  · have hne : ¬(x = x' ∧ y = y') := fun he => h ⟨he.1 ▸ hx, he.2 ▸ hy⟩
    simp [pixel_of_not_lt _ h, hne]

/-- Darkening a pixel of the grid darkens it and leaves the others alone. -/
theorem pixel_darken {s : Screen} {x y : Nat} (hs : s.Holds x y) (hx : x < width)
    (hy : y < height) (x' y' : Nat) :
    (s.darken x y).pixel x' y' = (s.pixel x' y' && !decide (x = x' ∧ y = y')) := by
  by_cases h : x' < width ∧ y' < height
  · have hi := eq_iff_of_lt hx h.1 y y'
    simp only [darken, byteOf?_of_lt hx hy, pixel_of_lt _ h.1 h.2,
      byteAt_modify s _ (hs.lt hx hy)]
    by_cases hb : 8 * y + x / 8 = 8 * y' + x' / 8
    · simp only [hb, true_and] at hi
      simp only [hb, ite_true, Octet.pixel_darken, hi]
    · simp only [hb, false_and, false_iff] at hi
      simp [hb, hi]
  · simp [pixel_of_not_lt _ h]

theorem light_of_not_lt (s : Screen) {x y : Nat} (h : ¬(x < width ∧ y < height)) :
    s.light x y = s := by
  simp [light, byteOf?_eq_none h]

theorem darken_of_not_lt (s : Screen) {x y : Nat} (h : ¬(x < width ∧ y < height)) :
    s.darken x y = s := by
  simp [darken, byteOf?_eq_none h]

theorem pixel_clear (s : Screen) (x y : Nat) : s.clear.pixel x y = false := by
  have hz (i : Nat) : s.clear.byteAt i = 0 := by
    simp only [byteAt, clear, Array.getD_eq_getD_getElem?, Array.getElem?_map]
    cases s.bytes[i]? <;> rfl
  by_cases h : x < width ∧ y < height
  · simp [pixel_of_lt _ h.1 h.2, hz, Octet.pixel]
  · exact pixel_of_not_lt _ h

theorem pixel_blank (x y : Nat) : blank.pixel x y = false := by
  have h : blank.clear = blank := by simp [clear, blank]
  rw [← h]
  exact pixel_clear blank x y

/-- Complete screens are known by the pixels of the grid. -/
theorem eq_of_pixel_eq {s t : Screen} (hs : s.Complete) (ht : t.Complete)
    (h : ∀ x < width, ∀ y < height, s.pixel x y = t.pixel x y) : s = t := by
  have hbyte (i : Nat) (hi : i < byteCount) : s.byteAt i = t.byteAt i := by
    simp only [byteCount] at hi
    apply Octet.eq_of_pixel_eq
    intro column hc
    -- pixel `column` of byte `i` is the pixel of row `i / 8` in this column of the grid
    have hx : 8 * (i % 8) + column < width := by
      simp only [width]
      omega
    have hy : i / 8 < height := by
      simp only [height]
      omega
    have hxy := h _ hx _ hy
    rw [pixel_of_lt s hx hy, pixel_of_lt t hx hy,
      show 8 * (i / 8) + (8 * (i % 8) + column) / 8 = i by omega] at hxy
    rwa [← Octet.pixel_mod, ← Octet.pixel_mod (t.byteAt i),
      show (8 * (i % 8) + column) % 8 = column % 8 by omega, Octet.pixel_mod,
      Octet.pixel_mod] at hxy
  obtain ⟨a⟩ := s
  obtain ⟨b⟩ := t
  congr 1
  apply Array.ext (hs.trans ht.symm)
  intro i ha hb
  have hab := hbyte i (hs ▸ ha)
  simpa [byteAt, ha, hb] using hab

end Screen

end Chip8
